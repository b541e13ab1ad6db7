/-
# Sim.Runs -- which runs are reported

`compare_one_text` goes up a text.  Where `lcs` finds a run it is reported and skipped;
elsewhere the next token is tried.  `Compare_Files` does this for each new text and each
range of texts that the options ask for.

* `compareOneText_scan`: the loop ends, and is a scan (`Theory.Greedy`) that takes at each
  position what the plain search finds there;
* `scanned_pairwise`, `scanned_covers`: its runs are apart in their text; and where two texts
  share `Min_Run_Size` tokens, a run covers the position;
* `compareFiles_parts`: `Compare_Files` ends, with the runs of one such scan for each
  comparison the options ask for; `compareFiles_reports` says that these are shared runs, and
  that nothing shared is missed;
* `compare_unique`: the runs are the same for every size of the hash table.
-/
import Mathlib.Tactic.Choose
import RunServer.Sim.Compare
import RunServer.Theory.Greedy

namespace RunServer.Sim

open RunServer.Theory.Endless
open RunServer.Theory.Greedy

set_option autoImplicit false

/-- What `add_run` is called with. -/
@[ext]
structure Run where
  txt0 : Nat
  i0 : Nat
  txt1 : Nat
  i1 : Nat
  size : Nat
  deriving DecidableEq, Repr

section OneText

variable (minRunSize : Nat) (c : Corpus) (references : Nat → Nat)

structure OneText where
  i0 : Nat
  runs : List Run

def oneTextTurn (n iFirst iLimit : Nat) (s : OneText) :
    Option (Pass OneText (Except String (List Run))) :=
  if s.i0 + minRunSize ≤ (c.text n).txLimit then
    match lcs minRunSize c references n s.i0 iFirst iLimit with
    | none => none
    | some (.error msg) => some (.done (.error msg))
    | some (.ok best) =>
        if best.sizeBest ≠ 0 then
          some (.again {
            i0 := s.i0 + best.sizeBest
            runs := s.runs ++ [⟨n, s.i0, best.txBest, best.iBest, best.sizeBest⟩] })
        else some (.again { s with i0 := s.i0 + 1 })
  else some (.done (.ok s.runs))

/-- `compare_one_text(n, first, limit)`, with the runs it adds. -/
def compareOneText (n first limit : Nat) : Option (Except String (List Run)) :=
  run (oneTextTurn minRunSize c references n (c.text first).txStart (c.text (limit - 1)).txLimit)
    (c.length + 1) { i0 := (c.text n).txStart, runs := [] }

end OneText

/-! ## One scan -/

section Scan

variable {minRunSize : Nat} {c : Corpus} {references : Nat → Nat} {size : Nat}

/-- The run is the first of the longest at its position. -/
structure Taken (minRunSize : Nat) (c : Corpus) (n iFirst iLimit i : Nat) (r : Run) : Prop where
  txt0 : r.txt0 = n
  i0 : r.i0 = i
  enough : minRunSize ≤ r.size
  shared : Shared c n i iFirst iLimit r.txt1 r.i1 r.size
  longest : ∀ m j size, Shared c n i iFirst iLimit m j size → size ≤ r.size
  first : ∀ m j, j < r.i1 → ¬ Shared c n i iFirst iLimit m j r.size

/-- No run begins here. -/
def Left (minRunSize : Nat) (c : Corpus) (n iFirst iLimit i : Nat) : Prop :=
  ∀ m j size, Shared c n i iFirst iLimit m j size → size < minRunSize

/-- What a scan of `Text[n]` from `i` on reports. -/
abbrev ScannedFrom (minRunSize : Nat) (c : Corpus) (n iFirst iLimit : Nat) :
    Nat → List Run → Prop :=
  Scan Run.size (Taken minRunSize c n iFirst iLimit) (Left minRunSize c n iFirst iLimit)
    (fun i => (c.text n).txLimit < i + minRunSize)

variable (referenced : Referenced minRunSize c references size) (positive : 0 < minRunSize)

include referenced positive in
/-- One turn takes the best run at the position, or leaves the position. -/
theorem oneTextTurn_cases {n : Nat} (is : n < c.texts.length) (iFirst iLimit : Nat) {s : OneText}
    (after : (c.text n).txStart ≤ s.i0) (room : s.i0 + minRunSize ≤ (c.text n).txLimit) :
    (oneTextTurn minRunSize c references n iFirst iLimit s =
        some (.again { s with i0 := s.i0 + 1 }) ∧ Left minRunSize c n iFirst iLimit s.i0) ∨
    ∃ r, oneTextTurn minRunSize c references n iFirst iLimit s =
        some (.again { i0 := s.i0 + r.size, runs := s.runs ++ [r] }) ∧
      Taken minRunSize c n iFirst iLimit s.i0 r := by
  have inside : Inside c n s.i0 := ⟨is, after, by omega⟩
  obtain ⟨best, ended, plain⟩ := lcs_plain referenced positive inside room iFirst iLimit
  rw [oneTextTurn, if_pos room, ended]
  by_cases none_ : best.sizeBest = 0
  · refine Or.inl ⟨by simp [none_], fun m j size shared => ?_⟩
    by_contra enough
    have := plain.longest m j size shared (by omega)
    omega
  · refine Or.inr ⟨⟨n, s.i0, best.txBest, best.iBest, best.sizeBest⟩, by simp [none_], ?_⟩
    have enough : minRunSize ≤ best.sizeBest := plain.none_.resolve_left none_
    refine ⟨rfl, rfl, enough, plain.found none_, fun m j size shared => ?_, plain.first none_⟩
    by_cases long : minRunSize ≤ size
    · exact plain.longest m j size shared long
    · exact Nat.le_trans (Nat.le_of_not_le long) enough

include referenced positive in
theorem compareOneText_scan {n : Nat} (is : n < c.texts.length) (first limit : Nat) :
    ∃ runs, compareOneText minRunSize c references n first limit = some (.ok runs) ∧
      ScannedFrom minRunSize c n (c.text first).txStart (c.text (limit - 1)).txLimit
        (c.text n).txStart runs := by
  generalize iFirst_eq : (c.text first).txStart = iFirst
  generalize iLimit_eq : (c.text (limit - 1)).txLimit = iLimit
  have within := Corpus.text_within is
  have progress : ∃ r, compareOneText minRunSize c references n first limit = some r ∧
      ∃ runs, r = .ok runs ∧
        ScannedFrom minRunSize c n iFirst iLimit (c.text n).txStart runs := by
    rw [compareOneText, iFirst_eq, iLimit_eq]
    -- whatever the rest of the scan reports, what has been reported goes before it
    refine run_of_progress
      (fun s => (c.text n).txStart ≤ s.i0 ∧ s.i0 ≤ c.length ∧ ∀ rs,
        ScannedFrom minRunSize c n iFirst iLimit s.i0 rs →
          ScannedFrom minRunSize c n iFirst iLimit (c.text n).txStart (s.runs ++ rs))
      _ (fun s => c.length - s.i0) (fun s held => ?_) ?_ ?_
    · obtain ⟨after, before, scanned⟩ := held
      by_cases room : s.i0 + minRunSize ≤ (c.text n).txLimit
      · rcases oneTextTurn_cases referenced positive is iFirst iLimit after room with
          ⟨turn, left⟩ | ⟨r, turn, taken⟩
        · exact Or.inr ⟨_, turn, ⟨by simp only; omega, by simp only; omega, fun rs rest =>
            scanned rs (.skip left rest)⟩, by simp only; omega⟩
        · have enough := taken.enough
          have inside := taken.shared.common.inside0
          refine Or.inr ⟨_, turn, ⟨by simp only; omega, by simp only; omega, fun rs rest => ?_⟩,
            by simp only; omega⟩
          rw [List.append_assoc]
          exact scanned (r :: rs) (.take taken rest)
      · refine Or.inl ⟨_, by rw [oneTextTurn, if_neg room], s.runs, rfl, ?_⟩
        have ended := scanned [] (.stop (by omega))
        rwa [List.append_nil] at ended
    · exact ⟨Nat.le_refl _, Nat.le_trans (Corpus.text_ordered is) within, fun rs rest => rest⟩
    · omega
  obtain ⟨r, ended, runs, rfl, scanned⟩ := progress
  exact ⟨runs, ended, scanned⟩

variable {n iFirst iLimit i : Nat} {rs rs' : List Run}

theorem ends_mono (j p : Nat) (le : j ≤ p) (ended : (c.text n).txLimit < j + minRunSize) :
    (c.text n).txLimit < p + minRunSize := by omega

theorem Taken.i0_eq (j : Nat) (r : Run) (taken : Taken minRunSize c n iFirst iLimit j r) :
    r.i0 = j := taken.i0

theorem Taken.stays (j : Nat) (r : Run) (taken : Taken minRunSize c n iFirst iLimit j r) :
    j + r.size ≤ (c.text n).txLimit := taken.shared.common.inside0

theorem Taken.not_left (j : Nat) (r : Run)
    (taken : Taken minRunSize c n iFirst iLimit j r) : ¬ Left minRunSize c n iFirst iLimit j := by
  intro left
  have := left _ _ _ taken.shared
  have := taken.enough
  omega

theorem Taken.not_ended (j : Nat) (r : Run) (taken : Taken minRunSize c n iFirst iLimit j r) :
    ¬ (c.text n).txLimit < j + minRunSize := by
  have := taken.stays
  have := taken.enough
  omega

theorem Taken.unique (j : Nat) (r r' : Run) (taken : Taken minRunSize c n iFirst iLimit j r)
    (taken' : Taken minRunSize c n iFirst iLimit j r') : r = r' := by
  have size_eq : r.size = r'.size :=
    Nat.le_antisymm (taken'.longest _ _ _ taken.shared) (taken.longest _ _ _ taken'.shared)
  have i1_eq : r.i1 = r'.i1 := by
    have shared := taken.shared
    have shared' := taken'.shared
    rw [size_eq] at shared
    rw [← size_eq] at shared'
    have not_lt : ¬ r.i1 < r'.i1 := fun less => taken'.first _ _ less shared
    have not_gt : ¬ r'.i1 < r.i1 := fun less => taken.first _ _ less shared'
    omega
  have txt1_eq : r.txt1 = r'.txt1 :=
    taken.shared.inside.unique (i1_eq ▸ taken'.shared.inside)
  exact Run.ext (taken.txt0.trans taken'.txt0.symm) (taken.i0.trans taken'.i0.symm) txt1_eq i1_eq
    size_eq

/-- There is one result of a scan. -/
theorem scanned_unique
    (scanned : ScannedFrom minRunSize c n iFirst iLimit i rs)
    (scanned' : ScannedFrom minRunSize c n iFirst iLimit i rs') : rs = rs' :=
  scanned.unique scanned' ends_mono Taken.not_ended Taken.not_left Taken.unique

/-- The runs of a scan are apart in their text. -/
theorem scanned_pairwise (scanned : ScannedFrom minRunSize c n iFirst iLimit i rs) :
    rs.Pairwise fun r r' => r.i0 + r.size ≤ r'.i0 :=
  scanned.pairwise Taken.i0_eq

/-- Where `Min_Run_Size` tokens are shared, a run has been reported. -/
theorem scanned_covers (scanned : ScannedFrom minRunSize c n iFirst iLimit i rs) {p m j size : Nat}
    (after : i ≤ p) (shared : Shared c n p iFirst iLimit m j size) (enough : minRunSize ≤ size) :
    ∃ r ∈ rs, r.i0 ≤ p ∧ p < r.i0 + r.size := by
  rcases scanned.covered Taken.i0_eq ends_mono after with covers | left | ended
  · exact covers
  · have := left _ _ _ shared
    omega
  · have := shared.common.inside0
    omega

theorem scanned_sum_le (scanned : ScannedFrom minRunSize c n iFirst iLimit i rs) :
    (rs.map Run.size).sum ≤ (c.text n).txLimit - i :=
  scanned.sum_le Taken.stays

end Scan

/-! ## `Compare_Files` -/

/-- The options `-e`, `-s` and `-S`. -/
structure Options where
  e : Bool
  s : Bool
  S : Bool
  deriving DecidableEq, Repr

/-- The arguments of a call of `compare_one_text`. -/
structure Comparison where
  n : Nat
  first : Nat
  limit : Nat
  deriving DecidableEq, Repr

def firstText (o : Options) (c : Corpus) (n : Nat) : Nat :=
  if o.S then c.numberOfNewTexts + 1 else if o.s then n + 1 else n

def comparisonsOf (o : Options) (c : Corpus) (n : Nat) : List Comparison :=
  if o.e then
    (List.range' (firstText o c n) (c.texts.length - firstText o c n)).map fun m => ⟨n, m, m + 1⟩
  else if firstText o c n < c.texts.length then [⟨n, firstText o c n, c.texts.length⟩]
  else []

/-- The calls of `Compare_Files`, in their order. -/
def comparisons (o : Options) (c : Corpus) : List Comparison :=
  (List.range c.numberOfNewTexts).flatMap (comparisonsOf o c)

section Files

variable (minRunSize : Nat) (c : Corpus) (references : Nat → Nat)

/-- The runs so far, and those of one more call. -/
def addRuns (runs : List Run) (call : Comparison) : ExceptT String Option (List Run) := do
  let more ← ExceptT.mk (compareOneText minRunSize c references call.n call.first call.limit)
  pure (runs ++ more)

/-- `Compare_Files()`. -/
def compareFiles (o : Options) : ExceptT String Option (List Run) :=
  (comparisons o c).foldlM (addRuns minRunSize c references) []

end Files

section Parts

variable {minRunSize : Nat} {c : Corpus} {references : Nat → Nat} {size : Nat}

/-- What one call reports. -/
abbrev Scanned (minRunSize : Nat) (c : Corpus) (call : Comparison) (runs : List Run) : Prop :=
  ScannedFrom minRunSize c call.n (c.text call.first).txStart (c.text (call.limit - 1)).txLimit
    (c.text call.n).txStart runs

structure Proper (o : Options) (c : Corpus) (call : Comparison) : Prop where
  new : call.n < c.numberOfNewTexts
  first : firstText o c call.n ≤ call.first
  order : call.first < call.limit
  limit : call.limit ≤ c.texts.length

theorem mem_comparisons {o : Options} {call : Comparison} (member : call ∈ comparisons o c) :
    Proper o c call := by
  rw [comparisons, List.mem_flatMap] at member
  obtain ⟨n, new, member⟩ := member
  rw [List.mem_range] at new
  rw [comparisonsOf] at member
  split at member
  · rw [List.mem_map] at member
    obtain ⟨m, within, rfl⟩ := member
    rw [List.mem_range'_1] at within
    exact ⟨new, within.1, Nat.lt_succ_self m, by simp only; omega⟩
  · split at member
    · rename_i some_
      rw [List.mem_singleton] at member
      subst member
      exact ⟨new, Nat.le_refl _, some_, Nat.le_refl _⟩
    · cases member

theorem Proper.is {o : Options} {call : Comparison} (proper : Proper o c call) :
    call.n < c.texts.length := Nat.lt_of_lt_of_le proper.new c.new_le

variable (referenced : Referenced minRunSize c references size) (positive : 0 < minRunSize)

theorem foldlM_addRuns {calls : List Comparison} {part : Comparison → List Run}
    (ended : ∀ call ∈ calls, compareOneText minRunSize c references call.n call.first call.limit =
      some (.ok (part call))) (runs : List Run) :
    calls.foldlM (addRuns minRunSize c references) runs = pure (runs ++ calls.flatMap part) := by
  induction calls generalizing runs with
  | nil => simp
  | cons call calls ih =>
      have first : addRuns minRunSize c references runs call = pure (runs ++ part call) := by
        rw [addRuns, ended call List.mem_cons_self]
        rfl
      rw [List.foldlM_cons, first, pure_bind,
        ih (fun call' member => ended call' (List.mem_cons_of_mem _ member)), List.flatMap_cons,
        List.append_assoc]

include referenced positive in
theorem compareFiles_parts (o : Options) :
    ∃ part : Comparison → List Run,
      (∀ call ∈ comparisons o c, Scanned minRunSize c call (part call)) ∧
      compareFiles minRunSize c references o = pure ((comparisons o c).flatMap part) := by
  have scans (call : Comparison) (member : call ∈ comparisons o c) :=
    compareOneText_scan referenced positive (mem_comparisons member).is call.first call.limit
  choose! part ended scanned using scans
  exact ⟨part, scanned, foldlM_addRuns ended []⟩

/-- Two texts that the options ask to compare are compared. -/
theorem exists_comparison {o : Options} {n m : Nat} (new : n < c.numberOfNewTexts)
    (first : firstText o c n ≤ m) (is : m < c.texts.length) :
    ∃ call ∈ comparisons o c, call.n = n ∧ call.first ≤ m ∧ m < call.limit ∧
      (o.e → call = ⟨n, m, m + 1⟩) := by
  simp only [comparisons, List.mem_flatMap, List.mem_range]
  by_cases e : o.e
  · refine ⟨⟨n, m, m + 1⟩, ⟨n, new, ?_⟩, rfl, Nat.le_refl m, Nat.lt_succ_self m, fun _ => rfl⟩
    rw [comparisonsOf, if_pos e]
    exact List.mem_map.2 ⟨m, List.mem_range'_1.2 (by omega), rfl⟩
  · refine ⟨⟨n, firstText o c n, c.texts.length⟩, ⟨n, new, ?_⟩, rfl, first, is, fun e' =>
      absurd e' e⟩
    rw [comparisonsOf, if_neg e, if_pos (by omega)]
    exact List.mem_singleton.2 rfl

/-- A run that `Compare_Files` may report. -/
structure Reported (minRunSize : Nat) (c : Corpus) (o : Options) (r : Run) : Prop where
  new : r.txt0 < c.numberOfNewTexts
  asked : firstText o c r.txt0 ≤ r.txt1
  enough : minRunSize ≤ r.size
  inside0 : Inside c r.txt0 r.i0
  inside1 : Inside c r.txt1 r.i1
  common : Common c.tk (c.text r.txt0).txLimit (c.text r.txt1).txLimit r.i0 r.i1 r.size

include positive in
theorem reported_of_scanned {o : Options} {call : Comparison} (proper : Proper o c call)
    {runs : List Run} (scanned : Scanned minRunSize c call runs) {r : Run} (member : r ∈ runs) :
    Reported minRunSize c o r ∧ r.txt0 = call.n ∧ call.first ≤ r.txt1 ∧ r.txt1 < call.limit := by
  obtain ⟨j, after, taken⟩ := scanned.taken member
  have shared := taken.shared
  have inside1 := shared.inside
  have enough := taken.enough
  have room := taken.stays
  have first : call.first ≤ r.txt1 := by
    by_contra before
    have := Corpus.text_apart (c := c) (show r.txt1 < call.first by omega)
      (Nat.lt_of_lt_of_le proper.order proper.limit)
    have := inside1.before
    have := shared.first
    omega
  have limit : r.txt1 < call.limit := by
    by_contra behind
    have := proper.order
    have := Corpus.text_apart (c := c) (show call.limit - 1 < r.txt1 by omega) inside1.is
    have := inside1.after
    have := shared.limit
    omega
  have inside0 : Inside c call.n j := ⟨proper.is, after, by omega⟩
  refine ⟨⟨?_, ?_, enough, ?_, inside1, ?_⟩, taken.txt0, first, limit⟩
  · rw [taken.txt0]
    exact proper.new
  · rw [taken.txt0]
    exact Nat.le_trans proper.first first
  · rw [taken.txt0, taken.i0]
    exact inside0
  · rw [taken.txt0, taken.i0]
    exact shared.common

include referenced positive in
/-- `Compare_Files` returns, every run it reports is shared by two texts it was asked to
compare, and wherever such texts share `Min_Run_Size` tokens it reports a run there. -/
theorem compareFiles_reports (o : Options) :
    ∃ runs, compareFiles minRunSize c references o = pure runs ∧
      (∀ r ∈ runs, Reported minRunSize c o r) ∧
      ∀ n m p j size, n < c.numberOfNewTexts → firstText o c n ≤ m → Inside c n p →
        Inside c m j → Common c.tk (c.text n).txLimit (c.text m).txLimit p j size →
        minRunSize ≤ size →
        ∃ r ∈ runs, r.txt0 = n ∧ (o.e → r.txt1 = m) ∧ r.i0 ≤ p ∧ p < r.i0 + r.size := by
  obtain ⟨part, scanned, ended⟩ := compareFiles_parts referenced positive o
  refine ⟨_, ended, fun r member => ?_, fun n m p j size new first inside inside' common le => ?_⟩
  · obtain ⟨call, call_mem, member⟩ := List.mem_flatMap.1 member
    exact (reported_of_scanned positive (mem_comparisons call_mem) (scanned call call_mem) member).1
  · obtain ⟨call, member, rfl, from_, to_, separately⟩ := exists_comparison new first inside'.is
    have proper := mem_comparisons member
    have starts : (c.text call.first).txStart ≤ j := by
      rcases Nat.lt_or_eq_of_le from_ with before | same
      · have := Corpus.text_apart before inside'.is
        have := Corpus.text_ordered (c := c) (Nat.lt_of_lt_of_le proper.order proper.limit)
        have := inside'.after
        omega
      · rw [same]
        exact inside'.after
    have stops : j < (c.text (call.limit - 1)).txLimit :=
      Nat.lt_of_lt_of_le inside'.before
        (Corpus.text_limit_mono (by omega) (by have := proper.limit; omega))
    obtain ⟨r, reported, covers⟩ :=
      scanned_covers (scanned call member) inside.after ⟨starts, stops, inside', common⟩ le
    have run := reported_of_scanned positive proper (scanned call member) reported
    refine ⟨r, List.mem_flatMap.2 ⟨call, member, reported⟩, run.2.1, fun e => ?_, covers⟩
    have only := separately e
    have first' := congrArg Comparison.first only
    have limit' := congrArg Comparison.limit only
    simp only at first' limit'
    omega

end Parts

/-! ## Whatever the hash table -/

/-- `Make_Forward_References()` and `Compare_Files()`. -/
def compare (minRunSize : Nat) (tryCalloc : Nat → Bool) (o : Options) (c : Corpus) :
    ExceptT String Option (List Run) := do
  let references ← makeForwardReferences minRunSize c tryCalloc
  compareFiles minRunSize c references o

theorem compare_parts {minRunSize : Nat} (positive : 0 < minRunSize) {c : Corpus}
    {tryCalloc : Nat → Bool} (obtained : (initHashTable tryCalloc c.length).isSome)
    (o : Options) :
    ∃ part : Comparison → List Run,
      (∀ call ∈ comparisons o c, Scanned minRunSize c call (part call)) ∧
      compare minRunSize tryCalloc o c = pure ((comparisons o c).flatMap part) := by
  obtain ⟨size, obtained⟩ := Option.isSome_iff_exists.1 obtained
  obtain ⟨references, made, referenced⟩ := makeForwardReferences_links positive obtained
  obtain ⟨part, scanned, ended⟩ := compareFiles_parts referenced positive o
  exact ⟨part, scanned, by rw [compare, made, pure_bind, ended]⟩

/-- Without memory for the hash table nothing is reported. -/
theorem obtained_of_compare {minRunSize : Nat} {c : Corpus} {tryCalloc : Nat → Bool} {o : Options}
    {runs : List Run} (compared : compare minRunSize tryCalloc o c = pure runs) :
    (initHashTable tryCalloc c.length).isSome := by
  cases table : initHashTable tryCalloc c.length with
  | some size => rfl
  | none =>
      have fails : makeForwardReferences minRunSize c tryCalloc = throw "out of memory" := by
        rw [makeForwardReferences, table]
      rw [compare, fails] at compared
      cases compared

theorem reported_of_compare {minRunSize : Nat} (positive : 0 < minRunSize) {c : Corpus}
    {tryCalloc : Nat → Bool} {o : Options} {runs : List Run}
    (compared : compare minRunSize tryCalloc o c = pure runs) {r : Run} (member : r ∈ runs) :
    Reported minRunSize c o r := by
  obtain ⟨part, scanned, ended⟩ := compare_parts positive (obtained_of_compare compared) o
  rw [compared] at ended
  obtain rfl : runs = (comparisons o c).flatMap part := Except.ok.inj (Option.some.inj ended)
  obtain ⟨call, call_mem, member⟩ := List.mem_flatMap.1 member
  exact (reported_of_scanned positive (mem_comparisons call_mem) (scanned call call_mem) member).1

section Compared

variable {minRunSize : Nat} (positive : 0 < minRunSize) {c : Corpus} {tryCalloc : Nat → Bool}

include positive in
/-- With memory for the hash table every run reported is shared by two texts that are to be
compared, and wherever such texts share `Min_Run_Size` tokens a run is reported. -/
theorem compare_reports (obtained : (initHashTable tryCalloc c.length).isSome) (o : Options) :
    ∃ runs, compare minRunSize tryCalloc o c = pure runs ∧
      (∀ r ∈ runs, Reported minRunSize c o r) ∧
      ∀ n m p j size, n < c.numberOfNewTexts → firstText o c n ≤ m → Inside c n p →
        Inside c m j → Common c.tk (c.text n).txLimit (c.text m).txLimit p j size →
        minRunSize ≤ size →
        ∃ r ∈ runs, r.txt0 = n ∧ (o.e → r.txt1 = m) ∧ r.i0 ≤ p ∧ p < r.i0 + r.size := by
  obtain ⟨size, obtained⟩ := Option.isSome_iff_exists.1 obtained
  obtain ⟨references, made, referenced⟩ := makeForwardReferences_links positive obtained
  obtain ⟨runs, ended, reported⟩ := compareFiles_reports referenced positive o
  exact ⟨runs, by rw [compare, made, pure_bind, ended], reported⟩

theorem Sample.compare_reports_sample : ∃ runs,
    compare 8 (fun _ => true) ⟨true, true, false⟩ Sample.corpus = pure runs ∧
      ∀ r ∈ runs, Reported 8 Sample.corpus ⟨true, true, false⟩ r := by
  obtain ⟨runs, compared, reported, -⟩ := compare_reports (c := Sample.corpus)
    (show 0 < 8 by decide) (initHashTable_isSome (fun _ => rfl) _) ⟨true, true, false⟩
  exact ⟨runs, compared, reported⟩

/-- The calls for one text, or with `-e` for two, are one. -/
theorem pairwise_comparisons (o : Options) (c : Corpus) :
    (comparisons o c).Pairwise fun call call' =>
      call.n = call'.n → o.e ∧ call.first < call'.first := by
  rw [comparisons, List.pairwise_flatMap]
  have same {n : Nat} {call : Comparison} (member : call ∈ comparisonsOf o c n) : call.n = n := by
    rw [comparisonsOf] at member
    split at member
    · obtain ⟨m, -, rfl⟩ := List.mem_map.1 member
      rfl
    · split at member
      · rw [List.mem_singleton] at member
        rw [member]
      · cases member
  constructor
  · intro n _
    rw [comparisonsOf]
    split
    · rename_i e
      exact List.pairwise_map.2
        (List.Pairwise.imp (fun less _ => ⟨e, less⟩) List.pairwise_lt_range')
    · split
      · exact List.pairwise_singleton _ _
      · exact .nil
  · refine List.pairwise_lt_range.imp fun less call here call' there meet => ?_
    rw [same here, same there] at meet
    exact absurd meet (Nat.ne_of_lt less)

include positive in
/-- The runs that are reported for one text, or with `-e` for two, are apart in it and in
order. -/
theorem compare_apart {o : Options} {runs : List Run}
    (compared : compare minRunSize tryCalloc o c = pure runs) :
    runs.Pairwise fun r r' =>
      r.txt0 = r'.txt0 → (o.e → r.txt1 = r'.txt1) → r.i0 + r.size ≤ r'.i0 := by
  obtain ⟨part, scanned, ended⟩ := compare_parts positive (obtained_of_compare compared) o
  rw [compared] at ended
  obtain rfl : runs = (comparisons o c).flatMap part := Except.ok.inj (Option.some.inj ended)
  rw [List.pairwise_flatMap]
  refine ⟨fun call member =>
    (scanned_pairwise (scanned call member)).imp fun apart _ _ => apart, ?_⟩
  refine (pairwise_comparisons o c).imp_of_mem fun {call call'} member member' apart r here r' there
    same same' => ?_
  obtain ⟨-, from_, first, limit⟩ :=
    reported_of_scanned positive (mem_comparisons member) (scanned call member) here
  obtain ⟨-, from_', first', limit'⟩ :=
    reported_of_scanned positive (mem_comparisons member') (scanned call' member') there
  obtain ⟨e, less⟩ := apart (from_.symm.trans (same.trans from_'))
  have alone : call.limit = call.first + 1 := by
    obtain ⟨n, -, inside⟩ := List.mem_flatMap.1 member
    rw [comparisonsOf, if_pos e] at inside
    obtain ⟨m, -, rfl⟩ := List.mem_map.1 inside
    rfl
  have := same' e
  omega

theorem Sample.compare_apart_sample : ∃ runs,
    compare 8 (fun _ => true) ⟨false, false, false⟩ Sample.corpus = pure runs ∧
      runs.Pairwise fun r r' => r.txt0 = r'.txt0 → (false → r.txt1 = r'.txt1) →
        r.i0 + r.size ≤ r'.i0 := by
  obtain ⟨part, -, compared⟩ := compare_parts (c := Sample.corpus) (show 0 < 8 by decide)
    (initHashTable_isSome (fun _ => rfl) _) ⟨false, false, false⟩
  exact ⟨_, compared, compare_apart (by decide) compared⟩

end Compared

theorem compare_unique {minRunSize : Nat} (positive : 0 < minRunSize) {c : Corpus}
    {tryCalloc tryCalloc' : Nat → Bool} (obtained : (initHashTable tryCalloc c.length).isSome)
    (obtained' : (initHashTable tryCalloc' c.length).isSome) (o : Options) :
    compare minRunSize tryCalloc o c = compare minRunSize tryCalloc' o c := by
  obtain ⟨part, scanned, ended⟩ := compare_parts positive obtained o
  obtain ⟨part', scanned', ended'⟩ := compare_parts positive obtained' o
  have same : (comparisons o c).flatMap part = (comparisons o c).flatMap part' :=
    List.flatMap_congr fun call member =>
      scanned_unique (scanned call member) (scanned' call member)
  rw [ended, ended', same]

/-- With memory for any table, and for the smallest only. -/
theorem Sample.compare_unique_sample :
    compare 8 (fun _ => true) ⟨true, true, false⟩ Sample.corpus =
      compare 8 (fun size => size = 14051) ⟨true, true, false⟩ Sample.corpus := by
  have smallest (length : Nat) : (initHashTable (fun size => size = 14051) length).isSome :=
    List.find?_isSome.2 ⟨14051, List.mem_reverse.2 List.mem_cons_self, rfl⟩
  exact compare_unique (by decide) (initHashTable_isSome (fun _ => rfl) _) (smallest _) _

end RunServer.Sim
