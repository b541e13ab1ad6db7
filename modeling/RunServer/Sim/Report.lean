/-
# Sim.Report -- what `sim_text -p -e -s` says of two files

`sim.sh` calls `sim_text` with the submission and one other program, and takes the fourth
field of the lines that begin with the name of the submission.  The options compare the
first file to the second, once and in one direction; so the runs are apart in the
submission, and their sum is the match the line is about.

* `total_of_order`, `earlier_uncut`: of two files the match of the earlier one is the sum of one
  scan, so there is no more of it than of the file;
* `simText_line`: which lines there are about the submission, and with which percentage;
* `copied`: a submission of 8 tokens or more that are in the other program one behind the other is
  reported with 100;
* `blocks_of_percentage`: more than 50 says that more than half of its tokens lie in blocks of
  at least 8 which are also in the other program.
-/
import RunServer.Sim.Percentages

namespace RunServer.Sim

open RunServer.Theory.Greedy

set_option autoImplicit false

/-! ## The options -/

/-- `-p` sets `-e` and `-s`. -/
def optionsP : Options where
  e := true
  s := true
  S := false

/-- `Min_Run_Size` and `Threshold_Percentage` of `sim_text`, without `-r` and `-t`. -/
def textMinRunSize : Nat := 8

def textThreshold : ℤ := 20

/-- `sim_text -p -e -s argv`. -/
def simText (tryCalloc : Nat → Bool) (argv : List Arg) : ExceptT String Option (List Line) := do
  let runs ← compare textMinRunSize tryCalloc optionsP (readInputFiles argv)
  pure (showPercentages false textThreshold (tally (readInputFiles argv) runs))

/-! ## One scan for two files -/

section OneDirection

variable {minRunSize : Nat} {c : Corpus} {part : Comparison → List Run}

theorem mem_comparisons_p {call : Comparison} : call ∈ comparisons optionsP c ↔
    call.n < c.numberOfNewTexts ∧ call.n < call.first ∧ call.first < c.texts.length ∧
      call.limit = call.first + 1 := by
  have of (n : Nat) : comparisonsOf optionsP c n =
      (List.range' (n + 1) (c.texts.length - (n + 1))).map fun m => ⟨n, m, m + 1⟩ := rfl
  simp only [comparisons, of, List.mem_flatMap, List.mem_range, List.mem_map, List.mem_range'_1]
  constructor
  · rintro ⟨n, new, m, within, rfl⟩
    exact ⟨new, by simp only; omega, by simp only; omega, rfl⟩
  · rintro ⟨new, later, is, limit⟩
    exact ⟨call.n, new, call.first, by omega, by rw [← limit]⟩

theorem nodup_comparisons_p : (comparisons optionsP c).Nodup := by
  have of (n : Nat) : comparisonsOf optionsP c n =
      (List.range' (n + 1) (c.texts.length - (n + 1))).map fun m => ⟨n, m, m + 1⟩ := rfl
  rw [comparisons, List.Nodup, List.pairwise_flatMap]
  constructor
  · intro n _
    rw [of, List.pairwise_map]
    refine List.Pairwise.imp (fun less same => ?_) List.pairwise_lt_range'
    have := congrArg Comparison.first same
    simp only at this
    omega
  · refine List.pairwise_lt_range.imp fun less x here y there same => ?_
    rw [of, List.mem_map] at here there
    obtain ⟨_, _, rfl⟩ := here
    obtain ⟨_, _, rfl⟩ := there
    have := congrArg Comparison.n same
    simp only at this
    omega

/-- Of the parts of a list without repetition, one is picked. -/
theorem flatMap_pick {α β : Type} [DecidableEq α] {l : List α} (nodup : l.Nodup) {a : α}
    (member : a ∈ l) (f : α → List β) :
    (l.flatMap fun x => if x = a then f x else []) = f a := by
  induction l with
  | nil => cases member
  | cons b l ih =>
      rw [List.nodup_cons] at nodup
      rw [List.flatMap_cons]
      rcases List.mem_cons.1 member with rfl | member
      · have rest : (l.flatMap fun x => if x = a then f x else []) = [] := by
          refine List.flatMap_eq_nil_iff.2 fun x inside => if_neg fun same => ?_
          exact nodup.1 (same ▸ inside)
        rw [if_pos rfl, rest, List.append_nil]
      · have other : b ≠ a := fun same => nodup.1 (same ▸ member)
        rw [if_neg other, List.nil_append, ih nodup.2 member]

variable (positive : 0 < minRunSize)
  (scanned : ∀ call ∈ comparisons optionsP c, Scanned minRunSize c call (part call))

include positive scanned in
/-- The runs between two files are those of the one comparison of the earlier with the later. -/
theorem filter_between {f0 f1 : Nat} (order : f0 < f1) (new : f0 < c.numberOfNewTexts)
    (is : f1 < c.texts.length) :
    ((comparisons optionsP c).flatMap part).filter (between f0 f1) =
      part ⟨f0, f1, f1 + 1⟩ := by
  have member : (⟨f0, f1, f1 + 1⟩ : Comparison) ∈ comparisons optionsP c :=
    mem_comparisons_p.2 ⟨new, order, is, rfl⟩
  rw [← flatMap_pick nodup_comparisons_p member part, List.filter_flatMap]
  refine List.flatMap_congr fun call inside => ?_
  obtain ⟨-, later, -, limit⟩ := mem_comparisons_p.1 inside
  have run {r : Run} (reported : r ∈ part call) : r.txt0 = call.n ∧ r.txt1 = call.first := by
    have found :=
      reported_of_scanned positive (mem_comparisons inside) (scanned call inside) reported
    exact ⟨found.2.1, by omega⟩
  by_cases same : call = ⟨f0, f1, f1 + 1⟩
  · rw [if_pos same, List.filter_eq_self]
    intro r reported
    obtain ⟨from_, to_⟩ := run reported
    simp [between, from_, to_, same]
  · rw [if_neg same, List.filter_eq_nil_iff]
    intro r reported
    obtain ⟨from_, to_⟩ := run reported
    simp only [between, decide_eq_true_eq, from_, to_]
    rintro (⟨rfl, rfl⟩ | ⟨rfl, rfl⟩)
    · exact same (by rw [← limit])
    · omega

include positive scanned in
theorem total_of_order {f0 f1 : Nat} (order : f0 < f1) (new : f0 < c.numberOfNewTexts)
    (is : f1 < c.texts.length) :
    total f0 f1 ((comparisons optionsP c).flatMap part) =
      ((part ⟨f0, f1, f1 + 1⟩).map Run.size).sum := by
  rw [total, filter_between positive scanned order new is]

include positive scanned in
/-- The match of an earlier file is no longer than the file. -/
theorem total_le {f0 f1 : Nat} (order : f0 < f1) (new : f0 < c.numberOfNewTexts)
    (is : f1 < c.texts.length) :
    total f0 f1 ((comparisons optionsP c).flatMap part) ≤
      (c.text f0).txLimit - (c.text f0).txStart := by
  rw [total_of_order positive scanned order new is]
  have whole : Scanned minRunSize c ⟨f0, f1, f1 + 1⟩ (part ⟨f0, f1, f1 + 1⟩) :=
    scanned _ (mem_comparisons_p.2 ⟨new, order, is, rfl⟩)
  exact scanned_sum_le whole

end OneDirection

/-! ## The lines about a file -/

/-- `grep ^"$FILE" | awk '{print $4}'`, and `none` where `[ ! -z $sim ]` does not hold; with
more than one line the test is an error. -/
def simOf (lines : List Line) : Option ℤ :=
  match (lines.filter fun line => line.fname0 = 0).map Line.mp with
  | [sim] => some sim
  | _ => none

theorem showPercentages_perm (threshold : ℤ) (ms : List Match) :
    (showPercentages false threshold ms).Perm (ms.flatMap (printPercInfo threshold)) := by
  obtain ⟨gs, ordered, printed⟩ := showPercentages_order false threshold ms
  have whole : shown false = id := rfl
  rw [printed, List.flatMap_def (f := shown false), whole, List.map_id]
  exact ordered.perm.flatMap_right _

theorem filter_eq_lookup {ms : List Match} (nodup : (ms.map Match.key).Nodup)
    (only : ∀ m ∈ ms, m.maFname0 = 0 → m.maFname1 = 1) :
    ms.filter (fun m => m.maFname0 = 0) = (lookup 0 1 ms).toList := by
  induction ms with
  | nil => rfl
  | cons m ms ih =>
      rw [List.map_cons, List.nodup_cons] at nodup
      have rest := ih nodup.2 fun m' member => only m' (List.mem_cons_of_mem _ member)
      by_cases first : m.maFname0 = 0
      · have second := only m List.mem_cons_self first
        have none_ : ms.filter (fun m' => m'.maFname0 = 0) = [] := by
          refine List.filter_eq_nil_iff.2 fun m' member zero => nodup.1 ?_
          have zero' : m'.maFname0 = 0 := of_decide_eq_true zero
          have one' := only m' (List.mem_cons_of_mem _ member) zero'
          exact List.mem_map.2 ⟨m', member, Prod.ext (zero'.trans first.symm)
            (one'.trans second.symm)⟩
        simp [lookup, first, second, none_]
      · simpa [lookup, first] using rest

theorem filter_printPercInfo (threshold : ℤ) (m : Match) :
    (printPercInfo threshold m).filter (fun line => line.fname0 = 0) =
      if m.maFname0 = 0 then printPercInfo threshold m else [] := by
  rw [printPercInfo]
  split <;> by_cases zero : m.maFname0 = 0 <;> simp [zero]

/-- What the script reads is the match of the two files, if it reaches the threshold. -/
theorem simOf_showPercentages {threshold : ℤ} {ms : List Match}
    (nodup : (ms.map Match.key).Nodup) (only : ∀ m ∈ ms, m.maFname0 = 0 → m.maFname1 = 1) :
    simOf (showPercentages false threshold ms) =
      (lookup 0 1 ms).bind fun m =>
        if threshold ≤ percentage m then some (percentage m) else none := by
  have about : ((showPercentages false threshold ms).filter fun line => line.fname0 = 0).Perm
      ((lookup 0 1 ms).toList.flatMap (printPercInfo threshold)) := by
    have lines := (showPercentages_perm threshold ms).filter fun line => line.fname0 = 0
    rw [List.filter_flatMap] at lines
    rw [← filter_eq_lookup nodup only]
    refine lines.trans (List.Perm.of_eq ?_)
    simp only [filter_printPercInfo]
    clear lines nodup only
    induction ms with
    | nil => rfl
    | cons m ms ih => by_cases zero : m.maFname0 = 0 <;> simp [zero, ih]
  cases found : lookup 0 1 ms with
  | none =>
      rw [found] at about
      have empty := List.perm_nil.1 about
      rw [simOf, empty]
      rfl
  | some m =>
      rw [found, Option.toList_some, List.flatMap_singleton] at about
      rw [simOf, Option.bind_some]
      by_cases reaches : threshold ≤ percentage m
      · rw [printPercInfo, if_pos reaches, List.perm_singleton] at about
        rw [about, if_pos reaches]
        rfl
      · rw [printPercInfo, if_neg reaches, List.perm_nil] at about
        rw [about, if_neg reaches]
        rfl

/-! ## Two files -/

section TwoFiles

variable (a b : List UInt8)

abbrev two : Corpus := readInputFiles [.file a, .file b]

/-- `n` tokens of the first file from `s` on are those of the second from `j` on. -/
structure Block (wa wb : List Token) (s j n : Nat) : Prop where
  inside : s + n ≤ wa.length
  inside' : j + n ≤ wb.length
  same : (wa.drop s).take n = (wb.drop j).take n

theorem two_length : (two a b).texts.length = 2 := pass1_length _

theorem two_new : (two a b).numberOfNewTexts = 2 := rfl

theorem two_bounds0 : ((two a b).text 0).txStart = 1 ∧
    ((two a b).text 0).txLimit = 1 + (words a).length := by
  have bounds := readInputFiles_bounds [] [.file b] (.file a)
  simp only [Text.bounds, Prod.mk.injEq] at bounds
  simpa [Arg.words] using bounds

theorem two_bounds1 : ((two a b).text 1).txStart = 1 + (words a).length ∧
    ((two a b).text 1).txLimit = 1 + (words a).length + (words b).length := by
  have bounds := readInputFiles_bounds [.file a] [] (.file b)
  simp only [Text.bounds, Prod.mk.injEq] at bounds
  simpa [Arg.words] using bounds

theorem two_tk0 {i : Nat} (is : i < (words a).length) :
    (words a)[i]? = some ((two a b).tk (1 + i)) := by
  have tokens : (two a b).tokens 0 = words a := readInputFiles_tokens [] [.file b] (.file a)
  have bounds := two_bounds0 a b
  rw [← tokens, Corpus.getElem?_tokens (by rw [two_length]; decide) (by omega), bounds.1]

theorem two_tk1 {i : Nat} (is : i < (words b).length) :
    (words b)[i]? = some ((two a b).tk (1 + (words a).length + i)) := by
  have tokens : (two a b).tokens 1 = words b := readInputFiles_tokens [.file a] [] (.file b)
  have bounds := two_bounds1 a b
  rw [← tokens, Corpus.getElem?_tokens (by rw [two_length]; decide) (by omega), bounds.1]

variable {a b}

/-- A run in the array is a block of tokens. -/
theorem common_iff {s j n : Nat} :
    Common (two a b).tk ((two a b).text 0).txLimit ((two a b).text 1).txLimit (1 + s)
      (1 + (words a).length + j) n ↔ Block (words a) (words b) s j n := by
  rw [(two_bounds0 a b).2, (two_bounds1 a b).2]
  constructor
  · intro common
    have inside0 := common.inside0
    have inside1 := common.inside1
    refine ⟨by omega, by omega, List.ext_getElem? fun k => ?_⟩
    by_cases less : k < n
    · have agree := common.agree k less
      rw [List.getElem?_take_of_lt less, List.getElem?_take_of_lt less, List.getElem?_drop,
        List.getElem?_drop, two_tk0 a b (by omega), two_tk1 a b (by omega), ← Nat.add_assoc,
        agree, Nat.add_assoc (1 + (words a).length)]
    · rw [List.getElem?_take_eq_none (by omega), List.getElem?_take_eq_none (by omega)]
  · intro block
    have inside := block.inside
    have inside' := block.inside'
    refine ⟨by omega, by omega, by omega, fun k less => ?_⟩
    have at_ := congrArg (·[k]?) block.same
    simp only [List.getElem?_take_of_lt less, List.getElem?_drop] at at_
    rw [two_tk0 a b (by omega), two_tk1 a b (by omega), Option.some.injEq, ← Nat.add_assoc,
      ← Nat.add_assoc] at at_
    exact at_

/-- The scan of the submission against the other program. -/
abbrev ScannedTwo (a b : List UInt8) (runs : List Run) : Prop :=
  ScannedFrom textMinRunSize (two a b) 0 (1 + (words a).length)
    (1 + (words a).length + (words b).length) 1 runs

def matchTwo (a : List UInt8) (runs : List Run) : Match where
  maFname0 := 0
  maFname1 := 1
  maSize := (runs.map Run.size).sum
  maSize0 := (words a).length

theorem two_comparisons : comparisons optionsP (two a b) = [⟨0, 1, 2⟩] := by
  simp [comparisons, comparisonsOf, firstText, optionsP, two_length, two_new, List.range_succ]

theorem compare_two {tryCalloc : Nat → Bool}
    (obtained : (initHashTable tryCalloc (two a b).length).isSome) :
    ∃ runs, compare textMinRunSize tryCalloc optionsP (two a b) = pure runs ∧ ScannedTwo a b runs ∧
      ∀ r ∈ runs, r.txt0 = 0 ∧ r.txt1 = 1 := by
  obtain ⟨part, scanned, ended⟩ :=
    compare_parts (show 0 < textMinRunSize by decide) obtained optionsP
  have member : (⟨0, 1, 2⟩ : Comparison) ∈ comparisons optionsP (two a b) := by
    rw [two_comparisons]
    exact List.mem_singleton.2 rfl
  have whole := scanned _ member
  refine ⟨part ⟨0, 1, 2⟩, ?_, ?_, fun r reported => ?_⟩
  · rw [ended, two_comparisons, List.flatMap_singleton]
  · have bounds0 := two_bounds0 a b
    have bounds1 := two_bounds1 a b
    simpa only [Scanned, bounds0.1, bounds1.1, bounds1.2] using whole
  · obtain ⟨-, zero, from_, to_⟩ :=
      reported_of_scanned (by decide) (mem_comparisons member) whole reported
    simp only at from_ to_
    exact ⟨zero, by omega⟩

theorem lookup_two {runs : List Run} (between_ : ∀ r ∈ runs, r.txt0 = 0 ∧ r.txt1 = 1) :
    lookup 0 1 (tally (two a b) runs) = if runs ≠ [] then some (matchTwo a runs) else none := by
  have are : ∀ r ∈ runs, r.txt0 < (two a b).texts.length ∧ r.txt1 < (two a b).texts.length := by
    intro r member
    rw [two_length, (between_ r member).1, (between_ r member).2]
    decide
  have hits : ∀ r ∈ runs, between 0 1 r = true := by
    intro r member
    simp [between, between_ r member]
  have bounds := two_bounds0 a b
  rw [lookup_tally (by decide) are]
  cases runs with
  | nil => rfl
  | cons r runs =>
      have some_ : (r :: runs).any (between 0 1) = true := by
        rw [List.any_cons, hits r List.mem_cons_self, Bool.true_or]
      rw [some_, if_pos rfl, if_pos (List.cons_ne_nil r runs), total, List.filter_eq_self.2 hits,
        matchOf, bounds.1, bounds.2, Nat.add_sub_cancel_left]
      rfl

/-- What `sim.sh` reads of `sim_text -p -e -s` for two files. -/
theorem simText_line {tryCalloc : Nat → Bool}
    (obtained : (initHashTable tryCalloc (two a b).length).isSome) :
    ∃ lines runs, simText tryCalloc [.file a, .file b] = pure lines ∧ ScannedTwo a b runs ∧
      simOf lines =
        if runs ≠ [] ∧ textThreshold ≤ percentage (matchTwo a runs) then
          some (percentage (matchTwo a runs))
        else none := by
  obtain ⟨runs, compared, scanned, between_⟩ := compare_two obtained
  have are : ∀ r ∈ runs, r.txt0 < (two a b).texts.length ∧ r.txt1 < (two a b).texts.length := by
    intro r member
    rw [two_length, (between_ r member).1, (between_ r member).2]
    decide
  have only : ∀ m ∈ tally (two a b) runs, m.maFname0 = 0 → m.maFname1 = 1 := by
    intro m member zero
    obtain ⟨r, inside, -, key⟩ := keyed_of_mem_tally are _ (List.mem_map_of_mem member)
    have is := between_ r inside
    simp only [Match.key, Prod.mk.injEq, is.1, is.2, zero] at key
    omega
  refine ⟨_, runs, by rw [simText, compared, pure_bind], scanned, ?_⟩
  rw [simOf_showPercentages (nodup_tally runs) only, lookup_two between_]
  by_cases some_ : runs = [] <;> simp [some_]

/-! ## What the percentage says -/

/-- The token at `i` lies in a block of `n` or more that is in the other file, too. -/
def inBlock (n : Nat) (wa wb : List Token) (i : Nat) : Bool :=
  (List.range (i + 1)).any fun s => (List.range (wb.length + 1)).any fun j =>
    let m := max n (i + 1 - s)
    s + m ≤ wa.length && j + m ≤ wb.length && (wa.drop s).take m == (wb.drop j).take m

theorem Block.mono {wa wb : List Token} {s j m n : Nat} (block : Block wa wb s j n) (le : m ≤ n) :
    Block wa wb s j m where
  inside := by have := block.inside; omega
  inside' := by have := block.inside'; omega
  same := by
    have shorter := congrArg (List.take m) block.same
    rwa [List.take_take, List.take_take, Nat.min_eq_left le] at shorter

theorem inBlock_of_block {wa wb : List Token} {s j n i least : Nat} (block : Block wa wb s j n)
    (enough : least ≤ n) (from_ : s ≤ i) (to_ : i < s + n) : inBlock least wa wb i := by
  have smaller := block.mono (show max least (i + 1 - s) ≤ n by omega)
  have inside := smaller.inside
  have inside' := smaller.inside'
  refine List.any_eq_true.2 ⟨s, List.mem_range.2 (by omega), List.any_eq_true.2
    ⟨j, List.mem_range.2 (by omega), ?_⟩⟩
  simp only [smaller.same, beq_self_eq_true, Bool.and_true, Bool.and_eq_true, decide_eq_true_eq]
  omega

/-- The runs of the scan are blocks of tokens. -/
theorem block_of_taken {i : Nat} {r : Run}
    (taken : Taken textMinRunSize (two a b) 0 (1 + (words a).length)
      (1 + (words a).length + (words b).length) (1 + i) r) :
    Block (words a) (words b) i (r.i1 - (1 + (words a).length)) r.size := by
  have shared := taken.shared
  have bounds := two_bounds1 a b
  have text : r.txt1 = 1 := by
    refine shared.inside.unique ⟨by rw [two_length]; decide, ?_, ?_⟩
    · rw [bounds.1]
      exact shared.first
    · rw [bounds.2]
      exact shared.limit
  have common := shared.common
  rw [text] at common
  have split : r.i1 = 1 + (words a).length + (r.i1 - (1 + (words a).length)) := by
    have := shared.first
    omega
  rw [split] at common
  exact common_iff.1 common

theorem sum_le_inBlock {runs : List Run} (scanned : ScannedTwo a b runs) :
    (runs.map Run.size).sum ≤
      (List.range (words a).length).countP (inBlock textMinRunSize (words a) (words b)) := by
  have positions : List.range' 1 (1 + (words a).length - 1) =
      (List.range (words a).length).map (1 + ·) := by
    rw [Nat.add_sub_cancel_left, List.range_eq_range', List.map_add_range']
  have le : (runs.map Run.size).sum ≤ (List.range' 1 (1 + (words a).length - 1)).countP
      fun p => inBlock textMinRunSize (words a) (words b) (p - 1) := by
    refine scanned.sum_le_countP (fun j r _ taken => ?_) fun j r after taken p from_ to_ => ?_
    · have stays := taken.stays
      rwa [(two_bounds0 a b).2] at stays
    · obtain ⟨i, rfl⟩ : ∃ i, j = 1 + i := ⟨j - 1, by omega⟩
      exact inBlock_of_block (block_of_taken taken) taken.enough (by omega) (by omega)
  rw [positions, List.countP_map] at le
  refine Nat.le_trans le (Nat.le_of_eq (List.countP_congr fun i _ => ?_))
  simp

/-- A submission that is contained in the other program is one run. -/
theorem sum_of_infix {runs : List Run} (scanned : ScannedTwo a b runs)
    (long : textMinRunSize ≤ (words a).length) (contained : words a <:+: words b) :
    runs ≠ [] ∧ (words a).length ≤ (runs.map Run.size).sum := by
  obtain ⟨before, after, eq⟩ := contained
  have length_eq := congrArg List.length eq
  simp only [List.length_append] at length_eq
  have block : Block (words a) (words b) 0 before.length (words a).length := by
    refine ⟨by omega, by omega, ?_⟩
    rw [← eq, List.append_assoc, List.drop_left, List.drop_zero, List.take_left, List.take_length]
  have bounds0 := two_bounds0 a b
  have bounds1 := two_bounds1 a b
  have shared : Shared (two a b) 0 1 (1 + (words a).length)
      (1 + (words a).length + (words b).length) 1 (1 + (words a).length + before.length)
      (words a).length := by
    have some_ : 0 < (words a).length := Nat.lt_of_lt_of_le (by decide) long
    refine ⟨by omega, by omega, ⟨by rw [two_length]; decide, ?_, ?_⟩, common_iff.2 block⟩
    · rw [bounds1.1]
      omega
    · rw [bounds1.2]
      omega
  cases scanned with
  | stop ended =>
      rw [bounds0.2] at ended
      omega
  | skip left _ =>
      have := left _ _ _ shared
      omega
  | take taken _ =>
      have longest := taken.longest _ _ _ shared
      refine ⟨List.cons_ne_nil _ _, ?_⟩
      rw [List.map_cons, List.sum_cons]
      omega

variable {tryCalloc : Nat → Bool}

/-- A submission of `Min_Run_Size` tokens or more that the other program contains is reported with
100 per cent. -/
theorem copied (obtained : (initHashTable tryCalloc (two a b).length).isSome)
    (long : textMinRunSize ≤ (words a).length) (contained : words a <:+: words b) :
    ∃ lines, simText tryCalloc [.file a, .file b] = pure lines ∧ simOf lines = some 100 := by
  obtain ⟨lines, runs, ended, scanned, reads⟩ := simText_line obtained
  obtain ⟨some_, all⟩ := sum_of_infix scanned long contained
  have whole := (sum_le_inBlock scanned).trans (List.countP_le_length.trans_eq List.length_range)
  have full : percentage (matchTwo a runs) = 100 :=
    percentage_eq_100 (Match.fits_of_le (Nat.lt_of_lt_of_le (by decide) long) whole) all
  refine ⟨lines, ended, ?_⟩
  rw [reads, full, if_pos ⟨some_, by decide⟩]

namespace Sample

theorem contained_lines : textMinRunSize ≤ (words (lines 8)).length ∧
    words (lines 8) <:+: words (lines 9) := by
  rw [words_lines, words_lines]
  exact ⟨by rw [List.length_replicate]; decide, ⟨[], [word2token [97, 98]], rfl⟩⟩

end Sample

example : ∃ lines, simText (fun _ => true) [.file (Sample.lines 8), .file (Sample.lines 9)] =
    pure lines ∧ simOf lines = some 100 :=
  copied (initHashTable_isSome (fun _ => rfl) _) Sample.contained_lines.1 Sample.contained_lines.2

/-- Where more than 50 per cent are reported, more than half of the tokens of the submission lie in
blocks of `Min_Run_Size` or more that the other program has, too. -/
theorem blocks_of_percentage {lines : List Line}
    (ended : simText tryCalloc [.file a, .file b] = pure lines) {sim : ℤ}
    (read : simOf lines = some sim) (above : 50 < sim) :
    (words a).length <
      2 * (List.range (words a).length).countP (inBlock textMinRunSize (words a) (words b)) := by
  obtain ⟨found, compared⟩ : ∃ found, compare textMinRunSize tryCalloc optionsP (two a b) =
      pure found := by
    rw [simText] at ended
    cases compared : compare textMinRunSize tryCalloc optionsP (two a b) with
    | none =>
        rw [compared] at ended
        cases ended
    | some result =>
        cases result with
        | error message =>
            rw [compared] at ended
            cases ended
        | ok found => exact ⟨found, rfl⟩
  obtain ⟨lines', runs, ended', scanned, reads⟩ := simText_line (obtained_of_compare compared)
  have same : lines = lines' := by
    rw [ended] at ended'
    exact Except.ok.inj (Option.some.inj ended')
  subst same
  rw [read] at reads
  split at reads
  · rename_i shown
    have is := Option.some.inj reads
    have some_ : 0 < (words a).length := by
      obtain ⟨r, rest, rfl⟩ := List.exists_cons_of_ne_nil shown.1
      obtain ⟨j, after, taken⟩ := scanned.taken List.mem_cons_self
      have stays := taken.stays
      rw [(two_bounds0 a b).2] at stays
      have enough := taken.enough
      have least : 0 < textMinRunSize := by decide
      omega
    have half := half_of_percentage (m := matchTwo a runs) some_ (is ▸ above)
    have le := sum_le_inBlock scanned
    simp only [matchTwo] at half
    omega
  · cases reads

end TwoFiles

/-! ## What is not cut -/

/-- No more is found of an earlier file than there is, so its percentage is not cut. -/
theorem earlier_uncut {minRunSize : Nat} (positive : 0 < minRunSize) {c : Corpus}
    {tryCalloc : Nat → Bool} {runs : List Run}
    (compared : compare minRunSize tryCalloc optionsP c = pure runs) {m : Match}
    (member : m ∈ tally c runs) (earlier : m.maFname0 < m.maFname1) :
    m.maSize ≤ m.maSize0 ∧ percentage m = ⌊matchPercentage m * 100⌋ := by
  obtain ⟨part, scanned, ended⟩ := compare_parts positive (obtained_of_compare compared) optionsP
  have reported (r : Run) (inside : r ∈ runs) := reported_of_compare positive compared inside
  rw [compared] at ended
  obtain rfl : runs = (comparisons optionsP c).flatMap part :=
    Except.ok.inj (Option.some.inj ended)
  have are := fun r inside =>
    And.intro (reported r inside).inside0.is (reported r inside).inside1.is
  obtain ⟨r, inside, -, key⟩ := keyed_of_mem_tally are _ (List.mem_map_of_mem member)
  have found := lookup_of_mem (nodup_tally _) member
  rw [lookup_tally (Nat.ne_of_lt earlier) are] at found
  split at found
  · have asked : r.txt0 + 1 ≤ r.txt1 := (reported r inside).asked
    simp only [Match.key, Prod.mk.injEq] at key
    have zero : m.maFname0 = r.txt0 := by omega
    have one : m.maFname1 = r.txt1 := by omega
    have new := (reported r inside).new
    have le := total_le positive scanned earlier (zero ▸ new) (one ▸ (are r inside).2)
    have size := congrArg Match.maSize (Option.some.inj found)
    have size0 := congrArg Match.maSize0 (Option.some.inj found)
    simp only [matchOf] at size size0
    have some_ : 0 < m.maSize0 := by
      have after := (reported r inside).inside0.after
      have before := (reported r inside).inside0.before
      rw [← zero] at after before
      omega
    have fits : m.maSize ≤ m.maSize0 := by omega
    exact ⟨fits, percentage_of_le some_ fits⟩
  · cases found

namespace Sample

theorem runs_two : ∃ r runs,
    compare textMinRunSize (fun _ => true) optionsP (two (lines 8) (lines 9)) =
        pure (r :: runs) ∧
      ∀ r' ∈ r :: runs, r'.txt0 = 0 ∧ r'.txt1 = 1 := by
  obtain ⟨runs, compared, scanned, between_⟩ :=
    compare_two (a := lines 8) (b := lines 9) (initHashTable_isSome (fun _ => rfl) _)
  obtain ⟨some_, -⟩ := sum_of_infix scanned contained_lines.1 contained_lines.2
  obtain ⟨r, rest, rfl⟩ := List.exists_cons_of_ne_nil some_
  exact ⟨r, rest, compared, between_⟩

theorem earlier_uncut_sample : ∃ runs m, m ∈ tally (two (lines 8) (lines 9)) runs ∧
    m.maSize ≤ m.maSize0 ∧ percentage m = ⌊matchPercentage m * 100⌋ := by
  obtain ⟨r, runs, compared, between_⟩ := runs_two
  have found := lookup_two (a := lines 8) (b := lines 9) between_
  rw [if_pos (List.cons_ne_nil r runs)] at found
  have member := List.mem_of_find?_eq_some found
  exact ⟨r :: runs, _, member, earlier_uncut (by decide) compared member Nat.one_pos⟩

end Sample

end RunServer.Sim
