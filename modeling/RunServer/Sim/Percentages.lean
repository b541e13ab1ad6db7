/-
# Sim.Percentages -- how much of a file is found in another

With `-p` the runs are not kept: `add_run` adds the size of each to the match of its two
files, in both directions.  The matches are sorted by percentage, and printed file by
file, the highest one first.  A percentage is the quotient of two floats, a float itself,
times 100 and cut; the product is exact in double precision.  Overlapping runs can make it
more than an `int` holds, and then the conversion comes before the cut at 100.

* `lookup_tally`: a match holds the sum of the runs between its files;
* `percentage_eq`: what is printed, where the quotient `Fits`;
* `percentage_of_le`, `percentage_eq_100_iff`, `half_of_percentage`: what the floats do to it;
* `tally_symm`: it is that of both files alike;
* `showPercentages_grouped`: what the source wants of the order of the lines.
-/
import Mathlib.Tactic.NormNum
import RunServer.Sim.Runs
import RunServer.Theory.Nearest
import RunServer.Theory.Ranking

namespace RunServer.Sim

open RunServer.Theory.Nearest
open RunServer.Theory.Ranking

set_option autoImplicit false

/-- `struct match`: so many tokens of file 0 have been found in file 1, of so many. -/
structure Match where
  maFname0 : Nat
  maFname1 : Nat
  maSize : Nat
  maSize0 : Nat
  deriving DecidableEq, Repr

/-! ## The match list -/

section Tally

variable (c : Corpus)

/-- `do_add_to_precentages`. -/
def doAddToPercentages (text0 text1 size : Nat) : List Match → List Match
  | [] => [{
      maFname0 := (c.text text0).txFname
      maFname1 := (c.text text1).txFname
      maSize := size
      maSize0 := (c.text text0).txLimit - (c.text text0).txStart }]
  | m :: ms =>
      if m.maFname0 = (c.text text0).txFname ∧ m.maFname1 = (c.text text1).txFname then
        { m with maSize := m.maSize + size } :: ms
      else m :: doAddToPercentages text0 text1 size ms

/-- Percentages are only meaningful between different files. -/
def addToPercentages (ms : List Match) (r : Run) : List Match :=
  if r.txt0 = r.txt1 then ms
  else doAddToPercentages c r.txt1 r.txt0 r.size (doAddToPercentages c r.txt0 r.txt1 r.size ms)

def tally (runs : List Run) : List Match := runs.foldl (addToPercentages c) []

def lookup (f0 f1 : Nat) (ms : List Match) : Option Match :=
  ms.find? fun m => m.maFname0 = f0 ∧ m.maFname1 = f1

def between (f0 f1 : Nat) (r : Run) : Bool :=
  (r.txt0 = f0 ∧ r.txt1 = f1) ∨ (r.txt0 = f1 ∧ r.txt1 = f0)

/-- The tokens in the runs between two files. -/
def total (f0 f1 : Nat) (runs : List Run) : Nat :=
  ((runs.filter (between f0 f1)).map Run.size).sum

/-- The match of two files, when so many tokens have been found. -/
def matchOf (f0 f1 size : Nat) : Match where
  maFname0 := f0
  maFname1 := f1
  maSize := size
  maSize0 := (c.text f0).txLimit - (c.text f0).txStart

variable {c} {f0 f1 t0 t1 : Nat}

theorem lookup_doAdd_of_ne (size : Nat) (ms : List Match)
    (ne : ¬((c.text t0).txFname = f0 ∧ (c.text t1).txFname = f1)) :
    lookup f0 f1 (doAddToPercentages c t0 t1 size ms) = lookup f0 f1 ms := by
  induction ms with
  | nil => simpa [lookup, doAddToPercentages] using ne
  | cons m ms ih =>
      rw [doAddToPercentages]
      split
      · rename_i found
        have other : ¬(m.maFname0 = f0 ∧ m.maFname1 = f1) := by
          rwa [found.1, found.2]
        simp [lookup, other]
      · simp only [lookup, List.find?_cons] at ih ⊢
        rw [ih]

theorem lookup_doAdd_self (named0 : (c.text t0).txFname = t0) (named1 : (c.text t1).txFname = t1)
    (size : Nat) (ms : List Match) :
    lookup t0 t1 (doAddToPercentages c t0 t1 size ms) =
      some ((lookup t0 t1 ms).elim (matchOf c t0 t1 size) fun m =>
        { m with maSize := m.maSize + size }) := by
  induction ms with
  | nil => simp [lookup, doAddToPercentages, named0, named1, matchOf]
  | cons m ms ih =>
      rw [doAddToPercentages, named0, named1]
      by_cases found : m.maFname0 = t0 ∧ m.maFname1 = t1
      · simp [lookup, found]
      · simp only [lookup, List.find?_cons, found, if_false, decide_false] at ih ⊢
        exact ih

/-- A run between the two files goes to their match, in whichever direction it was found. -/
theorem lookup_addToPercentages (differ : f0 ≠ f1) {r : Run} (is0 : r.txt0 < c.texts.length)
    (is1 : r.txt1 < c.texts.length) (ms : List Match) :
    lookup f0 f1 (addToPercentages c ms r) =
      if between f0 f1 r then
        some ((lookup f0 f1 ms).elim (matchOf c f0 f1 r.size) fun m =>
          { m with maSize := m.maSize + r.size })
      else lookup f0 f1 ms := by
  have named0 := Corpus.text_named is0
  have named1 := Corpus.text_named is1
  rw [addToPercentages]
  by_cases own : r.txt0 = r.txt1
  · have apart : between f0 f1 r = false := by
      simp only [between, decide_eq_false_iff_not, own]
      omega
    simp [own, apart]
  rw [if_neg own]
  by_cases there : r.txt0 = f0 ∧ r.txt1 = f1
  · obtain ⟨rfl, rfl⟩ := there
    have hits : between r.txt0 r.txt1 r = true := by simp [between]
    rw [lookup_doAdd_of_ne _ _ (by rw [named0, named1]; omega),
      lookup_doAdd_self named0 named1, hits, if_pos rfl]
  by_cases back : r.txt1 = f0 ∧ r.txt0 = f1
  · obtain ⟨rfl, rfl⟩ := back
    have hits : between r.txt1 r.txt0 r = true := by simp [between]
    rw [lookup_doAdd_self named1 named0,
      lookup_doAdd_of_ne _ _ (by rw [named0, named1]; omega), hits, if_pos rfl]
  · have misses : between f0 f1 r = false := by
      simp only [between, decide_eq_false_iff_not]
      omega
    rw [lookup_doAdd_of_ne _ _ (by rw [named0, named1]; exact back),
      lookup_doAdd_of_ne _ _ (by rw [named0, named1]; exact there), misses]
    rfl

theorem total_append (runs : List Run) (r : Run) :
    total f0 f1 (runs ++ [r]) = total f0 f1 runs + if between f0 f1 r then r.size else 0 := by
  cases hits : between f0 f1 r <;> simp [total, List.filter_append, hits]

theorem total_of_none {runs : List Run} (none_ : runs.any (between f0 f1) = false) :
    total f0 f1 runs = 0 := by
  rw [List.any_eq_false] at none_
  rw [total, List.filter_eq_nil_iff.2 none_]
  rfl

theorem lookup_tally (differ : f0 ≠ f1) {runs : List Run}
    (are : ∀ r ∈ runs, r.txt0 < c.texts.length ∧ r.txt1 < c.texts.length) :
    lookup f0 f1 (tally c runs) =
      if runs.any (between f0 f1) then some (matchOf c f0 f1 (total f0 f1 runs)) else none := by
  induction runs using List.reverseRecOn with
  | nil => rfl
  | append_singleton runs r ih =>
      have is := are r (by simp)
      have before := ih fun r' member => are r' (List.mem_append_left _ member)
      rw [tally, List.foldl_append, List.foldl_cons, List.foldl_nil,
        lookup_addToPercentages differ is.1 is.2, ← tally, before, total_append, List.any_append]
      cases hits : between f0 f1 r with
      | false => simp [hits]
      | true =>
          cases any : runs.any (between f0 f1) with
          | false => simp [hits, total_of_none any]
          | true => simp [hits, matchOf]

def Match.key (m : Match) : Nat × Nat := (m.maFname0, m.maFname1)

variable (c t0 t1) in
theorem keys_doAdd (size : Nat) (ms : List Match) :
    (doAddToPercentages c t0 t1 size ms).map Match.key = ms.map Match.key ∨
      ((c.text t0).txFname, (c.text t1).txFname) ∉ ms.map Match.key ∧
      (doAddToPercentages c t0 t1 size ms).map Match.key =
        ms.map Match.key ++ [((c.text t0).txFname, (c.text t1).txFname)] := by
  induction ms with
  | nil => exact Or.inr ⟨List.not_mem_nil, rfl⟩
  | cons m ms ih =>
      rw [doAddToPercentages]
      by_cases found : m.maFname0 = (c.text t0).txFname ∧ m.maFname1 = (c.text t1).txFname
      · rw [if_pos found]
        exact Or.inl rfl
      · rw [if_neg found]
        rcases ih with same | ⟨fresh, longer⟩
        · exact Or.inl (by rw [List.map_cons, same, List.map_cons])
        · refine Or.inr ⟨fun member => ?_, by rw [List.map_cons, longer]; rfl⟩
          rw [List.map_cons, List.mem_cons] at member
          rcases member with here | member
          · exact found ⟨(congrArg Prod.fst here).symm, (congrArg Prod.snd here).symm⟩
          · exact fresh member

theorem nodup_doAdd {ms : List Match} (nodup : (ms.map Match.key).Nodup) (size : Nat) :
    ((doAddToPercentages c t0 t1 size ms).map Match.key).Nodup := by
  rcases keys_doAdd c t0 t1 size ms with same | ⟨fresh, longer⟩
  · rwa [same]
  · rw [longer, ← List.concat_eq_append]
    exact nodup.concat fresh

theorem nodup_tally (runs : List Run) : ((tally c runs).map Match.key).Nodup := by
  induction runs using List.reverseRecOn with
  | nil => exact .nil
  | append_singleton runs r ih =>
      rw [tally, List.foldl_append, List.foldl_cons, List.foldl_nil, ← tally, addToPercentages]
      split
      · exact ih
      · exact nodup_doAdd (nodup_doAdd ih _) _

theorem mem_keys_doAdd {size : Nat} {ms : List Match} {k : Nat × Nat}
    (member : k ∈ (doAddToPercentages c t0 t1 size ms).map Match.key) :
    k ∈ ms.map Match.key ∨ k = ((c.text t0).txFname, (c.text t1).txFname) := by
  rcases keys_doAdd c t0 t1 size ms with same | ⟨-, longer⟩
  · rw [same] at member
    exact Or.inl member
  · rw [longer] at member
    exact (List.mem_append.1 member).imp_right List.mem_singleton.1

def Keyed (runs : List Run) (k : Nat × Nat) : Prop :=
  ∃ r ∈ runs, r.txt0 ≠ r.txt1 ∧ (k = (r.txt0, r.txt1) ∨ k = (r.txt1, r.txt0))

/-- A match is between two files with a run between them. -/
theorem keyed_of_mem_tally {runs : List Run}
    (are : ∀ r ∈ runs, r.txt0 < c.texts.length ∧ r.txt1 < c.texts.length) :
    ∀ k ∈ (tally c runs).map Match.key, Keyed runs k := by
  induction runs using List.reverseRecOn with
  | nil => exact List.forall_mem_nil _
  | append_singleton runs r ih =>
      intro k member
      have is := are r (by simp)
      have old (before : k ∈ (tally c runs).map Match.key) : Keyed (runs ++ [r]) k := by
        obtain ⟨r', inside, rest⟩ :=
          ih (fun r' inside => are r' (List.mem_append_left _ inside)) k before
        exact ⟨r', List.mem_append_left _ inside, rest⟩
      rw [tally, List.foldl_append, List.foldl_cons, List.foldl_nil, ← tally,
        addToPercentages] at member
      split at member
      · exact old member
      · rename_i differ
        have new (key : k = (r.txt0, r.txt1) ∨ k = (r.txt1, r.txt0)) : Keyed (runs ++ [r]) k :=
          ⟨r, by simp, differ, key⟩
        rcases mem_keys_doAdd member with member | back
        · rcases mem_keys_doAdd member with before | there
          · exact old before
          · rw [Corpus.text_named is.1, Corpus.text_named is.2] at there
            exact new (Or.inl there)
        · rw [Corpus.text_named is.1, Corpus.text_named is.2] at back
          exact new (Or.inr back)

/-- As much of one file is found in another as of that in the first. -/
theorem tally_symm {minRunSize : Nat} (positive : 0 < minRunSize) {tryCalloc : Nat → Bool}
    {o : Options} {runs : List Run} (compared : compare minRunSize tryCalloc o c = pure runs)
    (f0 f1 : Nat) :
    (lookup f0 f1 (tally c runs)).map Match.maSize =
      (lookup f1 f0 (tally c runs)).map Match.maSize := by
  have are : ∀ r ∈ runs, r.txt0 < c.texts.length ∧ r.txt1 < c.texts.length := fun r member =>
    have reported := reported_of_compare positive compared member
    ⟨reported.inside0.is, reported.inside1.is⟩
  have same : between f0 f1 = between f1 f0 := by
    funext r
    simp only [between, decide_eq_decide]
    exact Or.comm
  by_cases own : f0 = f1
  · rw [own]
  · rw [lookup_tally own are, lookup_tally (Ne.symm own) are, total, total, same]
    split <;> rfl

theorem Sample.tally_symm_sample : ∃ runs,
    compare 8 (fun _ => true) ⟨true, true, false⟩ Sample.corpus = pure runs ∧
      (lookup 0 1 (tally Sample.corpus runs)).map Match.maSize =
        (lookup 1 0 (tally Sample.corpus runs)).map Match.maSize := by
  obtain ⟨part, -, compared⟩ := compare_parts (c := Sample.corpus) (show 0 < 8 by decide)
    (initHashTable_isSome (fun _ => rfl) _) ⟨true, true, false⟩
  exact ⟨_, compared, tally_symm (by decide) compared 0 1⟩

theorem lookup_of_mem {ms : List Match} (nodup : (ms.map Match.key).Nodup) {m : Match}
    (member : m ∈ ms) : lookup m.maFname0 m.maFname1 ms = some m := by
  induction ms with
  | nil => cases member
  | cons m' ms ih =>
      rw [List.map_cons, List.nodup_cons] at nodup
      rcases List.mem_cons.1 member with rfl | member
      · simp [lookup]
      · have other : ¬(m'.maFname0 = m.maFname0 ∧ m'.maFname1 = m.maFname1) := fun same =>
          nodup.1 (List.mem_map.2 ⟨m, member, Prod.ext same.1.symm same.2.symm⟩)
        simp only [lookup, List.find?_cons, other, decide_false] at ih ⊢
        exact ih nodup.2 member

end Tally

/-! ## Percentages -/

/-- Rounding to a `float`. -/
abbrev float (x : ℚ) : ℚ := toFloat 24 x

/-- `((float)m->ma_size)/((float)m->ma_size0)`. -/
def matchPercentage (m : Match) : ℚ := float (float m.maSize / float m.maSize0)

/-- `(int)` of a `double` that is not negative.  What does not fit is the least `int`, as the
conversion of x86-64 has it. -/
def toInt (x : ℚ) : ℤ := if x < 2 ^ 31 then ⌊x⌋ else -2 ^ 31

/-- What `print_perc_info` prints of it. -/
def percentage (m : Match) : ℤ :=
  let mp := toInt (matchPercentage m * 100)
  if mp > 100 then 100 else mp

/-- The quotient is one, and 100 times as much fits an `int`. -/
structure Match.Fits (m : Match) : Prop where
  some_ : 0 < m.maSize0
  bounded : matchPercentage m * 100 < 2 ^ 31

section Floats

variable {m : Match}

theorem percentage_of_bounded (bounded : matchPercentage m * 100 < 2 ^ 31) :
    percentage m = min ⌊matchPercentage m * 100⌋ 100 := by
  simp only [percentage, toInt, if_pos bounded]
  split <;> omega

/-- The cut quotient, or 100 where overlapping matches exceed that. -/
theorem percentage_eq (fits : m.Fits) : percentage m = min ⌊matchPercentage m * 100⌋ 100 :=
  percentage_of_bounded fits.bounded

theorem float_natCast_mono {a b : Nat} (le : a ≤ b) : float a ≤ float b := by
  rcases Nat.eq_zero_or_pos a with rfl | positive
  · rcases Nat.eq_zero_or_pos b with rfl | positive'
    · exact le_rfl
    · have some_ := toFloat_pos (p := 24) (by norm_num) (Nat.cast_pos.2 positive')
      simpa using some_.le
  · exact toFloat_mono (by norm_num) (Nat.cast_pos.2 positive) (Nat.cast_le.2 le)

theorem float_natCast_pos {a : Nat} (positive : 0 < a) : 0 < float a :=
  toFloat_pos (by norm_num) (Nat.cast_pos.2 positive)

theorem float_fraction {n : Nat} (fits : n ≤ 2 ^ 24) (k : Nat) : float (n / 2 ^ k) = n / 2 ^ k :=
  toFloat_div_two_pow (by norm_num) fits k

/-- A quotient of floats that is not above a float is not rounded to above it. -/
theorem matchPercentage_le (some_ : 0 < m.maSize0) {x : ℚ} (is : float x = x) (nonneg : 0 ≤ x)
    (le : float m.maSize ≤ x * float m.maSize0) : matchPercentage m ≤ x := by
  have positive := float_natCast_pos some_
  rcases Nat.eq_zero_or_pos m.maSize with zero | found
  · simpa [matchPercentage, zero] using nonneg
  · rw [matchPercentage, ← is]
    refine toFloat_mono (by norm_num) (div_pos (float_natCast_pos found) positive) ?_
    rwa [div_le_iff₀ positive]

theorem le_matchPercentage (some_ : 0 < m.maSize0) {x : ℚ} (is : float x = x) (positive : 0 < x)
    (le : x * float m.maSize0 ≤ float m.maSize) : x ≤ matchPercentage m := by
  have positive' := float_natCast_pos some_
  rw [matchPercentage, ← is]
  refine toFloat_mono (by norm_num) positive ?_
  rwa [le_div_iff₀ positive']

theorem float_one : float 1 = 1 := by
  simpa using float_fraction (n := 1) (by norm_num) 0

theorem matchPercentage_le_one (some_ : 0 < m.maSize0) (le : m.maSize ≤ m.maSize0) :
    matchPercentage m ≤ 1 :=
  matchPercentage_le some_ float_one zero_le_one (by simpa using float_natCast_mono le)

theorem Match.fits_of_le (some_ : 0 < m.maSize0) (le : m.maSize ≤ m.maSize0) : m.Fits where
  some_ := some_
  bounded := by
    have below := matchPercentage_le_one some_ le
    linarith

/-- Without overlaps nothing has to be cut off. -/
theorem percentage_of_le (some_ : 0 < m.maSize0) (le : m.maSize ≤ m.maSize0) :
    percentage m = ⌊matchPercentage m * 100⌋ := by
  rw [percentage_eq (Match.fits_of_le some_ le), min_eq_left]
  have below := matchPercentage_le_one some_ le
  rw [Int.floor_le_iff]
  push_cast
  linarith

theorem percentage_eq_100 (fits : m.Fits) (all : m.maSize0 ≤ m.maSize) : percentage m = 100 := by
  have above := le_matchPercentage fits.some_ float_one zero_lt_one
    (by simpa using float_natCast_mono all)
  rw [percentage_eq fits, min_eq_right]
  rw [Int.le_floor]
  push_cast
  linarith

/-- Up to 2^24 tokens, 100 is printed only where all of the file is found. -/
theorem percentage_eq_100_iff (fits : m.Fits) (small : m.maSize0 ≤ 2 ^ 24) :
    percentage m = 100 ↔ m.maSize0 ≤ m.maSize := by
  refine ⟨fun full => ?_, percentage_eq_100 fits⟩
  by_contra less
  have sizes : float m.maSize = m.maSize ∧ float m.maSize0 = m.maSize0 :=
    ⟨toFloat_natCast (by norm_num) (by omega), toFloat_natCast (by norm_num) small⟩
  have scaled : m.maSize * 2 ^ 24 ≤ (2 ^ 24 - 1) * m.maSize0 := by omega
  have below : matchPercentage m ≤ ((2 ^ 24 - 1 : Nat) : ℚ) / 2 ^ 24 := by
    refine matchPercentage_le fits.some_ (float_fraction (by norm_num) 24) (by positivity) ?_
    rw [sizes.1, sizes.2, div_mul_eq_mul_div, le_div_iff₀ (by norm_num)]
    exact_mod_cast scaled
  have floor : ⌊matchPercentage m * 100⌋ < 100 := by
    rw [Int.floor_lt]
    push_cast at below ⊢
    linarith
  rw [percentage_eq fits] at full
  omega

theorem Sample.percentage_eq_100_iff_sample :
    percentage { maFname0 := 0, maFname1 := 1, maSize := 8, maSize0 := 8 } = 100 ↔ 8 ≤ 8 :=
  percentage_eq_100_iff (Match.fits_of_le (by decide) le_rfl) (by decide)

-- so many tokens of a file of one: the quotient does not fit an `int`
example : percentage { maFname0 := 0, maFname1 := 1, maSize := 21474838, maSize0 := 1 } =
    -2 ^ 31 := by decide +kernel

/-- What is printed as more than 50 is more than half. -/
theorem half_of_percentage (some_ : 0 < m.maSize0) (above : 50 < percentage m) :
    m.maSize0 < 2 * m.maSize := by
  by_contra less
  have double : 2 * float m.maSize ≤ float m.maSize0 := by
    rcases Nat.eq_zero_or_pos m.maSize with zero | positive
    · have := (float_natCast_pos some_).le
      simpa [zero] using this
    · have twice : float ((2 * m.maSize : Nat) : ℚ) = 2 * float m.maSize := by
        push_cast
        exact toFloat_two_mul (Nat.cast_pos.2 positive)
      rw [← twice]
      exact float_natCast_mono (by omega)
  have half : float (1 / 2) = 1 / 2 := by
    simpa using float_fraction (n := 1) (by norm_num) 1
  have below := matchPercentage_le some_ half (by norm_num) (by linarith)
  have floor : ⌊matchPercentage m * 100⌋ ≤ 50 := by
    rw [Int.floor_le_iff]
    push_cast
    linarith
  rw [percentage_of_bounded (by linarith)] at above
  omega

end Floats

/-! ## Printing -/

/-- `SORT_BEFORE(p1,p2)`. -/
def sortBefore (p1 p2 : Match) : Bool := matchPercentage p2 < matchPercentage p1

theorem sortBefore_strict : Strict sortBefore where
  asymm := by
    intro a b before
    simp only [sortBefore, decide_eq_true_eq, not_lt] at before ⊢
    exact before.le
  trans := by
    intro a b c first second
    simp only [sortBefore, decide_eq_true_eq, not_lt] at first second ⊢
    exact second.trans first

/-- `"%s consists for %d %% of %s material\n"`. -/
structure Line where
  fname0 : Nat
  mp : ℤ
  fname1 : Nat
  deriving DecidableEq, Repr

section Printing

variable (isSetP : Bool) (threshold : ℤ)

def printPercInfo (m : Match) : List Line :=
  if threshold ≤ percentage m then [⟨m.maFname0, percentage m, m.maFname1⟩] else []

/-- What `print_and_remove_perc_info_for_top_file` prints: the first match, and with it,
if not suppressed by `-P`, the others of its file. -/
def printTopFile (m : Match) (ms : List Match) : List Line :=
  printPercInfo threshold m ++
    if isSetP then [] else (same Match.maFname0 m.maFname0 ms).flatMap (printPercInfo threshold)

def printPercentages : List Match → List Line
  | [] => []
  | m :: ms =>
      printTopFile isSetP threshold m ms ++
        printPercentages (others Match.maFname0 m.maFname0 ms)
termination_by ms => ms.length
decreasing_by exact Nat.lt_succ_of_le (length_others_le _ _ ms)

/-- `Show_Percentages()`. -/
def showPercentages (ms : List Match) : List Line :=
  printPercentages isSetP threshold (sortList sortBefore ms)

variable {isSetP threshold}

/-- The matches of a file that are printed if they reach the threshold. -/
def shown (isSetP : Bool) (g : List Match) : List Match := if isSetP then g.take 1 else g

theorem printPercentages_eq (ms : List Match) :
    printPercentages isSetP threshold ms =
      ((groups Match.maFname0 ms).flatMap (shown isSetP)).flatMap (printPercInfo threshold) := by
  induction ms using printPercentages.induct with
  | case1 => rw [printPercentages, groups]; rfl
  | case2 m ms ih =>
      rw [printPercentages, groups, ih, List.flatMap_cons, List.flatMap_append, printTopFile]
      cases isSetP <;> simp [shown]

/-- `all contributors of the file with the highest percentage`, then `all contributors of
the file with the next lower percentage`, and so on: each group is one file, with its
highest percentage first, which no match of a later group exceeds. -/
structure Ordered (ms : List Match) (gs : List (List Match)) : Prop where
  perm : gs.flatten.Perm ms
  file : ∀ g ∈ gs, ∃ m rest, g = m :: rest ∧ ∀ m' ∈ rest, m'.maFname0 = m.maFname0
  sorted : ∀ g ∈ gs, g.Pairwise fun m m' => matchPercentage m' ≤ matchPercentage m
  apart : gs.Pairwise fun g g' => ∀ m ∈ g, ∀ m' ∈ g', m'.maFname0 ≠ m.maFname0
  heads : gs.Pairwise fun g g' => ∀ m ∈ g.head?, ∀ m' ∈ g',
    matchPercentage m' ≤ matchPercentage m

theorem showPercentages_order (isSetP : Bool) (threshold : ℤ) (ms : List Match) :
    ∃ gs, Ordered ms gs ∧ showPercentages isSetP threshold ms =
      (gs.flatMap (shown isSetP)).flatMap (printPercInfo threshold) := by
  have sorted := sortList_sorted sortBefore_strict ms
  have le_of (m m' : Match) : ¬ sortBefore m' m ↔ matchPercentage m' ≤ matchPercentage m := by
    simp only [sortBefore, decide_eq_true_eq, not_lt]
  refine ⟨groups Match.maFname0 (sortList sortBefore ms), ⟨?_, ?_, ?_, ?_, ?_⟩,
    printPercentages_eq _⟩
  · exact (groups_perm _ _).trans (sortList_perm sortBefore ms)
  · exact fun g group => groups_key _ group
  · intro g group
    have inside := groups_sorted sorted group
    exact inside.imp fun before => (le_of _ _).1 before
  · exact groups_apart _ _
  · refine (groups_heads sorted).imp fun before m first m' member => ?_
    exact (le_of _ _).1 (before m first m' member)

/-- The order of the quotients is that of what is printed. -/
theorem percentage_mono {m m' : Match} (fits : m.Fits)
    (le : matchPercentage m' ≤ matchPercentage m) : percentage m' ≤ percentage m := by
  have scaled : matchPercentage m' * 100 ≤ matchPercentage m * 100 :=
    mul_le_mul_of_nonneg_right le (by norm_num)
  rw [percentage_eq fits, percentage_of_bounded (scaled.trans_lt fits.bounded)]
  exact min_le_min_right 100 (Int.floor_mono scaled)

/-- The lines file by file: each file with its highest percentage first, which no line of a later
file exceeds; with `-P` one line each. -/
structure Grouped (isSetP : Bool) (lines : List Line) (gs : List (List Line)) : Prop where
  flat : gs.flatten = lines
  file : ∀ g ∈ gs, ∃ line rest, g = line :: rest ∧ (∀ l ∈ rest, l.fname0 = line.fname0) ∧
    (isSetP → rest = [])
  falling : ∀ g ∈ gs, g.Pairwise fun l l' => l'.mp ≤ l.mp
  apart : gs.Pairwise fun g g' => ∀ l ∈ g, ∀ l' ∈ g', l'.fname0 ≠ l.fname0
  heads : gs.Pairwise fun g g' => ∀ l ∈ g.head?, ∀ l' ∈ g', l'.mp ≤ l.mp

def linesOf (isSetP : Bool) (threshold : ℤ) (g : List Match) : List Line :=
  (shown isSetP g).flatMap (printPercInfo threshold)

theorem mem_linesOf {g : List Match} {line : Line} (member : line ∈ linesOf isSetP threshold g) :
    ∃ m ∈ g, threshold ≤ percentage m ∧ line = ⟨m.maFname0, percentage m, m.maFname1⟩ := by
  obtain ⟨m, inside, member⟩ := List.mem_flatMap.1 member
  rw [printPercInfo] at member
  split at member
  · rename_i reaches
    refine ⟨m, ?_, reaches, List.mem_singleton.1 member⟩
    cases isSetP with
    | false => exact inside
    | true => exact List.mem_of_mem_take inside
  · cases member

/-- A group is printed from its first match on, or not at all. -/
theorem linesOf_cons {m : Match} {rest : List Match} (fits : m.Fits)
    (sorted : (m :: rest).Pairwise fun m m' => matchPercentage m' ≤ matchPercentage m)
    (some_ : linesOf isSetP threshold (m :: rest) ≠ []) :
    linesOf isSetP threshold (m :: rest) = ⟨m.maFname0, percentage m, m.maFname1⟩ ::
      if isSetP then [] else linesOf false threshold rest := by
  have first : threshold ≤ percentage m := by
    by_contra below
    obtain ⟨line, member⟩ := List.exists_mem_of_ne_nil _ some_
    obtain ⟨m', inside, reaches, -⟩ := mem_linesOf member
    rcases List.mem_cons.1 inside with rfl | inside
    · exact below reaches
    · have le := percentage_mono fits ((List.pairwise_cons.1 sorted).1 m' inside)
      exact below (reaches.trans le)
  cases isSetP <;> simp [linesOf, shown, printPercInfo, first]

theorem showPercentages_grouped (isSetP : Bool) (threshold : ℤ) {ms : List Match}
    (fits : ∀ m ∈ ms, m.Fits) : ∃ gs, Grouped isSetP (showPercentages isSetP threshold ms) gs := by
  obtain ⟨gs, ordered, printed⟩ := showPercentages_order isSetP threshold ms
  have inner {m : Match} {g : List Match} (group : g ∈ gs) (member : m ∈ g) : m.Fits :=
    fits m (ordered.perm.subset (List.mem_flatten.2 ⟨g, group, member⟩))
  have from_group {g : List Line}
      (member : g ∈ (gs.map (linesOf isSetP threshold)).filter (· ≠ [])) :
      ∃ m rest, m :: rest ∈ gs ∧ g = linesOf isSetP threshold (m :: rest) ∧ g ≠ [] := by
    rw [List.mem_filter, List.mem_map] at member
    obtain ⟨⟨g', inside, rfl⟩, some_⟩ := member
    obtain ⟨m, rest, rfl, -⟩ := ordered.file g' inside
    exact ⟨m, rest, inside, rfl, of_decide_eq_true some_⟩
  refine ⟨(gs.map (linesOf isSetP threshold)).filter (· ≠ []), ?_, fun g member => ?_,
    fun g member => ?_, ?_, ?_⟩
  · rw [printed, List.flatMap_assoc, List.flatten_filter_ne_nil, ← List.flatMap_def]
    rfl
  · obtain ⟨m, rest, inside, rfl, some_⟩ := from_group member
    obtain ⟨_, _, split, same⟩ := ordered.file _ inside
    obtain ⟨rfl, rfl⟩ := List.cons.inj split
    refine ⟨_, _, linesOf_cons (inner inside List.mem_cons_self) (ordered.sorted _ inside) some_,
      fun line found => ?_, fun set => if_pos set⟩
    split at found
    · cases found
    · obtain ⟨m', there, -, rfl⟩ := mem_linesOf found
      exact same m' there
  · obtain ⟨m, rest, inside, rfl, -⟩ := from_group member
    have sorted := ordered.sorted _ inside
    have kept : shown isSetP (m :: rest) ⊆ m :: rest := by
      cases isSetP with
      | false => exact List.Subset.refl _
      | true => exact (List.take_sublist 1 _).subset
    have part : (shown isSetP (m :: rest)).Pairwise fun m m' =>
        matchPercentage m' ≤ matchPercentage m := by
      cases isSetP with
      | false => exact sorted
      | true => exact sorted.sublist (List.take_sublist 1 _)
    have line {m : Match} {l : Line} (member : l ∈ printPercInfo threshold m) :
        l.mp = percentage m := by
      rw [printPercInfo] at member
      split at member
      · rw [List.mem_singleton.1 member]
      · cases member
    refine List.pairwise_flatMap.2 ⟨fun m _ => ?_,
      part.imp_of_mem fun shown_ _ le l here l' there => ?_⟩
    · rw [printPercInfo]
      split
      · exact List.pairwise_singleton _ _
      · exact .nil
    · rw [line here, line there]
      exact percentage_mono (inner inside (kept shown_)) le
  · refine ((List.pairwise_map.2 (ordered.apart.imp fun apart l here l' there => ?_)).filter _)
    obtain ⟨m, inside, -, rfl⟩ := mem_linesOf here
    obtain ⟨m', inside', -, rfl⟩ := mem_linesOf there
    exact apart m inside m' inside'
  · refine ((List.pairwise_map.2 (ordered.heads.imp_of_mem fun {g g'} member _ before l first l'
      there => ?_)).filter _)
    obtain ⟨m', inside', -, rfl⟩ := mem_linesOf there
    obtain ⟨m, rest, rfl, -⟩ := ordered.file g member
    have some_ : linesOf isSetP threshold (m :: rest) ≠ [] := by
      rintro none_
      rw [none_] at first
      cases first
    have top := inner member List.mem_cons_self
    rw [linesOf_cons top (ordered.sorted _ member) some_] at first
    cases first
    exact percentage_mono top (before m rfl m' inside')

namespace Sample

/-- Half of file 0 is found in file 1, and all of file 1 in file 0. -/
def halfAndAll : List Match := [⟨0, 1, 8, 16⟩, ⟨1, 0, 8, 8⟩]

theorem halfAndAll_fits : ∀ m ∈ halfAndAll, m.Fits := by
  intro m member
  rcases List.mem_cons.1 member with rfl | member
  · exact Match.fits_of_le (by decide) (by decide)
  · rw [List.mem_singleton.1 member]
    exact Match.fits_of_le (by decide) (by decide)

theorem showPercentages_grouped_sample :
    ∃ gs, Grouped true (showPercentages true 20 halfAndAll) gs :=
  showPercentages_grouped true 20 halfAndAll_fits

end Sample

/-- Without `-P` a line is printed for each match that reaches the threshold. -/
theorem mem_showPercentages {ms : List Match} (fits : ∀ m ∈ ms, m.Fits) {line : Line} :
    line ∈ showPercentages false threshold ms ↔
      ∃ m ∈ ms, threshold ≤ min ⌊matchPercentage m * 100⌋ 100 ∧
        line = ⟨m.maFname0, min ⌊matchPercentage m * 100⌋ 100, m.maFname1⟩ := by
  obtain ⟨gs, ordered, printed⟩ := showPercentages_order false threshold ms
  have all : gs.flatMap (shown false) = gs.flatten := by
    have whole : shown false = id := rfl
    rw [List.flatMap_def, whole, List.map_id]
  rw [printed, all, List.mem_flatMap]
  constructor
  · rintro ⟨m, member, line_mem⟩
    rw [printPercInfo] at line_mem
    have inside := ordered.perm.mem_iff.1 member
    rw [percentage_eq (fits m inside)] at line_mem
    split at line_mem
    · rename_i reaches
      exact ⟨m, inside, reaches, List.mem_singleton.1 line_mem⟩
    · cases line_mem
  · rintro ⟨m, member, reaches, rfl⟩
    refine ⟨m, ordered.perm.mem_iff.2 member, ?_⟩
    rw [printPercInfo, percentage_eq (fits m member), if_pos reaches]
    exact List.mem_singleton.2 rfl

theorem Sample.mem_showPercentages_sample : ⟨0, 50, 1⟩ ∈ showPercentages false 20 halfAndAll :=
  (mem_showPercentages halfAndAll_fits).2 ⟨_, List.mem_cons_self, by decide +kernel,
    by decide +kernel⟩

end Printing

end RunServer.Sim
