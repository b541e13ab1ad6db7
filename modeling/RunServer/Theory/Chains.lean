/-
# Theory.Chains -- positions linked to the next one like them

An index over an array links every position to the next one with the same key, so that
who looks for positions like `i` follows the links and never meets another key.  The
table `next` answers 0 where no such position is left, so 0 is no position.

* `Links P like next`: among the positions in `P`, `next i` is the first one after `i`
  that is like `i`;
* `Links.unique`: there is one such table; `Links.inj`: no two links end at one place, so
  that two chains never meet;
* `Links.reaches`: the chain of `i` has all that is like `i` from there on;
* `thread_links`: the table is made in one sweep that remembers the last position of
  each key;
* `clean_links`: a sweep that follows every link until a second key agrees too makes
  the table of both keys, and ends.
-/
import Mathlib.Data.List.Induction
import Mathlib.Logic.Function.Basic
import RunServer.Theory.Endless

namespace RunServer.Theory.Chains

open RunServer.Theory.Endless

set_option autoImplicit false

universe u v

section Spec

variable {P : Nat → Prop} {like : Nat → Nat → Prop} {next next' : Nat → Nat}

structure Links (P : Nat → Prop) (like : Nat → Nat → Prop) (next : Nat → Nat) : Prop where
  sound : ∀ i, next i ≠ 0 → P i ∧ P (next i) ∧ i < next i ∧ like i (next i)
  first : ∀ i j, P i → P j → i < j → like i j → next i ≠ 0 ∧ next i ≤ j

/-- `j` is on the chain that begins in `i`. -/
inductive Reaches (next : Nat → Nat) : Nat → Nat → Prop where
  | here (i : Nat) : Reaches next i i
  | further {i j : Nat} (linked : next i ≠ 0) (rest : Reaches next (next i) j) : Reaches next i j

theorem Links.unique (links : Links P like next) (links' : Links P like next') : next = next' := by
  funext i
  have le {n n' : Nat → Nat} (l : Links P like n) (l' : Links P like n') (linked : n' i ≠ 0) :
      n i ≠ 0 ∧ n i ≤ n' i := by
    obtain ⟨here, there, after, alike⟩ := l'.sound i linked
    exact l.first i (n' i) here there after alike
  by_cases linked : next i = 0
  · by_contra differ
    exact (le links links' (by omega)).1 linked
  · have one := le links' links linked
    have other := le links links' one.1
    omega

theorem Links.inj (links : Links P like next) (equiv : Equivalence like) {i i' : Nat}
    (linked : next i ≠ 0) (meet : next i = next i') : i = i' := by
  have apart {a b : Nat} (at_ : next a ≠ 0) (same : next a = next b) : ¬ a < b := by
    intro before
    obtain ⟨here, -, -, alike⟩ := links.sound a at_
    obtain ⟨here', -, after', alike'⟩ := links.sound b (same ▸ at_)
    rw [← same] at alike' after'
    have between := links.first a b here here' before (equiv.trans alike (equiv.symm alike'))
    omega
  have not_lt := apart linked meet
  have not_gt := apart (meet ▸ linked) meet.symm
  omega

theorem Reaches.snoc {i j : Nat} (reaches : Reaches next i j) (linked : next j ≠ 0) :
    Reaches next i (next j) := by
  induction reaches with
  | here i => exact .further linked (.here _)
  | further first _ ih => exact .further first (ih linked)

theorem Links.of_reaches (links : Links P like next) (equiv : Equivalence like) {i j : Nat}
    (reaches : Reaches next i j) : j = i ∨ (P i ∧ P j ∧ i < j ∧ like i j) := by
  induction reaches with
  | here i => exact Or.inl rfl
  | @further i j linked _ ih =>
      obtain ⟨here, there, after, alike⟩ := links.sound i linked
      rcases ih with rfl | ⟨-, last, later, alike'⟩
      · exact Or.inr ⟨here, there, after, alike⟩
      · exact Or.inr ⟨here, last, by omega, equiv.trans alike alike'⟩

theorem Links.reaches (links : Links P like next) (equiv : Equivalence like) {i j : Nat}
    (here : P i) (there : P j) (after : i ≤ j) (alike : like i j) : Reaches next i j := by
  -- on what is left up to `j`
  induction left : j - i using Nat.strongRecOn generalizing i with
  | _ n ih =>
      rcases Nat.lt_or_eq_of_le after with before | rfl
      · obtain ⟨linked, le⟩ := links.first i j here there before alike
        obtain ⟨-, stop, further, alike'⟩ := links.sound i linked
        exact .further linked
          (ih (j - next i) (by omega) stop le (equiv.trans (equiv.symm alike') alike) rfl)
      · exact .here i

/-- The positions like `i` between a position on its chain and the next one are none. -/
theorem Links.between (links : Links P like next) (equiv : Equivalence like) {i j k : Nat}
    (here : P i) (reaches : Reaches next i j) (there : P k) (alike : like i k) (after : j < k) :
    next j ≠ 0 ∧ next j ≤ k := by
  rcases links.of_reaches equiv reaches with rfl | ⟨-, stop, -, alike'⟩
  · exact links.first j k here there after alike
  · exact links.first j k stop there after (equiv.trans (equiv.symm alike') alike)

end Spec

/-! ## One sweep -/

section Thread

variable {κ : Type u}

/-- The last position of each key, 0 where there is none yet, and the links so far. -/
structure Table (κ : Type u) where
  last : κ → Nat
  next : Nat → Nat

def empty : Table κ where
  last := fun _ => 0
  next := fun _ => 0

def Table.enter [DecidableEq κ] (key : Nat → κ) (t : Table κ) (j : Nat) : Table κ where
  last := Function.update t.last (key j) j
  next := if t.last (key j) = 0 then t.next else Function.update t.next (t.last (key j)) j

def thread [DecidableEq κ] (key : Nat → κ) (ps : List Nat) : Table κ :=
  ps.foldl (Table.enter key) empty

structure Threaded (key : Nat → κ) (ps : List Nat) (t : Table κ) : Prop where
  positive : ∀ p ∈ ps, 0 < p
  last : ∀ k, t.last k ≠ 0 → t.last k ∈ ps ∧ key (t.last k) = k
  greatest : ∀ p ∈ ps, p ≤ t.last (key p)
  links : Links (· ∈ ps) (fun i j => key i = key j) t.next

variable {key : Nat → κ} {ps : List Nat} {t : Table κ}

theorem threaded_empty : Threaded key [] (empty : Table κ) where
  positive := fun p member => by cases member
  last := fun k held => absurd rfl held
  greatest := fun p member => by cases member
  links := ⟨fun i linked => absurd rfl linked, fun i j member => by cases member⟩

/-- The last position of a key is linked to none. -/
theorem Threaded.unlinked (threaded : Threaded key ps t) {k : κ} (held : t.last k ≠ 0) :
    t.next (t.last k) = 0 := by
  by_contra linked
  obtain ⟨-, there, after, alike⟩ := threaded.links.sound _ linked
  have le := threaded.greatest _ there
  rw [← alike, (threaded.last k held).2] at le
  omega

variable [DecidableEq κ]

theorem Threaded.enter_last (threaded : Threaded key ps t) {j : Nat} {k : κ}
    (held : (t.enter key j).last k ≠ 0) :
    (t.enter key j).last k ∈ ps ++ [j] ∧ key ((t.enter key j).last k) = k := by
  by_cases mine : k = key j
  · subst mine
    simp [Table.enter]
  · simp only [Table.enter, Function.update_of_ne mine] at held ⊢
    have found := threaded.last k held
    exact ⟨List.mem_append_left _ found.1, found.2⟩

theorem Threaded.enter_greatest (threaded : Threaded key ps t) {j p : Nat}
    (later : ∀ p ∈ ps, p < j) (member : p ∈ ps ++ [j]) :
    p ≤ (t.enter key j).last (key p) := by
  by_cases mine : key p = key j
  · simp only [Table.enter, mine, Function.update_self]
    rcases List.mem_append.1 member with old | new
    · exact Nat.le_of_lt (later p old)
    · exact Nat.le_of_eq (List.mem_singleton.1 new)
  · simp only [Table.enter, Function.update_of_ne mine]
    rcases List.mem_append.1 member with old | new
    · exact threaded.greatest p old
    · exact absurd (congrArg key (List.mem_singleton.1 new)) mine

theorem Threaded.enter_sound (threaded : Threaded key ps t) {i j : Nat}
    (later : ∀ p ∈ ps, p < j) (linked : (t.enter key j).next i ≠ 0) :
    i ∈ ps ++ [j] ∧ (t.enter key j).next i ∈ ps ++ [j] ∧ i < (t.enter key j).next i ∧
      key i = key ((t.enter key j).next i) := by
  have old : t.next i ≠ 0 → i ∈ ps ++ [j] ∧ t.next i ∈ ps ++ [j] ∧ i < t.next i ∧
      key i = key (t.next i) := by
    intro linked
    obtain ⟨here, there, rest⟩ := threaded.links.sound i linked
    exact ⟨List.mem_append_left _ here, List.mem_append_left _ there, rest⟩
  by_cases held : t.last (key j) = 0
  · simp only [Table.enter, held, if_true] at linked ⊢
    exact old linked
  · simp only [Table.enter, held, if_false] at linked ⊢
    by_cases mine : i = t.last (key j)
    · subst mine
      obtain ⟨here, alike⟩ := threaded.last _ held
      simpa [here, alike] using later _ here
    · rw [Function.update_of_ne mine] at linked ⊢
      exact old linked

theorem Threaded.enter_first (threaded : Threaded key ps t) {i j p : Nat}
    (later : ∀ p ∈ ps, p < j) (here : i ∈ ps) (there : p ∈ ps ++ [j]) (before : i < p)
    (alike : key i = key p) :
    (t.enter key j).next i ≠ 0 ∧ (t.enter key j).next i ≤ p := by
  rcases List.mem_append.1 there with there | new
  · -- both were there before, and the last of a key was linked to none
    obtain ⟨linked, le⟩ := threaded.links.first i p here there before alike
    by_cases held : t.last (key j) = 0
    · simp only [Table.enter, held, if_true]
      exact ⟨linked, le⟩
    · have other : i ≠ t.last (key j) := fun same => linked (same ▸ threaded.unlinked held)
      simp only [Table.enter, held, if_false, Function.update_of_ne other]
      exact ⟨linked, le⟩
  · obtain rfl := List.mem_singleton.1 new
    have le := threaded.greatest i here
    have positive := threaded.positive i here
    rw [alike] at le
    have held : t.last (key p) ≠ 0 := by omega
    simp only [Table.enter, held, if_false]
    by_cases mine : i = t.last (key p)
    · rw [← mine, Function.update_self]
      exact ⟨by omega, Nat.le_refl p⟩
    · rw [Function.update_of_ne mine]
      obtain ⟨stop, same⟩ := threaded.last _ held
      obtain ⟨linked, le'⟩ := threaded.links.first i _ here stop (by omega) (alike.trans same.symm)
      have := later _ stop
      exact ⟨linked, by omega⟩

theorem Threaded.enter (threaded : Threaded key ps t) {j : Nat} (positive : 0 < j)
    (later : ∀ p ∈ ps, p < j) : Threaded key (ps ++ [j]) (t.enter key j) where
  positive := by
    intro p member
    rcases List.mem_append.1 member with old | new
    · exact threaded.positive p old
    · rwa [List.mem_singleton.1 new]
  last := fun _ held => threaded.enter_last held
  greatest := fun _ member => threaded.enter_greatest later member
  links :=
    { sound := fun _ linked => threaded.enter_sound later linked
      first := by
        intro i p here there before alike
        rcases List.mem_append.1 here with here | new
        · exact threaded.enter_first later here there before alike
        · -- nothing comes after the new one
          obtain rfl := List.mem_singleton.1 new
          rcases List.mem_append.1 there with there | same
          · have := later p there
            omega
          · have := List.mem_singleton.1 same
            omega }

theorem threaded_thread (sorted : ps.Pairwise (· < ·)) (positive : ∀ p ∈ ps, 0 < p) :
    Threaded key ps (thread key ps) := by
  induction ps using List.reverseRecOn with
  | nil => exact threaded_empty
  | append_singleton ps j ih =>
      rw [List.pairwise_append] at sorted
      obtain ⟨before, -, later⟩ := sorted
      have threaded := ih before fun p member => positive p (List.mem_append_left _ member)
      rw [thread, List.foldl_append]
      exact threaded.enter (positive j (by simp)) fun p member => later p member j (by simp)

theorem thread_links (sorted : ps.Pairwise (· < ·)) (positive : ∀ p ∈ ps, 0 < p) :
    Links (· ∈ ps) (fun i j => key i = key j) (thread key ps).next :=
  (threaded_thread sorted positive).links

end Thread

/-! ## The second key -/

section Clean

variable {κ : Type u} [DecidableEq κ] (key : Nat → κ)

/-- `while ((j = next[j]) && key(j) != k) ...;` -/
def seek (next : Nat → Nat) (k : κ) (j : Nat) : Option (Pass Nat Nat) :=
  if next j = 0 ∨ key (next j) = k then some (.done (next j)) else some (.again (next j))

/-- One link is moved on to the next position with the second key, or to none. -/
def relink (fuel : Nat) (next : Nat → Nat) (i : Nat) : Option (Nat → Nat) :=
  (run (seek key next (key i)) fuel i).map (Function.update next i)

def clean (fuel count : Nat) (next : Nat → Nat) : Option (Nat → Nat) :=
  (List.range count).foldlM (relink key fuel) next

variable {key} {P : Nat → Prop} {like : Nat → Nat → Prop} {next : Nat → Nat}

/-- `n` is what the refined table answers for `i`. -/
structure Refined (key : Nat → κ) (P : Nat → Prop) (like : Nat → Nat → Prop) (i n : Nat) :
    Prop where
  sound : n ≠ 0 → P i ∧ P n ∧ i < n ∧ like i n ∧ key i = key n
  first : ∀ j, P i → P j → i < j → like i j → key i = key j → n ≠ 0 ∧ n ≤ j

omit [DecidableEq κ] in
theorem links_of_refined {refined : Nat → Nat}
    (every : ∀ i, Refined key P like i (refined i)) :
    Links P (fun i j => like i j ∧ key i = key j) refined :=
  ⟨fun i linked => (every i).sound linked,
    fun i j here there before alike => (every i).first j here there before alike.1 alike.2⟩

omit [DecidableEq κ] in
theorem Links.refined_of_unlinked (links : Links P like next) {i : Nat} (unlinked : next i = 0) :
    Refined key P like i 0 where
  sound := fun linked => absurd rfl linked
  first := fun j here there before alike _ =>
    absurd unlinked (links.first i j here there before alike).1

/-- The positions behind `i` are still linked as they were when `i` is relinked. -/
theorem seek_refined (key : Nat → κ) (links : Links P like next) (equiv : Equivalence like)
    {bound : Nat}
    (bounded : ∀ j, P j → j < bound) {current : Nat → Nat} {i : Nat}
    (same : ∀ j, i ≤ j → current j = next j) :
    ∃ n, run (seek key current (key i)) (bound + 1) i = some n ∧ Refined key P like i n := by
  refine run_of_progress
    (fun j => Reaches next i j ∧ i ≤ j ∧ ∀ p, P p → i < p → like i p → key i = key p → j < p)
    (Refined key P like i) (fun j => bound - j) ?_ ⟨.here i, Nat.le_refl i, fun p _ before _ _ =>
      before⟩ (by omega)
  rintro j ⟨reaches, after, none_⟩
  rw [seek, same j after]
  by_cases linked : next j = 0
  · refine Or.inl ⟨next j, by simp [linked], ?_⟩
    rw [linked]
    refine ⟨fun no => absurd rfl no, fun p here there before alike alike' => ?_⟩
    exact absurd linked
      (links.between equiv here reaches there alike (none_ p there before alike alike')).1
  obtain ⟨-, stop, further, -⟩ := links.sound j linked
  have := bounded _ stop
  by_cases found : key (next j) = key i
  · refine Or.inl ⟨next j, by simp [found], ?_, fun p here there before alike alike' => ?_⟩
    · intro _
      rcases links.of_reaches equiv (reaches.snoc linked) with back | ⟨here, _, before, alike⟩
      · omega
      · exact ⟨here, stop, before, alike, found.symm⟩
    · exact links.between equiv here reaches there alike (none_ p there before alike alike')
  · refine Or.inr ⟨next j, by simp [linked, found], ⟨reaches.snoc linked, by omega, ?_⟩, by omega⟩
    intro p there before alike alike'
    have here : P i := by
      rcases links.of_reaches equiv (reaches.snoc linked) with back | ⟨here, -⟩
      · omega
      · exact here
    have le := (links.between equiv here reaches there alike (none_ p there before alike alike')).2
    have differ : next j ≠ p := fun meet => found (meet ▸ alike'.symm)
    omega

theorem clean_refined (key : Nat → κ) (links : Links P like next) (equiv : Equivalence like)
    {bound : Nat}
    (bounded : ∀ j, P j → j < bound) (count : Nat) :
    ∃ current, clean key (bound + 1) count next = some current ∧
      (∀ i < count, Refined key P like i (current i)) ∧ ∀ i, count ≤ i → current i = next i := by
  induction count with
  | zero => exact ⟨next, rfl, fun i none_ => absurd none_ (Nat.not_lt_zero i), fun _ _ => rfl⟩
  | succ count ih =>
      obtain ⟨current, swept, refined, same⟩ := ih
      obtain ⟨n, found, here⟩ := seek_refined key links equiv bounded same
      refine ⟨Function.update current count n, ?_, fun i before => ?_, fun i after => ?_⟩
      · rw [clean] at swept
        rw [clean, List.range_succ, List.foldlM_append, swept]
        simp [relink, found]
      · by_cases mine : i = count
        · subst mine
          rwa [Function.update_self]
        · rw [Function.update_of_ne mine]
          exact refined i (by omega)
      · rw [Function.update_of_ne (by omega)]
        exact same i (by omega)

/-- Nothing from `count` on is linked, so that it can be left out. -/
theorem clean_links (key : Nat → κ) (links : Links P like next) (equiv : Equivalence like)
    {bound count : Nat}
    (bounded : ∀ j, P j → j < bound) (past : ∀ i, count ≤ i → next i = 0) :
    ∃ refined, clean key (bound + 1) count next = some refined ∧
      Links P (fun i j => like i j ∧ key i = key j) refined := by
  obtain ⟨refined, swept, every, same⟩ := clean_refined key links equiv bounded count
  refine ⟨refined, swept, links_of_refined fun i => ?_⟩
  by_cases before : i < count
  · exact every i before
  · have unlinked := past i (by omega)
    rw [same i (by omega), unlinked]
    exact links.refined_of_unlinked unlinked

end Clean

end RunServer.Theory.Chains
