/-
# Theory.Greedy -- a scan that takes pieces or moves on by one

A scan goes up the positions.  Where it finds a piece it takes it and goes on behind it;
where it finds none it goes on at the next position; and it ends where no piece can
begin any more.

* `Scan.pairwise`: the pieces are in order and apart;
* `Scan.covered`: a position the scan has come by lies in a piece, or was left, or is
  behind the end;
* `Scan.sum_le_countP`: the pieces together are no longer than the positions that have what
  every position in a piece has; `Scan.sum_le` is the case of all positions;
* `Scan.unique`: what is taken at each position decides the pieces.
-/
import Mathlib.Algebra.Ring.Nat
import Mathlib.Data.List.Basic

namespace RunServer.Theory.Greedy

set_option autoImplicit false

universe u

/-- `takes i r`: the piece `r` begins in `i` and is taken. -/
inductive Scan {ρ : Type u} (size : ρ → Nat) (takes : Nat → ρ → Prop) (leaves ends : Nat → Prop) :
    Nat → List ρ → Prop where
  | stop {i : Nat} (ended : ends i) : Scan size takes leaves ends i []
  | skip {i : Nat} {rs : List ρ} (left : leaves i) (rest : Scan size takes leaves ends (i + 1) rs) :
      Scan size takes leaves ends i rs
  | take {i : Nat} {r : ρ} {rs : List ρ} (taken : takes i r)
      (rest : Scan size takes leaves ends (i + size r) rs) : Scan size takes leaves ends i (r :: rs)

section Scan

variable {ρ : Type u} {size : ρ → Nat} {takes : Nat → ρ → Prop} {leaves ends : Nat → Prop}
variable {i : Nat} {rs : List ρ}

theorem Scan.taken (scan : Scan size takes leaves ends i rs) {r : ρ} (member : r ∈ rs) :
    ∃ j, i ≤ j ∧ takes j r := by
  induction scan with
  | stop _ => cases member
  | skip _ _ ih =>
      obtain ⟨j, le, takes⟩ := ih member
      exact ⟨j, by omega, takes⟩
  | @take i first rs taken _ ih =>
      rcases List.mem_cons.1 member with rfl | member
      · exact ⟨i, Nat.le_refl i, taken⟩
      · obtain ⟨j, le, takes⟩ := ih member
        exact ⟨j, by omega, takes⟩

variable {begins : ρ → Nat}

theorem Scan.pairwise (scan : Scan size takes leaves ends i rs)
    (at_ : ∀ j r, takes j r → begins r = j) :
    rs.Pairwise fun r r' => begins r + size r ≤ begins r' := by
  induction scan with
  | stop _ => exact .nil
  | skip _ _ ih => exact ih
  | take taken rest ih =>
      refine .cons (fun r member => ?_) ih
      obtain ⟨j, le, takes⟩ := rest.taken member
      rw [at_ _ _ taken, at_ _ _ takes]
      exact le

theorem Scan.covered (scan : Scan size takes leaves ends i rs)
    (at_ : ∀ j r, takes j r → begins r = j) (upward : ∀ j p, j ≤ p → ends j → ends p) {p : Nat}
    (from_ : i ≤ p) :
    (∃ r ∈ rs, begins r ≤ p ∧ p < begins r + size r) ∨ leaves p ∨ ends p := by
  induction scan with
  | stop ended => exact Or.inr (Or.inr (upward _ _ from_ ended))
  | @skip i rs left _ ih =>
      rcases Nat.lt_or_eq_of_le from_ with later | rfl
      · exact ih later
      · exact Or.inr (Or.inl left)
  | @take i r rs taken _ ih =>
      by_cases inside : p < i + size r
      · have begun := at_ _ _ taken
        exact Or.inl ⟨r, List.mem_cons_self, by omega, by omega⟩
      · rcases ih (by omega) with ⟨r', member, covers⟩ | other
        · exact Or.inl ⟨r', List.mem_cons_of_mem _ member, covers⟩
        · exact Or.inr other

theorem Scan.sum_le_countP (scan : Scan size takes leaves ends i rs) {limit : Nat}
    {has : Nat → Bool} (stays : ∀ j r, i ≤ j → takes j r → j + size r ≤ limit)
    (every : ∀ j r, i ≤ j → takes j r → ∀ p, j ≤ p → p < j + size r → has p) :
    (rs.map size).sum ≤ (List.range' i (limit - i)).countP has := by
  induction scan with
  | stop _ => exact Nat.zero_le _
  | @skip i rs _ _ ih =>
      have rest := ih (fun j r after => stays j r (by omega)) fun j r after => every j r (by omega)
      refine Nat.le_trans rest (List.Sublist.countP_le ?_)
      by_cases inside : i < limit
      · obtain ⟨n, eq⟩ : ∃ n, limit - i = n + 1 := ⟨limit - i - 1, by omega⟩
        have eq' : limit - (i + 1) = n := by omega
        rw [eq, eq', List.range'_succ]
        exact List.sublist_cons_self _ _
      · have eq : limit - (i + 1) = 0 := by omega
        rw [eq]
        exact List.nil_sublist _
  | @take i r rs taken _ ih =>
      have room := stays _ _ (Nat.le_refl i) taken
      have rest := ih (fun j r after => stays j r (by omega)) fun j r after => every j r (by omega)
      have split : limit - i = size r + (limit - (i + size r)) := by omega
      have all : (List.range' i (size r)).countP has = size r := by
        have counted : (List.range' i (size r)).countP has = (List.range' i (size r)).length :=
          List.countP_eq_length.2 fun p member => by
            rw [List.mem_range'_1] at member
            exact every _ _ (Nat.le_refl i) taken p member.1 member.2
        rwa [List.length_range'] at counted
      rw [List.map_cons, List.sum_cons, split, ← List.range'_append_1, List.countP_append, all]
      exact Nat.add_le_add_left rest _

theorem Scan.sum_le (scan : Scan size takes leaves ends i rs) {limit : Nat}
    (stays : ∀ j r, takes j r → j + size r ≤ limit) : (rs.map size).sum ≤ limit - i := by
  have le : (rs.map size).sum ≤ (List.range' i (limit - i)).countP fun _ => true :=
    scan.sum_le_countP (fun j r _ => stays j r) fun _ _ _ _ _ _ _ => rfl
  simpa using le

/-- Behind the end nothing is taken. -/
theorem Scan.eq_nil (scan : Scan size takes leaves ends i rs)
    (upward : ∀ j p, j ≤ p → ends j → ends p) (apart : ∀ j r, takes j r → ¬ ends j)
    (ended : ends i) : rs = [] := by
  induction scan with
  | stop _ => rfl
  | skip _ _ ih => exact ih (upward _ _ (Nat.le_succ _) ended)
  | take taken _ _ => exact absurd ended (apart _ _ taken)

theorem Scan.unique {rs' : List ρ} (scan : Scan size takes leaves ends i rs)
    (scan' : Scan size takes leaves ends i rs') (upward : ∀ j p, j ≤ p → ends j → ends p)
    (apart : ∀ j r, takes j r → ¬ ends j) (refused : ∀ j r, takes j r → ¬ leaves j)
    (functional : ∀ j r r', takes j r → takes j r' → r = r') : rs = rs' := by
  induction scan generalizing rs' with
  | stop ended => exact (scan'.eq_nil upward apart ended).symm
  | skip left rest ih =>
      cases scan' with
      | stop ended => exact rest.eq_nil upward apart (upward _ _ (Nat.le_succ _) ended)
      | skip _ rest' => exact ih rest'
      | take taken' _ => exact absurd left (refused _ _ taken')
  | take taken rest ih =>
      cases scan' with
      | stop ended => exact absurd ended (apart _ _ taken)
      | skip left _ => exact absurd left (refused _ _ taken)
      | take taken' rest' =>
          obtain rfl := functional _ _ _ taken taken'
          rw [ih rest']

end Scan

end RunServer.Theory.Greedy
