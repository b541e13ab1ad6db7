/-
# Theory.Pieces -- a list between separators, piece by piece

What a loop that reads up to the next separator sees of a list: `piece` is what it reads,
`rest` what is left behind the separator.  The end of the list closes the last piece, and
after it there are only empty ones.

* `getD_splitOn`: piece by piece, one comes to the pieces of `List.splitOn`;
* `infix_piece`: what has no separator in it lies in the piece that its separators count.
-/
import Mathlib.Data.List.Basic
import Mathlib.Data.List.Infix
import Mathlib.Data.List.TakeWhile

namespace RunServer.Theory.Pieces

set_option autoImplicit false

universe u

variable {α : Type u} [DecidableEq α] (sep : α)

def piece (s : List α) : List α := s.takeWhile (· ≠ sep)

def rest (s : List α) : List α := (s.dropWhile (· ≠ sep)).tail

/-- What is left behind `n` pieces. -/
def skip : Nat → List α → List α
  | 0, s => s
  | n + 1, s => skip n (rest sep s)

variable {sep}

@[simp] theorem piece_nil : piece sep [] = [] := rfl

@[simp] theorem rest_nil : rest sep [] = [] := rfl

@[simp] theorem piece_cons_self (s : List α) : piece sep (sep :: s) = [] := by simp [piece]

@[simp] theorem rest_cons_self (s : List α) : rest sep (sep :: s) = s := by simp [rest]

theorem piece_cons {a : α} (other : a ≠ sep) (s : List α) :
    piece sep (a :: s) = a :: piece sep s := by simp [piece, other]

theorem rest_cons {a : α} (other : a ≠ sep) (s : List α) :
    rest sep (a :: s) = rest sep s := by simp [rest, other]

@[simp] theorem skip_nil (n : Nat) : skip sep n [] = [] := by
  induction n with
  | zero => rfl
  | succ n ih => exact ih

theorem skip_add (m n : Nat) (s : List α) : skip sep (m + n) s = skip sep n (skip sep m s) := by
  induction m generalizing s with
  | zero => rw [Nat.zero_add, skip]
  | succ m ih => rw [Nat.succ_add, skip, skip, ih]

theorem splitOn_eq (s : List α) :
    s.splitOn sep = piece sep s :: if sep ∈ s then (rest sep s).splitOn sep else [] := by
  induction s with
  | nil => simp
  | cons a s ih =>
      rw [List.splitOn_cons_eq_if_modifyHead]
      by_cases same : a = sep
      · subst same
        simp
      · have member : sep ∈ a :: s ↔ sep ∈ s := by simp [Ne.symm same]
        rw [if_neg (by simpa using same), ih, List.modifyHead_cons, piece_cons same,
          rest_cons same]
        simp only [member]

theorem rest_of_not_mem {s : List α} (last : sep ∉ s) : rest sep s = [] := by
  induction s with
  | nil => rfl
  | cons a s ih =>
      rw [List.mem_cons, not_or] at last
      rw [rest_cons (Ne.symm last.1), ih last.2]

theorem getD_splitOn (n : Nat) (s : List α) :
    (s.splitOn sep).getD n [] = piece sep (skip sep n s) := by
  induction n generalizing s with
  | zero =>
      rw [splitOn_eq]
      rfl
  | succ n ih =>
      rw [splitOn_eq, skip, List.getD_cons_succ, ← ih]
      by_cases more : sep ∈ s
      · rw [if_pos more]
      · rw [if_neg more, rest_of_not_mem more, List.splitOn_nil]
        cases n <;> rfl

theorem infix_piece {word : List α} (one : sep ∉ word) (pre post : List α) :
    word <:+: piece sep (skip sep (pre.count sep) (pre ++ word ++ post)) := by
  induction pre with
  | nil =>
      have begins : piece sep (word ++ post) = word ++ piece sep post := by
        induction word with
        | nil => rfl
        | cons a word ih =>
            rw [List.mem_cons, not_or] at one
            rw [List.cons_append, piece_cons (Ne.symm one.1), ih one.2, List.cons_append]
      rw [List.count_nil, skip, List.nil_append, begins]
      exact (List.prefix_append _ _).isInfix
  | cons a pre ih =>
      by_cases same : a = sep
      · subst same
        rw [List.count_cons_self, skip, List.cons_append, List.cons_append, rest_cons_self]
        exact ih
      · rw [List.count_cons_of_ne same, List.cons_append, List.cons_append]
        cases none_ : pre.count sep with
        | zero =>
            rw [none_, skip] at ih
            rw [skip, piece_cons same]
            exact ih.trans (List.suffix_cons _ _).isInfix
        | succ n =>
            rw [none_, skip] at ih
            rw [skip, rest_cons same]
            exact ih

end RunServer.Theory.Pieces
