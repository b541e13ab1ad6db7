/-
# Theory.Decimal -- integers in decimal, and fields between separators

`decimal` is the rendering of `%d`; `ofDecimal?` reads an optional sign and
digits back.  A line of renderings joined by a separator that is no part of them
splits into exactly them (`splitOn_decimals`).
-/
import Mathlib.Data.List.Basic

namespace RunServer.Theory

set_option autoImplicit false

def decimal (x : Int) : List Char :=
  if x < 0 then '-' :: Nat.toDigits 10 x.natAbs else Nat.toDigits 10 x.natAbs

/-- The number a non-empty string of digits spells. -/
def ofDigits? (s : List Char) : Option Nat :=
  if s ≠ [] ∧ s.all Char.isDigit then some (Nat.ofDigitChars 10 s 0) else none

def ofDecimal? : List Char → Option Int
  | '-' :: digits => (ofDigits? digits).map fun n : Nat => -(n : Int)
  | '+' :: digits => (ofDigits? digits).map fun n : Nat => (n : Int)
  | digits => (ofDigits? digits).map fun n : Nat => (n : Int)

theorem ofDigits?_toDigits (n : Nat) : ofDigits? (Nat.toDigits 10 n) = some n := by
  have digits : (Nat.toDigits 10 n).all Char.isDigit = true := by
    rw [List.all_eq_true]
    exact fun c member => Nat.isDigit_of_mem_toDigits (by decide) (by decide) member
  simp [ofDigits?, digits]

/-- Reading a rendering back gives the number. -/
theorem ofDecimal?_decimal (x : Int) : ofDecimal? (decimal x) = some x := by
  unfold decimal
  split
  · rename_i negative
    rw [ofDecimal?, ofDigits?_toDigits]
    exact congrArg some (by dsimp only; omega)
  · rename_i positive
    have plain : ofDecimal? (Nat.toDigits 10 x.natAbs) =
        (ofDigits? (Nat.toDigits 10 x.natAbs)).map fun n : Nat => (n : Int) := by
      unfold ofDecimal?
      split
      · rename_i digits first
        have digit : ('-' : Char).isDigit = true :=
          Nat.isDigit_of_mem_toDigits (by decide) (by decide)
            (first ▸ List.mem_cons_self : '-' ∈ Nat.toDigits 10 x.natAbs)
        simp at digit
      · rename_i digits first
        have digit : ('+' : Char).isDigit = true :=
          Nat.isDigit_of_mem_toDigits (by decide) (by decide)
            (first ▸ List.mem_cons_self : '+' ∈ Nat.toDigits 10 x.natAbs)
        simp at digit
      · rfl
    rw [plain, ofDigits?_toDigits]
    exact congrArg some (by dsimp only; omega)

theorem not_mem_decimal {sep : Char} (notDigit : sep.isDigit = false) (notSign : sep ≠ '-')
    (x : Int) : sep ∉ decimal x := by
  have absent : sep ∉ Nat.toDigits 10 x.natAbs := fun member => by
    have digit := Nat.isDigit_of_mem_toDigits (by decide) (by decide) member
    rw [notDigit] at digit
    cases digit
  unfold decimal
  split
  · simpa [notSign] using absent
  · exact absent

theorem splitOn_decimals {sep : Char} (notDigit : sep.isDigit = false) (notSign : sep ≠ '-')
    (xs : List Int) (nonempty : xs ≠ []) :
    ([sep].intercalate (xs.map decimal)).splitOn sep = xs.map decimal := by
  apply List.splitOn_intercalate
  · intro field member
    obtain ⟨x, -, rfl⟩ := List.mem_map.1 member
    exact not_mem_decimal notDigit notSign x
  · simpa using nonempty

end RunServer.Theory
