/-
# Theory.Int32 -- two's complement narrowing to a 32-bit int

A C compiler for a 32-bit `int` evaluates in `long` where an operand is `long`
and stores the low 32 bits.  `int32` is that store; a value in `Fits` is stored
unchanged.
-/
import Mathlib.Data.Int.Basic
import Mathlib.Tactic.Linarith

namespace RunServer.Theory

set_option autoImplicit false

/-- The value an `int` holds after a wider integer is stored in it. -/
def int32 (x : Int) : Int := Int.bmod x (2 ^ 32)

/-- The values an `int` can hold. -/
def Fits (x : Int) : Prop := -2 ^ 31 ≤ x ∧ x < 2 ^ 31

instance (x : Int) : Decidable (Fits x) := by unfold Fits; infer_instance

theorem int32_fits (x : Int) : Fits (int32 x) := by
  unfold Fits int32
  have lower := Int.le_bmod (x := x) (m := 2 ^ 32) (by decide)
  have upper := Int.bmod_lt (x := x) (m := 2 ^ 32) (by decide)
  norm_num at lower upper ⊢
  exact ⟨lower, upper⟩

theorem int32_of_fits {x : Int} (fits : Fits x) : int32 x = x := by
  obtain ⟨lower, upper⟩ := fits
  unfold int32
  apply Int.bmod_eq_of_le <;> norm_num <;> omega

@[simp] theorem int32_int32 (x : Int) : int32 (int32 x) = int32 x :=
  int32_of_fits (int32_fits x)

@[simp] theorem int32_add_left (x y : Int) : int32 (int32 x + y) = int32 (x + y) :=
  Int.bmod_add_bmod

end RunServer.Theory
