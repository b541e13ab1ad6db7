/-
# Theory.Nearest -- binary floating point on the positive rationals

A positive rational is rounded to the nearest multiple of the unit in the last place of
its binade, half-way cases to the even multiple.  Overflow and subnormal numbers are left
out: the exponent is not bounded.

* `nearestEven_mono`, `toFloat_mono`: rounding keeps the order;
* `toFloat_of_multiple`: a multiple of the unit is rounded to itself; `toFloat_natCast` is the
  case of the integers that fit the significand, and `toFloat_div_two_pow` that of such an
  integer over a power of two;
* `toFloat_two_mul`: rounding commutes with doubling.
-/
import Mathlib.Data.Int.Log
import Mathlib.Data.Rat.Floor
import Mathlib.Tactic.FieldSimp
import Mathlib.Tactic.Linarith
import Mathlib.Tactic.Positivity

namespace RunServer.Theory.Nearest

set_option autoImplicit false

/-! ## To the integers -/

def nearestEven (x : ℚ) : ℤ :=
  if x - ⌊x⌋ < 1 / 2 then ⌊x⌋ else if 1 / 2 < x - ⌊x⌋ then ⌊x⌋ + 1 else ⌊x⌋ + ⌊x⌋ % 2

theorem nearestEven_range (x : ℚ) : ⌊x⌋ ≤ nearestEven x ∧ nearestEven x ≤ ⌊x⌋ + 1 := by
  simp only [nearestEven]
  split
  · omega
  · split <;> omega

theorem nearestEven_intCast (k : ℤ) : nearestEven k = k := by
  simp [nearestEven]

theorem nearestEven_mono {x y : ℚ} (le : x ≤ y) : nearestEven x ≤ nearestEven y := by
  have floors := Int.floor_le_floor le
  rcases floors.lt_or_eq with less | same
  · have := (nearestEven_range x).2
    have := (nearestEven_range y).1
    omega
  · simp only [nearestEven, ← same]
    by_cases below : x - ⌊x⌋ < 1 / 2
    · rw [if_pos below]
      split
      · exact le_rfl
      · split <;> omega
    · have below' : ¬ y - ⌊x⌋ < 1 / 2 := by linarith
      rw [if_neg below, if_neg below']
      by_cases above : 1 / 2 < x - ⌊x⌋
      · have above' : 1 / 2 < y - ⌊x⌋ := by linarith
        rw [if_pos above, if_pos above']
      · rw [if_neg above]
        split <;> omega

theorem le_nearestEven {x : ℚ} {k : ℤ} (le : (k : ℚ) ≤ x) : k ≤ nearestEven x := by
  simpa only [nearestEven_intCast] using nearestEven_mono le

theorem nearestEven_le {x : ℚ} {k : ℤ} (le : x ≤ k) : nearestEven x ≤ k := by
  simpa only [nearestEven_intCast] using nearestEven_mono le

/-! ## To the floats -/

section Float

variable (p : Nat)

/-- The unit in the last place of a significand of `p` bits. -/
def ulp (x : ℚ) : ℚ := 2 ^ (Int.log 2 x + 1 - p)

def toFloat (x : ℚ) : ℚ := nearestEven (x / ulp p x) * ulp p x

variable {p} {x y : ℚ}

theorem ulp_pos (x : ℚ) : 0 < ulp p x := by
  exact zpow_pos two_pos _

@[simp] theorem toFloat_zero : toFloat p 0 = 0 := by
  have zero : nearestEven 0 = 0 := nearestEven_intCast 0
  simp [toFloat, zero]

theorem toFloat_of_multiple {k : ℤ} (multiple : x = k * ulp p x) : toFloat p x = x := by
  have quotient : x / ulp p x = k := by
    rw [div_eq_iff (ulp_pos x).ne']
    exact multiple
  rw [toFloat, quotient, nearestEven_intCast]
  exact multiple.symm

theorem pow_mul_ulp (k : Nat) (x : ℚ) :
    (((2 ^ k : Nat) : ℤ) : ℚ) * ulp p x = 2 ^ (Int.log 2 x + 1 - p + k) := by
  rw [zpow_add₀ two_ne_zero, ulp, zpow_natCast, mul_comm]
  push_cast
  rfl

/-- The end of the binade. -/
theorem toFloat_le_binade (x : ℚ) : toFloat p x ≤ 2 ^ (Int.log 2 x + 1) := by
  have last : (2 : ℚ) ^ (Int.log 2 x + 1) = ((2 ^ p : Nat) : ℤ) * ulp p x := by
    rw [pow_mul_ulp]
    congr 1
    omega
  have below : x / ulp p x ≤ ((2 ^ p : Nat) : ℤ) := by
    rw [div_le_iff₀ (ulp_pos x), ← last]
    exact_mod_cast (Int.lt_zpow_succ_log_self one_lt_two x).le
  rw [toFloat, last]
  exact mul_le_mul_of_nonneg_right (by exact_mod_cast nearestEven_le below) (ulp_pos x).le

/-- The beginning of the binade. -/
theorem binade_le_toFloat (bits : 0 < p) (positive : 0 < x) : 2 ^ Int.log 2 x ≤ toFloat p x := by
  have first : (2 : ℚ) ^ Int.log 2 x = ((2 ^ (p - 1) : Nat) : ℤ) * ulp p x := by
    rw [pow_mul_ulp]
    congr 1
    omega
  have above : ((2 ^ (p - 1) : Nat) : ℤ) ≤ x / ulp p x := by
    rw [le_div_iff₀ (ulp_pos x), ← first]
    exact_mod_cast Int.zpow_log_le_self one_lt_two positive
  rw [toFloat, first]
  exact mul_le_mul_of_nonneg_right (by exact_mod_cast le_nearestEven above) (ulp_pos x).le

theorem toFloat_pos (bits : 0 < p) (positive : 0 < x) : 0 < toFloat p x :=
  (zpow_pos two_pos _).trans_le (binade_le_toFloat bits positive)

theorem toFloat_mono (bits : 0 < p) (positive : 0 < x) (le : x ≤ y) :
    toFloat p x ≤ toFloat p y := by
  have logs : Int.log 2 x ≤ Int.log 2 y := Int.log_mono_right positive le
  rcases logs.lt_or_eq with less | same
  · calc toFloat p x ≤ 2 ^ (Int.log 2 x + 1) := toFloat_le_binade x
      _ ≤ 2 ^ Int.log 2 y := zpow_le_zpow_right₀ one_le_two (by omega)
      _ ≤ toFloat p y := binade_le_toFloat bits (positive.trans_le le)
  · have units : ulp p x = ulp p y := by rw [ulp, ulp, same]
    have quotients : x / ulp p y ≤ y / ulp p y :=
      div_le_div_of_nonneg_right le (ulp_pos y).le
    rw [toFloat, toFloat, units]
    exact mul_le_mul_of_nonneg_right (by exact_mod_cast nearestEven_mono quotients)
      (ulp_pos y).le

theorem toFloat_two_mul (positive : 0 < x) : toFloat p (2 * x) = 2 * toFloat p x := by
  have logs : Int.log 2 (2 * x) = Int.log 2 x + 1 := by
    have low := Int.zpow_log_le_self one_lt_two positive
    have high := Int.lt_zpow_succ_log_self one_lt_two x
    have positive' : 0 < 2 * x := by linarith
    apply le_antisymm
    · have : Int.log 2 (2 * x) < Int.log 2 x + 1 + 1 := by
        rw [← Int.lt_zpow_iff_log_lt one_lt_two positive', zpow_add_one₀ (by norm_num)]
        push_cast at high ⊢
        linarith
      omega
    · rw [← Int.zpow_le_iff_le_log one_lt_two positive', zpow_add_one₀ (by norm_num)]
      push_cast at low ⊢
      linarith
  have units : ulp p (2 * x) = 2 * ulp p x := by
    rw [ulp, ulp, logs, show Int.log 2 x + 1 + 1 - (p : ℤ) = Int.log 2 x + 1 - p + 1 by ring,
      zpow_add_one₀ two_ne_zero, mul_comm]
  rw [toFloat, toFloat, units, mul_div_mul_left _ _ two_ne_zero]
  ring

/-- An integer that fits the significand. -/
theorem toFloat_natCast (bits : 0 < p) {n : Nat} (fits : n ≤ 2 ^ p) : toFloat p n = n := by
  rcases Nat.eq_zero_or_pos n with rfl | positive
  · exact_mod_cast toFloat_zero
  rcases fits.lt_or_eq with less | rfl
  · have log : Int.log 2 (n : ℚ) = Nat.log 2 n := Int.log_natCast 2 n
    have below : Nat.log 2 n < p := Nat.log_lt_of_lt_pow positive.ne' less
    refine toFloat_of_multiple (k := n * 2 ^ (p - 1 - Nat.log 2 n)) ?_
    have unit : ulp p (n : ℚ) = ((2 : ℚ) ^ (p - 1 - Nat.log 2 n))⁻¹ := by
      rw [ulp, log, ← zpow_natCast, ← zpow_neg]
      congr 1
      omega
    rw [unit]
    push_cast
    field_simp
  · have log : Int.log 2 ((2 ^ p : Nat) : ℚ) = p := by
      rw [Int.log_natCast, Nat.log_pow one_lt_two]
    refine toFloat_of_multiple (k := (2 ^ (p - 1) : Nat)) ?_
    rw [pow_mul_ulp, log, Nat.cast_pow, Nat.cast_ofNat, ← zpow_natCast]
    congr 1
    omega

theorem toFloat_two_pow_mul (positive : 0 < x) (k : Nat) :
    toFloat p (2 ^ k * x) = 2 ^ k * toFloat p x := by
  induction k with
  | zero => simp
  | succ k ih =>
      have positive' : 0 < 2 ^ k * x := mul_pos (pow_pos two_pos k) positive
      rw [pow_succ', mul_assoc, toFloat_two_mul positive', ih, mul_assoc]

/-- A fraction over a power of two whose numerator fits. -/
theorem toFloat_div_two_pow (bits : 0 < p) {n : Nat} (fits : n ≤ 2 ^ p) (k : Nat) :
    toFloat p (n / 2 ^ k) = n / 2 ^ k := by
  rcases Nat.eq_zero_or_pos n with rfl | positive
  · simp
  have positive' : (0 : ℚ) < n / 2 ^ k := div_pos (by exact_mod_cast positive) (pow_pos two_pos k)
  have scaled : (2 : ℚ) ^ k * (n / 2 ^ k) = n := mul_div_cancel₀ _ (pow_pos two_pos k).ne'
  have exact_ := toFloat_two_pow_mul (p := p) positive' k
  rw [scaled, toFloat_natCast bits fits] at exact_
  rw [eq_div_iff (pow_pos two_pos k).ne', mul_comm]
  exact exact_.symm

end Float

end RunServer.Theory.Nearest
