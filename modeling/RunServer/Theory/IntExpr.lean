/-
# Theory.IntExpr -- int expressions that do or do not overflow

A C expression over 32-bit `int`s has two values: `eval`, where every operation
stores its result in an `int`, and `exact`, over the integers.  The language gives
an overflow no meaning; `eval` is what two's complement hardware does.

An expression is `Exact` when the two agree on it and on everything it is computed
from.  `exact_op_iff` decides that one operation at a time, by the exact value
alone.  Division truncates towards zero, and its divisor is not 0.
-/
import RunServer.Theory.Int32

namespace RunServer.Theory

set_option autoImplicit false

/-! ## Expressions -/

inductive IntOp where
  | add
  | sub
  | mul
  | div
  | shl
  deriving DecidableEq, Repr

def IntOp.apply : IntOp → Int → Int → Int
  | .add, x, y => x + y
  | .sub, x, y => x - y
  | .mul, x, y => x * y
  | .div, x, y => Int.tdiv x y
  | .shl, x, y => x * 2 ^ y.toNat

inductive IntExpr where
  | val (x : Int)
  | op (o : IntOp) (left right : IntExpr)
  deriving DecidableEq, Repr

namespace IntExpr

/-- With every result stored in an `int`. -/
def eval : IntExpr → Int
  | val x => int32 x
  | op o left right => int32 (o.apply left.eval right.eval)

/-- Over the integers. -/
def exact : IntExpr → Int
  | val x => x
  | op o left right => o.apply left.exact right.exact

/-- The expression and everything it is computed from. -/
def subterms : IntExpr → List IntExpr
  | val x => [val x]
  | op o left right => op o left right :: (left.subterms ++ right.subterms)

/-- Nothing overflows. -/
def Exact (e : IntExpr) : Prop := ∀ sub ∈ e.subterms, sub.eval = sub.exact

/-! ## Rules -/

theorem Exact.eq {e : IntExpr} (held : e.Exact) : e.eval = e.exact := by
  apply held
  cases e <;> simp [subterms]

theorem int32_eq_iff {x : Int} : int32 x = x ↔ Fits x := by
  constructor
  · intro same
    rw [← same]
    exact int32_fits x
  · exact int32_of_fits

@[simp] theorem exact_val_iff {x : Int} : (val x).Exact ↔ Fits x := by
  simp [Exact, subterms, eval, exact, int32_eq_iff]

/-- **One operation**: both sides are exact, and the exact result fits. -/
@[simp] theorem exact_op_iff {o : IntOp} {left right : IntExpr} :
    (op o left right).Exact ↔
      left.Exact ∧ right.Exact ∧ Fits (o.apply left.exact right.exact) := by
  constructor
  · intro held
    have first : left.Exact := fun sub member => held sub (by simp [subterms, member])
    have second : right.Exact := fun sub member => held sub (by simp [subterms, member])
    have whole := held.eq
    unfold eval exact at whole
    rw [first.eq, second.eq, int32_eq_iff] at whole
    exact ⟨first, second, whole⟩
  · rintro ⟨first, second, fits⟩ sub member
    simp only [subterms, List.mem_cons, List.mem_append] at member
    rcases member with rfl | inLeft | inRight
    · unfold eval exact
      rw [first.eq, second.eq, int32_of_fits fits]
    · exact first sub inLeft
    · exact second sub inRight

end IntExpr

/-! ## Quotients -/

theorem tdiv_between {x d : Int} (lower upper : Int) (pos : 0 < d) (above : lower * d ≤ x)
    (below : x ≤ upper * d) : lower ≤ Int.tdiv x d ∧ Int.tdiv x d ≤ upper := by
  have first := Int.tdiv_le_tdiv pos above
  have second := Int.tdiv_le_tdiv pos below
  rw [Int.mul_tdiv_cancel _ pos.ne'] at first second
  exact ⟨first, second⟩

/-- A quotient by a positive number fits where the dividend does. -/
theorem fits_tdiv {x d : Int} (fits : Fits x) (pos : 0 < d) : Fits (Int.tdiv x d) := by
  unfold Fits at fits ⊢
  rcases le_total 0 x with up | down
  · have above := Int.tdiv_nonneg up pos.le
    have below := Int.tdiv_le_self d up
    omega
  · have above := Int.tdiv_nonneg (Int.neg_nonneg_of_nonpos down) pos.le
    have below := Int.tdiv_le_self d (Int.neg_nonneg_of_nonpos down)
    rw [Int.neg_tdiv] at above below
    omega

end RunServer.Theory
