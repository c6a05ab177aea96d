import Mathlib
import Edwards25519.Proofs.Curve.Order

/-!
# Quarter turns

Four points of the curve have an order that divides four, and they are the
multiples of `(sqrtMinusOne, 0)`. Adding this point exchanges the coordinates up
to the factor `sqrtMinusOne`. So two points differ by a point of such an order
exactly if some number of turns takes one to the other.
-/

namespace Edwards25519

open FieldElement

namespace AffinePoint

theorem rotate_rotate (P : AffinePoint) :
    P.rotate.rotate = { x := -P.x, y := -P.y } := by
  apply ext
  · change sqrtMinusOne * (sqrtMinusOne * P.x) = -P.x
    rw [← mul_assoc, sqrtMinusOne_mul_self, neg_one_mul]
  · change sqrtMinusOne * (sqrtMinusOne * P.y) = -P.y
    rw [← mul_assoc, sqrtMinusOne_mul_self, neg_one_mul]

end AffinePoint

namespace CurvePoint

def rotate (P : CurvePoint) : CurvePoint where
  toAffine := P.toAffine.rotate
  onCurve := AffinePoint.onCurve_rotate P.onCurve

theorem rotate_x (P : CurvePoint) :
    P.rotate.toAffine.x = sqrtMinusOne * P.toAffine.y :=
  rfl

theorem rotate_y (P : CurvePoint) :
    P.rotate.toAffine.y = sqrtMinusOne * P.toAffine.x :=
  rfl

theorem rotate_x_mul_y (P : CurvePoint) :
    P.rotate.toAffine.x * P.rotate.toAffine.y = -(P.toAffine.x * P.toAffine.y) := by
  rw [rotate_x, rotate_y]
  linear_combination P.toAffine.x * P.toAffine.y * sqrtMinusOne_mul_self

theorem toAffine_rotate_rotate (P : CurvePoint) :
    P.rotate.rotate.toAffine = { x := -P.toAffine.x, y := -P.toAffine.y } :=
  AffinePoint.rotate_rotate P.toAffine

theorem add_rotate (P Q : CurvePoint) :
    P + Q.rotate = (P + Q).rotate :=
  ext (AffinePoint.add_rotate P.toAffine Q.toAffine)

theorem rotate_eq_add (P : CurvePoint) :
    P.rotate = P + rotate 0 := by
  rw [add_rotate, add_zero]

theorem rotate_rotate_rotate_rotate (P : CurvePoint) :
    P.rotate.rotate.rotate.rotate = P := by
  apply ext
  rw [toAffine_rotate_rotate, toAffine_rotate_rotate, neg_neg, neg_neg]

theorem four_nsmul_rotate_zero :
    4 • rotate 0 = 0 := by
  have hturns := rotate_rotate_rotate_rotate 0
  rw [rotate_eq_add (rotate 0).rotate.rotate, rotate_eq_add (rotate 0).rotate,
    rotate_eq_add (rotate 0)] at hturns
  have hsum : 4 • rotate 0 = rotate 0 + rotate 0 + rotate 0 + rotate 0 := by abel
  exact hsum.trans hturns

theorem four_nsmul_rotate (P : CurvePoint) :
    4 • P.rotate = 4 • P := by
  rw [rotate_eq_add, nsmul_add, four_nsmul_rotate_zero, add_zero]

/-! ## Points of an order that divides four -/

theorem x_eq_zero_of_two_nsmul {P : CurvePoint} (h : 2 • P = 0) :
    P.toAffine.x = 0 := by
  rw [two_nsmul] at h
  have hx : P.toAffine.x = -P.toAffine.x :=
    congrArg (fun Q => Q.toAffine.x) (eq_neg_of_add_eq_zero_left h)
  have htwo : 2 * P.toAffine.x = 0 := by linear_combination hx
  exact (mul_eq_zero.mp htwo).resolve_left two_ne_zero

/-- The double of a point has the `x` zero only if a coordinate of the point is zero. -/
theorem x_or_y_eq_zero_of_four_nsmul {P : CurvePoint} (h : 4 • P = 0) :
    P.toAffine.x = 0 ∨ P.toAffine.y = 0 := by
  have hdouble : 2 • (P + P) = 0 := by
    rw [← two_nsmul, ← mul_nsmul]
    exact h
  have hx := x_eq_zero_of_two_nsmul hdouble
  have hsum := AffinePoint.add_x_mul P.onCurve P.onCurve
  rw [← toAffine_add, hx, zero_mul] at hsum
  have hproduct : 2 * (P.toAffine.x * P.toAffine.y) = 0 := by linear_combination -hsum
  exact mul_eq_zero.mp ((mul_eq_zero.mp hproduct).resolve_left two_ne_zero)

theorem eq_turn_of_x_or_y_eq_zero {P : CurvePoint}
    (h : P.toAffine.x = 0 ∨ P.toAffine.y = 0) :
    P = 0 ∨ P = rotate 0 ∨ P = (rotate 0).rotate ∨ P = (rotate 0).rotate.rotate := by
  have hcurve := P.onCurve.equation
  rcases h with hx | hy
  · have hsquare : P.toAffine.y * P.toAffine.y = 1 := by
      rw [hx] at hcurve
      linear_combination hcurve
    rcases mul_self_eq_one_iff.mp hsquare with hone | hneg
    · left
      exact ext (AffinePoint.ext hx hone)
    · right
      right
      left
      apply ext
      rw [toAffine_rotate_rotate]
      exact AffinePoint.ext (hx.trans neg_zero.symm) hneg
  · have hsquare : P.toAffine.x * P.toAffine.x = sqrtMinusOne * sqrtMinusOne := by
      rw [hy] at hcurve
      rw [sqrtMinusOne_mul_self]
      linear_combination -hcurve
    rcases mul_self_eq_mul_self_iff.mp hsquare with hpos | hneg
    · right
      left
      apply ext
      apply AffinePoint.ext
      · exact hpos.trans (mul_one sqrtMinusOne).symm
      · exact hy.trans (mul_zero sqrtMinusOne).symm
    · right
      right
      right
      apply ext
      rw [toAffine_rotate_rotate]
      apply AffinePoint.ext
      · exact hneg.trans (congrArg Neg.neg (mul_one sqrtMinusOne).symm)
      · exact hy.trans ((congrArg Neg.neg (mul_zero sqrtMinusOne)).trans neg_zero).symm

theorem four_nsmul_eq_zero_iff (P : CurvePoint) :
    4 • P = 0 <-> P.toAffine.x = 0 ∨ P.toAffine.y = 0 := by
  constructor
  · exact x_or_y_eq_zero_of_four_nsmul
  · intro h
    rcases eq_turn_of_x_or_y_eq_zero h with rfl | rfl | rfl | rfl
    · exact nsmul_zero 4
    · exact four_nsmul_rotate_zero
    · rw [four_nsmul_rotate, four_nsmul_rotate_zero]
    · rw [four_nsmul_rotate, four_nsmul_rotate, four_nsmul_rotate_zero]

theorem eq_turn_of_four_nsmul_eq {P Q : CurvePoint} (h : 4 • P = 4 • Q) :
    P = Q ∨ P = Q.rotate ∨ P = Q.rotate.rotate ∨ P = Q.rotate.rotate.rotate := by
  have hdiff : 4 • (P - Q) = 0 := by rw [nsmul_sub, h, sub_self]
  have hP : P = Q + (P - Q) := (add_sub_cancel Q P).symm
  have hcoordinate := (four_nsmul_eq_zero_iff (P - Q)).mp hdiff
  rcases eq_turn_of_x_or_y_eq_zero hcoordinate with hzero | hone | htwo | hthree
  · left
    rw [hP, hzero, add_zero]
  · right
    left
    rw [hP, hone, add_rotate, add_zero]
  · right
    right
    left
    rw [hP, htwo, add_rotate, add_rotate, add_zero]
  · right
    right
    right
    rw [hP, hthree, add_rotate, add_rotate, add_rotate, add_zero]

end CurvePoint

end Edwards25519
