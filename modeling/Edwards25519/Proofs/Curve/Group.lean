import Mathlib
import Edwards25519.Curve.Group
import Edwards25519.Proofs.Curve.Identities
import Edwards25519.Proofs.FieldElement.SquareRoot

/-!
# The group of the curve

The addition law is total on the points of the curve: its denominators do not
vanish and its sums are on the curve. Points with the proof that they solve the
equation form a commutative group.
-/

namespace Edwards25519

open FieldElement

theorem not_isSquare_d :
    ¬ IsSquare d := by
  apply not_isSquare_of_character
  decide +kernel

namespace AffinePoint

theorem ext {P Q : AffinePoint} (hx : P.x = Q.x) (hy : P.y = Q.y) :
    P = Q := by
  cases P
  cases Q
  cases hx
  cases hy
  rfl

/-! ## Coordinates of results -/

def denominatorProduct (P Q : AffinePoint) : FieldElement :=
  d * P.x * Q.x * P.y * Q.y

theorem add_x (P Q : AffinePoint) :
    (P + Q).x = (P.x * Q.y + P.y * Q.x) / (1 + denominatorProduct P Q) :=
  rfl

theorem add_y (P Q : AffinePoint) :
    (P + Q).y = (P.y * Q.y + P.x * Q.x) / (1 - denominatorProduct P Q) :=
  rfl

@[simp] theorem neg_x (P : AffinePoint) :
    (-P).x = -P.x :=
  rfl

@[simp] theorem neg_y (P : AffinePoint) :
    (-P).y = P.y :=
  rfl

protected theorem sub_eq_add_neg (P Q : AffinePoint) :
    P - Q = P + -Q :=
  rfl

@[simp] theorem identity_x :
    identity.x = 0 :=
  rfl

@[simp] theorem identity_y :
    identity.y = 1 :=
  rfl

theorem onCurve_iff (P : AffinePoint) :
    P.OnCurve <-> SolvesEdwards d P.x P.y :=
  Iff.rfl

theorem OnCurve.equation {P : AffinePoint} (hP : P.OnCurve) :
    P.y * P.y - P.x * P.x = 1 + d * (P.x * P.x) * (P.y * P.y) :=
  hP

/-! ## Denominators -/

theorem denominatorProduct_mul_self_ne {P Q : AffinePoint}
    (hP : P.OnCurve) (hQ : Q.OnCurve) :
    denominatorProduct P Q * denominatorProduct P Q ≠ 1 :=
  edwards_denominator_ne sqrtMinusOne_mul_self not_isSquare_d two_ne_zero hP hQ

theorem one_add_denominatorProduct_ne_zero {P Q : AffinePoint}
    (hP : P.OnCurve) (hQ : Q.OnCurve) :
    1 + denominatorProduct P Q ≠ 0 := by
  intro h
  apply denominatorProduct_mul_self_ne hP hQ
  linear_combination (denominatorProduct P Q - 1) * h

theorem one_sub_denominatorProduct_ne_zero {P Q : AffinePoint}
    (hP : P.OnCurve) (hQ : Q.OnCurve) :
    1 - denominatorProduct P Q ≠ 0 := by
  intro h
  apply denominatorProduct_mul_self_ne hP hQ
  linear_combination (-denominatorProduct P Q - 1) * h

theorem add_x_mul {P Q : AffinePoint} (hP : P.OnCurve) (hQ : Q.OnCurve) :
    (P + Q).x * (1 + denominatorProduct P Q) = P.x * Q.y + P.y * Q.x := by
  rw [add_x, div_mul_cancel₀ _ (one_add_denominatorProduct_ne_zero hP hQ)]

theorem add_y_mul {P Q : AffinePoint} (hP : P.OnCurve) (hQ : Q.OnCurve) :
    (P + Q).y * (1 - denominatorProduct P Q) = P.y * Q.y + P.x * Q.x := by
  rw [add_y, div_mul_cancel₀ _ (one_sub_denominatorProduct_ne_zero hP hQ)]

/-! ## Closure -/

theorem onCurve_identity :
    identity.OnCurve := by
  rw [onCurve_iff, SolvesEdwards, identity_x, identity_y]
  ring

theorem onCurve_neg {P : AffinePoint} (hP : P.OnCurve) :
    (-P).OnCurve := by
  rw [onCurve_iff, SolvesEdwards, neg_x, neg_y, neg_mul_neg]
  exact hP

theorem onCurve_add {P Q : AffinePoint} (hP : P.OnCurve) (hQ : Q.OnCurve) :
    (P + Q).OnCurve := by
  have hplus := one_add_denominatorProduct_ne_zero hP hQ
  have hminus := one_sub_denominatorProduct_ne_zero hP hQ
  have hsum := edwards_sum_equation hP hQ
  rw [onCurve_iff, SolvesEdwards, add_x, add_y]
  field_simp
  rw [denominatorProduct]
  linear_combination hsum

/-! ## Laws -/

protected theorem add_comm (P Q : AffinePoint) :
    P + Q = Q + P := by
  have ht : denominatorProduct P Q = denominatorProduct Q P := by
    unfold denominatorProduct
    ring
  apply ext
  · rw [add_x, add_x, ht, add_comm, mul_comm P.y, mul_comm P.x]
  · rw [add_y, add_y, ht, mul_comm P.y, mul_comm P.x]

protected theorem identity_add (P : AffinePoint) :
    identity + P = P := by
  apply ext
  · simp [add_x, denominatorProduct]
  · simp [add_y, denominatorProduct]

protected theorem neg_add_cancel {P : AffinePoint} (hP : P.OnCurve) :
    -P + P = identity := by
  have hminus := one_sub_denominatorProduct_ne_zero (onCurve_neg hP) hP
  have hcancel : -P.x * P.y + P.y * P.x = 0 := by ring
  apply ext
  · rw [add_x, neg_x, neg_y, identity_x, hcancel, zero_div]
  · rw [add_y, identity_y, div_eq_one_iff_eq hminus, denominatorProduct, neg_x, neg_y]
    linear_combination hP.equation

/-! ## Associativity -/

/-- The sum with the point `(sqrtMinusOne, 0)` of order four. -/
def rotate (P : AffinePoint) : AffinePoint where
  x := sqrtMinusOne * P.y
  y := sqrtMinusOne * P.x

theorem onCurve_rotate {P : AffinePoint} (hP : P.OnCurve) :
    P.rotate.OnCurve := by
  rw [onCurve_iff, SolvesEdwards, rotate]
  linear_combination hP.equation +
    (P.x * P.x - P.y * P.y -
      d * (P.x * P.x) * (P.y * P.y) * (sqrtMinusOne * sqrtMinusOne - 1)) *
        sqrtMinusOne_mul_self

theorem denominatorProduct_rotate (P Q : AffinePoint) :
    denominatorProduct P Q.rotate = -denominatorProduct P Q := by
  unfold denominatorProduct rotate
  linear_combination d * P.x * Q.x * P.y * Q.y * sqrtMinusOne_mul_self

theorem add_rotate (P Q : AffinePoint) :
    P + Q.rotate = (P + Q).rotate := by
  apply ext
  · have hx : (P + Q).rotate.x = sqrtMinusOne * (P + Q).y := rfl
    rw [hx, add_x, add_y, denominatorProduct_rotate, ← sub_eq_add_neg, rotate]
    ring
  · have hy : (P + Q).rotate.y = sqrtMinusOne * (P + Q).x := rfl
    rw [hy, add_x, add_y, denominatorProduct_rotate, sub_neg_eq_add, rotate]
    ring

theorem add_assoc_x {P Q R : AffinePoint}
    (hP : P.OnCurve) (hQ : Q.OnCurve) (hR : R.OnCurve) :
    (P + Q + R).x = (P + (Q + R)).x := by
  have hleft := one_add_denominatorProduct_ne_zero (onCurve_add hP hQ) hR
  have hright := one_add_denominatorProduct_ne_zero hP (onCurve_add hQ hR)
  have hassoc := edwards_assoc_equation hP hQ hR
  have hx := add_x_mul hP hQ
  have hy := add_y_mul hP hQ
  have hx' := add_x_mul hQ hR
  have hy' := add_y_mul hQ hR
  rw [add_x (P + Q) R, add_x P (Q + R), div_eq_div_iff hleft hright]
  -- The inner sums are known up to their denominators, whose product is cancelled.
  have hne : (1 + denominatorProduct P Q) * (1 - denominatorProduct P Q) *
      ((1 + denominatorProduct Q R) * (1 - denominatorProduct Q R)) ≠ 0 :=
    mul_ne_zero
      (mul_ne_zero (one_add_denominatorProduct_ne_zero hP hQ)
        (one_sub_denominatorProduct_ne_zero hP hQ))
      (mul_ne_zero (one_add_denominatorProduct_ne_zero hQ hR)
        (one_sub_denominatorProduct_ne_zero hQ hR))
  apply mul_left_cancel₀ hne
  change
    ((P.x * Q.y + P.y * Q.x) * (1 - denominatorProduct P Q) * R.y +
          (P.y * Q.y + P.x * Q.x) * (1 + denominatorProduct P Q) * R.x) *
        ((1 + denominatorProduct Q R) * (1 - denominatorProduct Q R) +
          d * P.x * (Q.x * R.y + Q.y * R.x) * P.y * (Q.y * R.y + Q.x * R.x)) =
      (P.x * (Q.y * R.y + Q.x * R.x) * (1 + denominatorProduct Q R) +
          P.y * (Q.x * R.y + Q.y * R.x) * (1 - denominatorProduct Q R)) *
        ((1 + denominatorProduct P Q) * (1 - denominatorProduct P Q) +
          d * (P.x * Q.y + P.y * Q.x) * R.x * (P.y * Q.y + P.x * Q.x) * R.y) at hassoc
  rw [← hx, ← hy, ← hx', ← hy'] at hassoc
  unfold denominatorProduct at *
  linear_combination hassoc

protected theorem add_assoc {P Q R : AffinePoint}
    (hP : P.OnCurve) (hQ : Q.OnCurve) (hR : R.OnCurve) :
    P + Q + R = P + (Q + R) := by
  apply ext
  · exact add_assoc_x hP hQ hR
  · have hrotated := add_assoc_x hP hQ (onCurve_rotate hR)
    rw [add_rotate, add_rotate, add_rotate] at hrotated
    exact mul_left_cancel₀ sqrtMinusOne_ne_zero hrotated

end AffinePoint

/-! ## Points with their equation -/

structure CurvePoint where
  toAffine : AffinePoint
  onCurve : toAffine.OnCurve

namespace CurvePoint

theorem ext {P Q : CurvePoint} (h : P.toAffine = Q.toAffine) :
    P = Q := by
  cases P
  cases Q
  cases h
  rfl

instance : DecidableEq CurvePoint := fun P Q =>
  decidable_of_iff (P.toAffine = Q.toAffine) ⟨ext, congrArg toAffine⟩

instance : Zero CurvePoint := ⟨⟨AffinePoint.identity, AffinePoint.onCurve_identity⟩⟩

instance : Add CurvePoint :=
  ⟨fun P Q => ⟨P.toAffine + Q.toAffine, AffinePoint.onCurve_add P.onCurve Q.onCurve⟩⟩

instance : Neg CurvePoint := ⟨fun P => ⟨-P.toAffine, AffinePoint.onCurve_neg P.onCurve⟩⟩

instance : AddCommGroup CurvePoint where
  add_assoc P Q R := ext (AffinePoint.add_assoc P.onCurve Q.onCurve R.onCurve)
  zero_add P := ext (AffinePoint.identity_add P.toAffine)
  add_zero P := ext
    ((AffinePoint.add_comm P.toAffine AffinePoint.identity).trans
      (AffinePoint.identity_add P.toAffine))
  nsmul := nsmulRec
  zsmul := zsmulRec
  neg_add_cancel P := ext (AffinePoint.neg_add_cancel P.onCurve)
  add_comm P Q := ext (AffinePoint.add_comm P.toAffine Q.toAffine)

@[simp] theorem toAffine_zero :
    (0 : CurvePoint).toAffine = AffinePoint.identity :=
  rfl

@[simp] theorem toAffine_add (P Q : CurvePoint) :
    (P + Q).toAffine = P.toAffine + Q.toAffine :=
  rfl

@[simp] theorem toAffine_neg (P : CurvePoint) :
    (-P).toAffine = -P.toAffine :=
  rfl

@[simp] theorem toAffine_sub (P Q : CurvePoint) :
    (P - Q).toAffine = P.toAffine - Q.toAffine := by
  rw [sub_eq_add_neg]
  rfl

end CurvePoint

end Edwards25519
