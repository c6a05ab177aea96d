import Mathlib
import Edwards25519.Proofs.Curve.Even
import Edwards25519.Proofs.Curve.Rotation
import Edwards25519.Proofs.Ristretto.Decoding

/-!
# Encoding classes

The encoder takes an even point to the field element that stands for one of the
turns of the point. Two turns of a point are representatives only if they are
equal, so the field element depends on nothing but the class of the point.
-/

namespace Edwards25519
namespace Ristretto

open FieldElement

/-! ## The two ways to encode -/

/-- The product that is one if the inverse square root is one of `u1 t ^ 2`. -/
def rootProduct (P : AffinePoint) (root : FieldElement) : FieldElement :=
  root * ((1 + P.y) * (1 - P.y)) * (root * (P.x * P.y) * (P.x * P.y))

/-- The field element that the encoder computes after it has decided on a rotation. -/
def encodeTurned (P : AffinePoint) (root : FieldElement) (rotate : Bool) : FieldElement :=
  let x := if rotate then P.y * sqrtMinusOne else P.x
  let y := if rotate then P.x * sqrtMinusOne else P.y
  let denominator :=
    if rotate then root * ((1 + P.y) * (1 - P.y)) * invSqrtAMinusD else root * (P.x * P.y)
  let turned := negateIf (x * rootProduct P root).isNegative y
  (denominator * (1 - turned)).abs

def encodingRoot (P : AffinePoint) : FieldElement :=
  (inverseSqrt ((1 + P.y) * (1 - P.y) * (P.x * P.y).square)).root

theorem toFieldElement_eq (P : AffinePoint) :
    toFieldElement P =
      encodeTurned P (encodingRoot P)
        (P.x * P.y * rootProduct P (encodingRoot P)).isNegative :=
  rfl

theorem encodeTurned_false (P : AffinePoint) (root : FieldElement) :
    encodeTurned P root false =
      (root * (P.x * P.y) * (1 - negateIf (P.x * rootProduct P root).isNegative P.y)).abs :=
  rfl

theorem encodeTurned_true (P : AffinePoint) (root : FieldElement) :
    encodeTurned P root true =
      (root * ((1 + P.y) * (1 - P.y)) * invSqrtAMinusD *
        (1 - negateIf (P.y * sqrtMinusOne * rootProduct P root).isNegative
          (P.x * sqrtMinusOne))).abs :=
  rfl

/-! ## The point behind the field element -/

/-- The point or, if its `x` is negative, the half turn of it. -/
def positiveTurn (P : CurvePoint) : CurvePoint :=
  if P.toAffine.x.isNegative then P.rotate.rotate else P

theorem four_nsmul_positiveTurn (P : CurvePoint) :
    4 • positiveTurn P = 4 • P := by
  unfold positiveTurn
  cases P.toAffine.x.isNegative with
  | false => rfl
  | true =>
      rw [if_pos rfl, CurvePoint.four_nsmul_rotate, CurvePoint.four_nsmul_rotate]

theorem positiveTurn_x (P : CurvePoint) :
    (positiveTurn P).toAffine.x = P.toAffine.x.abs := by
  unfold positiveTurn FieldElement.abs
  cases P.toAffine.x.isNegative with
  | false => rfl
  | true =>
      rw [if_pos rfl, CurvePoint.toAffine_rotate_rotate, negateIf_true]

theorem positiveTurn_y (P : CurvePoint) :
    (positiveTurn P).toAffine.y = negateIf P.toAffine.x.isNegative P.toAffine.y := by
  unfold positiveTurn
  cases P.toAffine.x.isNegative with
  | false => rfl
  | true =>
      rw [if_pos rfl, CurvePoint.toAffine_rotate_rotate, negateIf_true]

theorem positiveTurn_x_mul_y (P : CurvePoint) :
    (positiveTurn P).toAffine.x * (positiveTurn P).toAffine.y =
      P.toAffine.x * P.toAffine.y := by
  rw [positiveTurn_x, positiveTurn_y, FieldElement.abs]
  cases P.toAffine.x.isNegative with
  | false => rfl
  | true => rw [negateIf_true, negateIf_true, neg_mul_neg]

/-- An inverse square root of `1 - y ^ 2` gives the field element of a turn of the point. -/
theorem isRepresentative_positiveTurn {P : CurvePoint} {denominator : FieldElement}
    (ht : (P.toAffine.x * P.toAffine.y).isNegative = false) (hy : P.toAffine.y ≠ 0)
    (hroot : denominator * denominator * (1 - P.toAffine.y * P.toAffine.y) = 1) :
    IsRepresentative (positiveTurn P).toAffine
      (denominator * (1 - negateIf P.toAffine.x.isNegative P.toAffine.y)).abs := by
  rw [← positiveTurn_y]
  have hsquare : (positiveTurn P).toAffine.y * (positiveTurn P).toAffine.y =
      P.toAffine.y * P.toAffine.y := by
    rw [positiveTurn_y, negateIf_mul_self]
  constructor
  · exact (positiveTurn P).onCurve
  · rw [abs_mul_self]
    rw [← hsquare] at hroot
    linear_combination (1 - (positiveTurn P).toAffine.y) * hroot
  · exact isNegative_abs _
  · rw [positiveTurn_x]
    exact isNegative_abs _
  · rw [positiveTurn_x_mul_y]
    exact ht
  · intro hzero
    rw [hzero, mul_zero, eq_comm, mul_self_eq_zero] at hsquare
    exact hy hsquare

/-! ## The inverse square root -/

section Root

variable {P : CurvePoint}

theorem one_sub_y_mul_one_add_x (P : CurvePoint) :
    (1 - P.toAffine.y * P.toAffine.y) * (1 + P.toAffine.x * P.toAffine.x) *
        (invSqrtAMinusD * invSqrtAMinusD) =
      P.toAffine.x * P.toAffine.y * (P.toAffine.x * P.toAffine.y) := by
  have hcurve := P.onCurve.equation
  linear_combination P.toAffine.x * P.toAffine.x * (P.toAffine.y * P.toAffine.y) *
      neg_d_sub_one_mul_invSqrtAMinusD -
    invSqrtAMinusD * invSqrtAMinusD * hcurve

theorem encodingRoot_mul (heven : P ∈ CurvePoint.even)
    (ht : P.toAffine.x * P.toAffine.y ≠ 0) :
    rootProduct P.toAffine (encodingRoot P.toAffine) = 1 := by
  rcases (CurvePoint.mem_even_iff P).mp heven with ⟨r, hr⟩
  have hr0 : r ≠ 0 := by
    intro heq
    subst heq
    have hproduct := one_sub_y_mul_one_add_x P
    rw [hr, mul_zero, zero_mul, zero_mul] at hproduct
    exact mul_ne_zero ht ht hproduct.symm
  have hsquare : (inverseSqrt ((1 + P.toAffine.y) * (1 - P.toAffine.y) *
      (P.toAffine.x * P.toAffine.y).square)).isSquare = true := by
    apply (sqrtRatio_isSquare_iff 1 _).mpr
    refine ⟨1 / (r * (P.toAffine.x * P.toAffine.y)), ?_⟩
    have hfactor : (1 + P.toAffine.y) * (1 - P.toAffine.y) = r * r := by
      linear_combination hr
    rw [hfactor, Residue.square_eq_mul]
    field_simp
    exact div_self ht
  have hroot := mul_root_of_isSquare (u := 1) hsquare
  rw [Residue.square_eq_mul] at hroot
  rw [rootProduct, encodingRoot, Residue.square_eq_mul, inverseSqrt]
  linear_combination hroot

/-! ## The field element of a point -/

theorem toFieldElement_of_not_negative (heven : P ∈ CurvePoint.even)
    (hne : P.toAffine.x * P.toAffine.y ≠ 0)
    (ht : (P.toAffine.x * P.toAffine.y).isNegative = false) :
    IsRepresentative (positiveTurn P).toAffine (toFieldElement P.toAffine) := by
  have hproduct := encodingRoot_mul heven hne
  rw [toFieldElement_eq, hproduct, mul_one, ht, encodeTurned_false, hproduct, mul_one]
  apply isRepresentative_positiveTurn ht (right_ne_zero_of_mul hne)
  rw [rootProduct] at hproduct
  linear_combination hproduct

theorem toFieldElement_of_negative (heven : P ∈ CurvePoint.even)
    (hne : P.toAffine.x * P.toAffine.y ≠ 0)
    (ht : (P.toAffine.x * P.toAffine.y).isNegative = true) :
    IsRepresentative (positiveTurn P.rotate).toAffine (toFieldElement P.toAffine) := by
  have hproduct := encodingRoot_mul heven hne
  have hx : P.toAffine.y * sqrtMinusOne = P.rotate.toAffine.x := by
    rw [CurvePoint.rotate_x, mul_comm]
  have hy : P.toAffine.x * sqrtMinusOne = P.rotate.toAffine.y := by
    rw [CurvePoint.rotate_y, mul_comm]
  rw [toFieldElement_eq, hproduct, mul_one, ht]
  rw [encodeTurned_true, hproduct, mul_one, hx, hy]
  apply isRepresentative_positiveTurn
  · rw [CurvePoint.rotate_x_mul_y, isNegative_neg _ hne, ht]
    rfl
  · rw [CurvePoint.rotate_y]
    exact mul_ne_zero sqrtMinusOne_ne_zero (left_ne_zero_of_mul hne)
  · have hinverse := one_sub_y_mul_one_add_x P
    rw [rootProduct] at hproduct
    rw [CurvePoint.rotate_y]
    generalize encodingRoot P.toAffine = root at hproduct ⊢
    linear_combination hproduct +
      root * root * ((1 + P.toAffine.y) * (1 - P.toAffine.y)) * hinverse -
      (root * ((1 + P.toAffine.y) * (1 - P.toAffine.y)) * invSqrtAMinusD) *
        (root * ((1 + P.toAffine.y) * (1 - P.toAffine.y)) * invSqrtAMinusD) *
        (P.toAffine.x * P.toAffine.x) * sqrtMinusOne_mul_self

theorem toFieldElement_of_x_mul_y_eq_zero (ht : P.toAffine.x * P.toAffine.y = 0) :
    toFieldElement P.toAffine = 0 := by
  rw [toFieldElement_eq, ht, zero_mul, isNegative_zero]
  rw [encodeTurned_false, ht, mul_zero, zero_mul, abs_zero]

theorem isRepresentative_identity :
    IsRepresentative AffinePoint.identity 0 where
  onCurve := AffinePoint.onCurve_identity
  s_eq := by rw [AffinePoint.identity_y, sub_self, zero_mul, zero_mul]
  s_sign := isNegative_zero
  x_sign := isNegative_zero
  t_sign := by
    rw [AffinePoint.identity_x, zero_mul]
    exact isNegative_zero
  y_ne_zero := one_ne_zero

/-- The encoder finds the field element of the class of an even point. -/
theorem exists_isRepresentative (heven : P ∈ CurvePoint.even) :
    exists Q : CurvePoint,
      4 • Q = 4 • P ∧ IsRepresentative Q.toAffine (toFieldElement P.toAffine) := by
  by_cases hne : P.toAffine.x * P.toAffine.y = 0
  · refine ⟨0, ?_, ?_⟩
    · rw [nsmul_zero, eq_comm, CurvePoint.four_nsmul_eq_zero_iff]
      exact mul_eq_zero.mp hne
    · rw [toFieldElement_of_x_mul_y_eq_zero hne]
      exact isRepresentative_identity
  · cases ht : (P.toAffine.x * P.toAffine.y).isNegative with
    | false =>
        exact ⟨positiveTurn P, four_nsmul_positiveTurn P,
          toFieldElement_of_not_negative heven hne ht⟩
    | true =>
        refine ⟨positiveTurn P.rotate, ?_, toFieldElement_of_negative heven hne ht⟩
        rw [four_nsmul_positiveTurn, CurvePoint.four_nsmul_rotate]

end Root

/-! ## One representative for each class -/

theorem IsRepresentative.mem_even {P : CurvePoint} {s : FieldElement}
    (h : IsRepresentative P.toAffine s) :
    P ∈ CurvePoint.even := by
  rw [CurvePoint.mem_even_iff]
  refine ⟨s * (1 + P.toAffine.y), ?_⟩
  linear_combination -(1 + P.toAffine.y) * h.s_eq

theorem IsRepresentative.eq_of_point {P : AffinePoint} {s s' : FieldElement}
    (h : IsRepresentative P s) (h' : IsRepresentative P s') :
    s = s' := by
  apply eq_of_mul_self_eq
  · apply mul_right_cancel₀ h.one_add_y_ne_zero
    rw [h.s_eq, h'.s_eq]
  · rw [h.s_sign, h'.s_sign]

theorem not_isRepresentative_halfTurn {P : CurvePoint} {s s' : FieldElement}
    (h : IsRepresentative P.toAffine s) (h' : IsRepresentative P.rotate.rotate.toAffine s') :
    False := by
  rw [CurvePoint.toAffine_rotate_rotate] at h'
  have hx : P.toAffine.x = 0 := by
    by_contra hne
    have hsign := isNegative_neg _ hne
    rw [h'.x_sign, h.x_sign] at hsign
    cases hsign
  have hy : P.toAffine.y * P.toAffine.y = 1 := by
    have hcurve := h.onCurve.equation
    rw [hx] at hcurve
    linear_combination hcurve
  rcases mul_self_eq_one_iff.mp hy with hone | hneg
  · apply h'.one_add_y_ne_zero
    change 1 + -P.toAffine.y = 0
    rw [hone, add_neg_cancel]
  · apply h.one_add_y_ne_zero
    rw [hneg, add_neg_cancel]

theorem not_isRepresentative_rotate {P : CurvePoint} {s s' : FieldElement}
    (h : IsRepresentative P.toAffine s) (h' : IsRepresentative P.rotate.toAffine s') :
    False := by
  have hproduct : P.toAffine.x * P.toAffine.y = 0 := by
    by_contra hne
    have hsign := h'.t_sign
    rw [CurvePoint.rotate_x_mul_y, isNegative_neg _ hne, h.t_sign] at hsign
    cases hsign
  rcases mul_eq_zero.mp hproduct with hzero | hzero
  · apply h'.y_ne_zero
    rw [CurvePoint.rotate_y, hzero, mul_zero]
  · exact h.y_ne_zero hzero

theorem IsRepresentative.eq_of_class {P Q : CurvePoint} {s s' : FieldElement}
    (hP : IsRepresentative P.toAffine s) (hQ : IsRepresentative Q.toAffine s')
    (h : 4 • P = 4 • Q) :
    s = s' := by
  rcases CurvePoint.eq_turn_of_four_nsmul_eq h with rfl | rfl | rfl | rfl
  · exact hP.eq_of_point hQ
  · exact (not_isRepresentative_rotate hQ hP).elim
  · exact (not_isRepresentative_halfTurn hQ hP).elim
  · -- The fourth turn takes the point back to the other one.
    rw [← CurvePoint.rotate_rotate_rotate_rotate Q] at hQ
    exact (not_isRepresentative_rotate hP hQ).elim

theorem toFieldElement_eq_iff {P Q : CurvePoint} (hP : P ∈ CurvePoint.even)
    (hQ : Q ∈ CurvePoint.even) :
    toFieldElement P.toAffine = toFieldElement Q.toAffine <-> 4 • P = 4 • Q := by
  rcases exists_isRepresentative hP with ⟨P', hP4, hP'⟩
  rcases exists_isRepresentative hQ with ⟨Q', hQ4, hQ'⟩
  constructor
  · intro h
    rw [h] at hP'
    have heq : P' = Q' := CurvePoint.ext
      (IsRepresentative.unique hP'.onCurve hP'.x_sign hP'.y_mul hQ')
    rw [← hP4, ← hQ4, heq]
  · intro h
    apply hP'.eq_of_class hQ'
    rw [hP4, hQ4, h]

end Ristretto
end Edwards25519
