import Mathlib
import Edwards25519.Ristretto.Element
import Edwards25519.Proofs.Curve.Even

/-!
# Images of the one-way map

Both branches of the map give a solution of one equation in the square of `s`, which
puts the point on the curve. The denominators of the point do not vanish there, since
`d` is not a square. Only the denominator of the ratio can be zero, and then the root
is zero as well and the point is the identity. The point is even because `1 - y ^ 2`
is the square of `2 s / (1 + s ^ 2)`.
-/

namespace Edwards25519
namespace Ristretto

open FieldElement

/-! ## The equation -/

/-- The equation in `S = s ^ 2`, where `D` and `w` are the denominators of the ratio and of `x`. -/
def SolvesQuartic (D S w : FieldElement) : Prop :=
  D * D * ((1 + S) * (1 + S) + d * ((1 - S) * (1 - S))) = (1 + d) * (w * w)

/-- The ratio itself solves the equation, and so does `r` times the ratio. -/
theorem solvesQuartic_of_ratio {D S r c : FieldElement} (hD : D = (-1 - d * r) * (r + d))
    (h : (c = -1 ∧ D * S = (r + 1) * (1 - d * d)) ∨
      (c = r ∧ D * S = r * ((r + 1) * (1 - d * d)))) :
    SolvesQuartic D S (c * (r - 1) * ((d - 1) * (d - 1)) - D) := by
  unfold SolvesQuartic
  rcases h with ⟨rfl, hS⟩ | ⟨rfl, hS⟩
  · linear_combination
      ((1 + d) * (D * S + (r + 1) * (1 - d * d)) + 2 * (1 - d) * D) * hS +
        4 * (1 + d) * (1 - d) * (1 - d) * hD
  · linear_combination
      ((1 + d) * (D * S + c * ((c + 1) * (1 - d * d))) + 2 * (1 - d) * D) * hS +
        4 * (1 + d) * (1 - d) * (1 - d) * (c * c) * hD

section Denominators

variable {D S w : FieldElement}

theorem SolvesQuartic.one_add_ne_zero (h : SolvesQuartic D S w) (hD : D ≠ 0) :
    1 + S ≠ 0 := by
  intro hzero
  rcases isSquare_one_add_d with ⟨e, he⟩
  apply not_isSquare_d
  apply isSquare_of_mul_self_eq (w := e * w) (mul_ne_zero FieldElement.two_ne_zero hD)
  rw [SolvesQuartic, eq_neg_of_add_eq_zero_right hzero, he] at h
  linear_combination -h

theorem SolvesQuartic.w_ne_zero (h : SolvesQuartic D S w) (hD : D ≠ 0) :
    w ≠ 0 := by
  intro hzero
  have hsum : (1 + S) * (1 + S) + d * ((1 - S) * (1 - S)) = 0 := by
    rw [SolvesQuartic, hzero, mul_zero, mul_zero, mul_eq_zero] at h
    exact h.resolve_left (mul_ne_zero hD hD)
  have hone : 1 - S ≠ 0 := by
    intro hS
    apply h.one_add_ne_zero hD
    rw [hS, mul_zero, mul_zero, add_zero] at hsum
    exact mul_self_eq_zero.mp hsum
  apply not_isSquare_d
  apply isSquare_of_mul_self_eq (w := sqrtMinusOne * (1 + S)) hone
  linear_combination (1 + S) * (1 + S) * sqrtMinusOne_mul_self - hsum

end Denominators

/-! ## From the quartic to the curve -/

theorem sqrtADMinusOne_mul_self :
    sqrtADMinusOne * sqrtADMinusOne = -d - 1 := by
  decide +kernel

theorem sqrtADMinusOne_ne_zero :
    sqrtADMinusOne ≠ 0 := by
  intro h
  have hsquare := sqrtADMinusOne_mul_self
  rw [h, mul_zero] at hsquare
  apply not_isSquare_d
  refine ⟨sqrtMinusOne, ?_⟩
  linear_combination hsquare - sqrtMinusOne_mul_self

namespace QuarticPoint

variable {q : QuarticPoint}

def xDenominator (q : QuarticPoint) : FieldElement :=
  q.c * (q.r - 1) * ((d - 1) * (d - 1)) - q.denominator

theorem toAffine_x (q : QuarticPoint) :
    q.toAffine.x = (q.s + q.s) * q.denominator / (q.xDenominator * sqrtADMinusOne) :=
  rfl

theorem toAffine_y (q : QuarticPoint) :
    q.toAffine.y = (1 - q.s * q.s) / (1 + q.s * q.s) :=
  rfl

theorem toAffine_of_s_eq_zero (h : q.s = 0) :
    q.toAffine = AffinePoint.identity := by
  apply AffinePoint.ext
  · rw [toAffine_x, h, add_zero, zero_mul, zero_div, AffinePoint.identity_x]
  · rw [toAffine_y, h, mul_zero, sub_zero, add_zero, div_one, AffinePoint.identity_y]

theorem onCurve_toAffine (hD : q.denominator ≠ 0)
    (h : SolvesQuartic q.denominator (q.s * q.s) q.xDenominator) :
    q.toAffine.OnCurve := by
  have hsum := h.one_add_ne_zero hD
  have hw := h.w_ne_zero hD
  have hk := sqrtADMinusOne_ne_zero
  rw [AffinePoint.onCurve_iff_root, toAffine_x, toAffine_y]
  rw [SolvesQuartic] at h
  generalize q.xDenominator = w at *
  generalize q.denominator = D at *
  generalize q.s = s at *
  rw [← pow_two] at hsum
  field_simp
  -- What is left of the equation of the curve is `4 s ^ 2` times the quartic.
  linear_combination 4 * s ^ 2 * h + 4 * s ^ 2 * w ^ 2 * sqrtADMinusOne_mul_self

/-- The numerator of `1 - y ^ 2` is `(2 s) ^ 2`, so the point is even. -/
theorem isSquare_one_sub_y (hsum : 1 + q.s * q.s ≠ 0) :
    IsSquare (1 - q.toAffine.y * q.toAffine.y) := by
  refine ⟨2 * q.s / (1 + q.s * q.s), ?_⟩
  rw [toAffine_y]
  generalize q.s = s at hsum ⊢
  rw [← pow_two] at hsum
  field_simp
  ring

end QuarticPoint

/-! ## The two branches -/

section Branches

variable (r0 : FieldElement)

def quarticRatio (r0 : FieldElement) : RatioRoot :=
  sqrtRatio (((quarticPoint r0).r + 1) * (1 - d * d)) (quarticPoint r0).denominator

theorem quarticPoint_r :
    (quarticPoint r0).r = sqrtMinusOne * (r0 * r0) :=
  rfl

theorem quarticPoint_s :
    (quarticPoint r0).s =
      if (quarticRatio r0).isSquare then (quarticRatio r0).root
      else -((quarticRatio r0).root * r0).abs :=
  rfl

theorem quarticPoint_c :
    (quarticPoint r0).c = if (quarticRatio r0).isSquare then -1 else (quarticPoint r0).r :=
  rfl

variable {r0}

theorem s_eq_zero_of_denominator_eq_zero (h : (quarticPoint r0).denominator = 0) :
    (quarticPoint r0).s = 0 := by
  have hroot : (quarticRatio r0).root = 0 := by
    rw [quarticRatio, h]
    exact sqrtRatio_root_of_zero _
  rw [quarticPoint_s, hroot, zero_mul, FieldElement.abs_zero, neg_zero, ite_self]

theorem quarticPoint_branches (h : (quarticPoint r0).denominator ≠ 0) :
    ((quarticPoint r0).c = -1 ∧
        (quarticPoint r0).denominator * ((quarticPoint r0).s * (quarticPoint r0).s) =
          ((quarticPoint r0).r + 1) * (1 - d * d)) ∨
      ((quarticPoint r0).c = (quarticPoint r0).r ∧
        (quarticPoint r0).denominator * ((quarticPoint r0).s * (quarticPoint r0).s) =
          (quarticPoint r0).r * (((quarticPoint r0).r + 1) * (1 - d * d))) := by
  cases hsquare : (quarticRatio r0).isSquare with
  | true =>
      left
      rw [quarticPoint_c, quarticPoint_s, hsquare, if_pos rfl, if_pos rfl]
      exact ⟨rfl, mul_root_of_isSquare hsquare⟩
  | false =>
      right
      have hroot : (quarticPoint r0).denominator *
          ((quarticRatio r0).root * (quarticRatio r0).root) =
          sqrtMinusOne * (((quarticPoint r0).r + 1) * (1 - d * d)) :=
        mul_root_of_not_isSquare h hsquare
      rw [quarticPoint_c, quarticPoint_s, hsquare, if_neg Bool.false_ne_true,
        if_neg Bool.false_ne_true, neg_mul_neg, abs_mul_self]
      refine ⟨rfl, ?_⟩
      linear_combination r0 * r0 * hroot -
        ((quarticPoint r0).r + 1) * (1 - d * d) * quarticPoint_r r0

/-- Either the point is the identity or the denominator can be divided by. -/
theorem quarticPoint_cases (r0 : FieldElement) :
    (quarticPoint r0).s = 0 ∨
      ((quarticPoint r0).denominator ≠ 0 ∧
        SolvesQuartic (quarticPoint r0).denominator
          ((quarticPoint r0).s * (quarticPoint r0).s) (quarticPoint r0).xDenominator) := by
  by_cases h : (quarticPoint r0).denominator = 0
  · exact Or.inl (s_eq_zero_of_denominator_eq_zero h)
  · exact Or.inr ⟨h, solvesQuartic_of_ratio rfl (quarticPoint_branches h)⟩

end Branches

/-! ## The image of a field element -/

theorem onCurve_oneWayMap (r0 : FieldElement) :
    (oneWayMap r0).OnCurve := by
  rcases quarticPoint_cases r0 with hs | ⟨hdenominator, hsolves⟩
  · rw [oneWayMap, QuarticPoint.toAffine_of_s_eq_zero hs]
    exact AffinePoint.onCurve_identity
  · exact QuarticPoint.onCurve_toAffine hdenominator hsolves

def mappedPoint (r0 : FieldElement) : CurvePoint where
  toAffine := oneWayMap r0
  onCurve := onCurve_oneWayMap r0

theorem mappedPoint_mem_even (r0 : FieldElement) :
    mappedPoint r0 ∈ CurvePoint.even := by
  rw [CurvePoint.mem_even_iff]
  apply QuarticPoint.isSquare_one_sub_y
  rcases quarticPoint_cases r0 with hs | ⟨hdenominator, hsolves⟩
  · rw [hs, mul_zero, add_zero]
    exact one_ne_zero
  · exact hsolves.one_add_ne_zero hdenominator

theorem oneWayMap_neg (r0 : FieldElement) :
    oneWayMap (-r0) = oneWayMap r0 := by
  have hsquare : (-r0).square = r0.square := neg_mul_neg r0 r0
  simp only [oneWayMap, quarticPoint, hsquare, mul_neg, FieldElement.abs_neg]

end Ristretto
end Edwards25519
