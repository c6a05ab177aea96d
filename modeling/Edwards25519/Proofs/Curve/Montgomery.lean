import Mathlib
import Edwards25519.Curve.Elligator
import Edwards25519.Proofs.Curve.Encoding
import Edwards25519.Proofs.FieldElement.Field

/-!
# The Montgomery form of the curve

The form `u ^ 3 + A u ^ 2 + u` vanishes only at zero, since `A ^ 2 - 4` is not a
square. A coordinate `u` at which the form has a square is carried to the curve by
`y = (u - 1) / (u + 1)`: there is a point with this `y`, and its `x` is zero only
for the coordinate zero.
-/

namespace Edwards25519
namespace Elligator

open FieldElement

/-! ## The coefficient -/

theorem montgomeryA_facts :
    d * (montgomeryA + 2) = 2 - montgomeryA ∧
      character (montgomeryA + 2) = 1 ∧ character (-montgomeryA) = -1 := by
  decide +kernel

theorem d_mul_montgomeryA_add_two :
    d * (montgomeryA + 2) = 2 - montgomeryA :=
  montgomeryA_facts.1

theorem isSquare_montgomeryA_add_two :
    IsSquare (montgomeryA + 2) :=
  isSquare_of_character montgomeryA_facts.2.1

theorem not_isSquare_neg_montgomeryA :
    ¬ IsSquare (-montgomeryA) :=
  not_isSquare_of_character montgomeryA_facts.2.2

theorem montgomeryA_ne_zero :
    montgomeryA ≠ 0 := by
  intro h
  apply not_isSquare_neg_montgomeryA
  rw [h, neg_zero]
  exact IsSquare.zero

theorem montgomeryA_add_two_ne_zero :
    montgomeryA + 2 ≠ 0 := by
  intro h
  apply mul_ne_zero FieldElement.two_ne_zero FieldElement.two_ne_zero
  linear_combination (d + 1) * h - d_mul_montgomeryA_add_two

/-! ## The form -/

def quadratic (u : FieldElement) : FieldElement :=
  u * u + montgomeryA * u + 1

theorem montgomeryForm_eq (u : FieldElement) :
    montgomeryForm u = u ^ 3 + montgomeryA * u ^ 2 + u := by
  simp only [montgomeryForm, Residue.square_eq_mul]
  ring

theorem montgomeryForm_eq_mul (u : FieldElement) :
    montgomeryForm u = u * quadratic u := by
  rw [montgomeryForm_eq, quadratic]
  ring

/-- A root of the quadratic factor would make `d` a square. -/
theorem quadratic_ne_zero (u : FieldElement) :
    quadratic u ≠ 0 := by
  intro h
  rw [quadratic] at h
  -- At a root `(2 u + A) ^ 2` is `A ^ 2 - 4`, which is `-d (A + 2) ^ 2`.
  apply not_isSquare_d
  apply isSquare_of_mul_self_eq (w := sqrtMinusOne * (2 * u + montgomeryA))
    montgomeryA_add_two_ne_zero
  linear_combination (2 * u + montgomeryA) * (2 * u + montgomeryA) * sqrtMinusOne_mul_self -
    4 * h - (montgomeryA + 2) * d_mul_montgomeryA_add_two

theorem montgomeryForm_eq_zero_iff (u : FieldElement) :
    montgomeryForm u = 0 <-> u = 0 := by
  rw [montgomeryForm_eq_mul, mul_eq_zero]
  exact or_iff_left (quadratic_ne_zero u)

/-- The form has no square at minus one, where the change of coordinates would divide by zero. -/
theorem add_one_ne_zero_of_isSquare {u : FieldElement} (h : IsSquare (montgomeryForm u)) :
    u + 1 ≠ 0 := by
  intro hu
  rcases h with ⟨w, hw⟩
  rcases isSquare_montgomeryA_add_two with ⟨c, hc⟩
  have hc0 : c ≠ 0 := by
    intro heq
    apply montgomeryA_add_two_ne_zero
    rw [hc, heq, mul_zero]
  -- At minus one the form is `A - 2`, which is `-d c ^ 2`.
  apply not_isSquare_d
  apply isSquare_of_mul_self_eq (w := sqrtMinusOne * w) hc0
  rw [montgomeryForm_eq_mul, quadratic, eq_neg_of_add_eq_zero_left hu] at hw
  linear_combination w * w * sqrtMinusOne_mul_self + hw + d * hc - d_mul_montgomeryA_add_two

/-! ## The change of coordinates -/

theorem edwardsY_mul {u : FieldElement} (hu : u + 1 ≠ 0) :
    edwardsY u * (u + 1) = u - 1 :=
  div_mul_cancel₀ (u - 1) hu

theorem edwardsY_injective {u u' : FieldElement} (hu : u + 1 ≠ 0) (hu' : u' + 1 ≠ 0)
    (h : edwardsY u = edwardsY u') :
    u = u' := by
  have hy := edwardsY_mul hu
  have hy' := edwardsY_mul hu'
  rw [h] at hy
  apply mul_left_cancel₀ FieldElement.two_ne_zero
  linear_combination (u + 1) * hy' - (u' + 1) * hy

theorem onCurve_edwardsY_iff {u : FieldElement} (hu : u + 1 ≠ 0) (x : FieldElement) :
    AffinePoint.OnCurve { x := x, y := edwardsY u } <->
      quadratic u * (x * x) = -(montgomeryA + 2) * u := by
  have hy := edwardsY_mul hu
  have hd := d_mul_montgomeryA_add_two
  rw [AffinePoint.onCurve_iff_root, quadratic]
  generalize edwardsY u = y at hy ⊢
  -- The equation of the curve times `(A + 2) (u + 1) ^ 2` is four times the other one.
  constructor
  · intro h
    apply mul_left_cancel₀ (mul_ne_zero FieldElement.two_ne_zero FieldElement.two_ne_zero)
    linear_combination (montgomeryA + 2) * (u + 1) * (u + 1) * h -
      (montgomeryA + 2) * (d * (x * x) - 1) * (y * (u + 1) + (u - 1)) * hy -
      (u - 1) * (u - 1) * (x * x) * hd
  · intro h
    apply mul_left_cancel₀ (mul_ne_zero montgomeryA_add_two_ne_zero (mul_ne_zero hu hu))
    linear_combination 4 * h +
      (montgomeryA + 2) * (d * (x * x) - 1) * (y * (u + 1) + (u - 1)) * hy +
      (u - 1) * (u - 1) * (x * x) * hd

theorem exists_onCurve_edwardsY {u : FieldElement} (h : IsSquare (montgomeryForm u)) :
    exists x, AffinePoint.OnCurve { x := x, y := edwardsY u } := by
  have hu := add_one_ne_zero_of_isSquare h
  have hq := quadratic_ne_zero u
  rcases h with ⟨v, hv⟩
  rcases isSquare_montgomeryA_add_two with ⟨c, hc⟩
  rw [montgomeryForm_eq_mul] at hv
  refine ⟨sqrtMinusOne * c * v / quadratic u, (onCurve_edwardsY_iff hu _).mpr ?_⟩
  rw [hc]
  field_simp
  linear_combination c * c * (v * v) * sqrtMinusOne_mul_self + c * c * hv

theorem x_eq_zero_iff_of_edwardsY {P : AffinePoint} {u : FieldElement} (hP : P.OnCurve)
    (hu : u + 1 ≠ 0) (hy : P.y = edwardsY u) :
    P.x = 0 <-> u = 0 := by
  have hx : quadratic u * (P.x * P.x) = -(montgomeryA + 2) * u := by
    rw [← onCurve_edwardsY_iff hu, ← hy]
    exact hP
  constructor
  · intro hzero
    rw [hzero, mul_zero, mul_zero, eq_comm] at hx
    exact (mul_eq_zero.mp hx).resolve_left (neg_ne_zero.mpr montgomeryA_add_two_ne_zero)
  · intro hzero
    rw [hzero, mul_zero] at hx
    exact mul_self_eq_zero.mp ((mul_eq_zero.mp hx).resolve_left (quadratic_ne_zero 0))

end Elligator
end Edwards25519
