import Mathlib
import Edwards25519.Point.Validity
import Edwards25519.Proofs.Curve.Montgomery
import Edwards25519.Proofs.Curve.Order

/-!
# The Elligator map

The values of the Montgomery form at the two candidates differ by the factor
`2 r ^ 2`. Two is no square, so the form has a square at exactly one of the two. The
selected candidate therefore always leads to a `y` of the curve, and the string of
this `y` decodes whatever its sign bit.
-/

namespace Edwards25519
namespace Elligator

open FieldElement

variable (r : FieldElement)

/-! ## The first candidate -/

/-- A zero would make two the ratio of two squares. -/
theorem one_add_two_mul_ne_zero :
    1 + 2 * (r * r) ≠ 0 := by
  intro h
  have hr : r ≠ 0 := by
    intro heq
    rw [heq, mul_zero, mul_zero, add_zero] at h
    exact one_ne_zero h
  apply not_isSquare_two
  apply isSquare_of_mul_self_eq (w := sqrtMinusOne) hr
  linear_combination sqrtMinusOne_mul_self - h

theorem candidate_eq :
    candidate r = -montgomeryA / (1 + 2 * r ^ 2) := by
  have hdenominator : r.square + r.square + 1 = 1 + 2 * r ^ 2 := by
    rw [Residue.square_eq_mul]
    ring
  rw [candidate, hdenominator, neg_div]

theorem candidate_mul :
    candidate r * (1 + 2 * (r * r)) = -montgomeryA := by
  rw [candidate_eq, pow_two]
  exact div_mul_cancel₀ _ (one_add_two_mul_ne_zero r)

theorem candidate_ne_zero :
    candidate r ≠ 0 := by
  intro h
  have hmul := candidate_mul r
  rw [h, zero_mul, eq_comm] at hmul
  exact neg_ne_zero.mpr montgomeryA_ne_zero hmul

theorem montgomeryForm_candidate_ne_zero :
    montgomeryForm (candidate r) ≠ 0 := by
  rw [ne_eq, montgomeryForm_eq_zero_iff]
  exact candidate_ne_zero r

theorem candidate_zero :
    candidate 0 = -montgomeryA := by
  have hmul := candidate_mul 0
  rw [mul_zero, mul_zero, add_zero, mul_one] at hmul
  exact hmul

theorem not_isSquare_montgomeryForm_candidate_zero :
    ¬ IsSquare (montgomeryForm (candidate 0)) := by
  have hform : montgomeryForm (candidate 0) = -montgomeryA := by
    rw [candidate_zero, montgomeryForm_eq]
    ring
  rw [hform]
  exact not_isSquare_neg_montgomeryA

/-! ## The second candidate -/

theorem second_candidate_eq :
    -candidate r - montgomeryA = 2 * (r * r) * candidate r := by
  linear_combination -candidate_mul r

theorem quadratic_second_candidate :
    quadratic (-candidate r - montgomeryA) = quadratic (candidate r) := by
  rw [quadratic, quadratic]
  ring

theorem montgomeryForm_second_candidate :
    montgomeryForm (-candidate r - montgomeryA) = 2 * montgomeryForm (candidate r) * (r * r) := by
  rw [montgomeryForm_eq_mul, montgomeryForm_eq_mul, quadratic_second_candidate,
    second_candidate_eq]
  ring

variable {r}

theorem isSquare_second_candidate (h : ¬ IsSquare (montgomeryForm (candidate r))) :
    IsSquare (montgomeryForm (-candidate r - montgomeryA)) := by
  rw [montgomeryForm_second_candidate]
  exact (isSquare_mul_of_nonsquares not_isSquare_two h).mul (IsSquare.mul_self r)

theorem isSquare_second_candidate_iff :
    IsSquare (montgomeryForm (-candidate r - montgomeryA)) <->
      ¬ IsSquare (montgomeryForm (candidate r)) := by
  refine ⟨?_, isSquare_second_candidate⟩
  intro hsecond hfirst
  by_cases hr : r = 0
  · rw [hr] at hfirst
    exact not_isSquare_montgomeryForm_candidate_zero hfirst
  · -- Two squares would make two, their ratio up to the square of `r`, a square.
    rw [montgomeryForm_second_candidate] at hsecond
    rcases hfirst with ⟨w, hw⟩
    rcases hsecond with ⟨v, hv⟩
    have hw0 : w ≠ 0 := by
      intro hzero
      apply montgomeryForm_candidate_ne_zero r
      rw [hw, hzero, mul_zero]
    apply not_isSquare_two
    apply isSquare_of_mul_self_eq (w := v) (mul_ne_zero hw0 hr)
    linear_combination -hv + 2 * (r * r) * hw

/-! ## The selected candidate -/

theorem montgomeryU_of_isSquare (h : IsSquare (montgomeryForm (candidate r))) :
    montgomeryU r = candidate r := by
  have hcharacter : ¬ character (montgomeryForm (candidate r)) = -1 := by
    rw [character_eq_neg_one_iff, not_not]
    exact h
  exact if_neg hcharacter

theorem montgomeryU_of_not_isSquare (h : ¬ IsSquare (montgomeryForm (candidate r))) :
    montgomeryU r = -candidate r - montgomeryA :=
  if_pos ((character_eq_neg_one_iff _).mpr h)

variable (r)

theorem montgomeryU_cases :
    (IsSquare (montgomeryForm (candidate r)) ∧ montgomeryU r = candidate r) ∨
      (¬ IsSquare (montgomeryForm (candidate r)) ∧
        montgomeryU r = -candidate r - montgomeryA) := by
  by_cases h : IsSquare (montgomeryForm (candidate r))
  · exact Or.inl ⟨h, montgomeryU_of_isSquare h⟩
  · exact Or.inr ⟨h, montgomeryU_of_not_isSquare h⟩

theorem isSquare_montgomeryForm_montgomeryU :
    IsSquare (montgomeryForm (montgomeryU r)) := by
  rcases montgomeryU_cases r with ⟨h, hu⟩ | ⟨h, hu⟩
  · rw [hu]
    exact h
  · rw [hu]
    exact isSquare_second_candidate h

theorem montgomeryU_add_one_ne_zero :
    montgomeryU r + 1 ≠ 0 :=
  add_one_ne_zero_of_isSquare (isSquare_montgomeryForm_montgomeryU r)

theorem montgomeryU_zero :
    montgomeryU 0 = 0 := by
  rw [montgomeryU_of_not_isSquare not_isSquare_montgomeryForm_candidate_zero, candidate_zero,
    neg_neg, sub_self]

theorem montgomeryU_eq_zero_iff :
    montgomeryU r = 0 <-> r = 0 := by
  constructor
  · intro h
    rcases montgomeryU_cases r with ⟨-, hu⟩ | ⟨-, hu⟩
    · exact absurd (hu.symm.trans h) (candidate_ne_zero r)
    · rw [hu, second_candidate_eq, mul_eq_zero, mul_eq_zero, mul_self_eq_zero] at h
      exact (h.resolve_right (candidate_ne_zero r)).resolve_left FieldElement.two_ne_zero
  · intro h
    rw [h, montgomeryU_zero]

/-! ## The raw point -/

variable (negative : Bool)

/-- The default of the raw point is never taken. -/
theorem ofY?_eq_some_rawPoint :
    AffinePoint.ofY? (edwardsY (montgomeryU r)) negative = some (rawPoint r negative) := by
  have hexists := exists_onCurve_edwardsY (isSquare_montgomeryForm_montgomeryU r)
  cases h : AffinePoint.ofY? (edwardsY (montgomeryU r)) negative with
  | none => exact absurd hexists ((AffinePoint.ofY?_eq_none_iff _ _).mp h)
  | some P => rw [rawPoint, h, Option.getD_some]

theorem rawPoint_spec :
    (rawPoint r negative).OnCurve ∧ (rawPoint r negative).y = edwardsY (montgomeryU r) ∧
      ((rawPoint r negative).x = 0 ∨ (rawPoint r negative).x.isNegative = negative) :=
  (AffinePoint.ofY?_eq_some_iff _ _ _).mp (ofY?_eq_some_rawPoint r negative)

theorem y_rawPoint :
    (rawPoint r negative).y = edwardsY (montgomeryU r) :=
  (rawPoint_spec r negative).2.1

theorem x_rawPoint_eq_zero_iff :
    (rawPoint r negative).x = 0 <-> r = 0 := by
  rcases rawPoint_spec r negative with ⟨hcurve, hy, -⟩
  rw [x_eq_zero_iff_of_edwardsY hcurve (montgomeryU_add_one_ne_zero r) hy, montgomeryU_eq_zero_iff]

theorem decode?_ofLowBits (y : FieldElement) :
    (Point.ofLowBits y.val negative).decode? = AffinePoint.ofY? y negative := by
  have hread : FieldElement.ofBytes (Point.ofLowBits y.val negative).bytes = y := by
    rw [ofBytes_eq_iff]
    exact (congrArg (· % fieldPrime) (lowBits_ofNat_parts (val_lt_two_pow y) negative)).trans
      (Nat.mod_eq_of_lt y.val_lt)
  have htop : (Point.ofLowBits y.val negative).bytes.topBit = negative :=
    topBit_ofNat_parts (val_lt_two_pow y) negative
  rw [Point.decode?, AffinePoint.decode?, hread, htop]

/-- The selected candidate gives a string that decodes, for every field element and sign. -/
theorem rawPoint_decodes (r : FieldElement) (negative : Bool) :
    1 + 2 * r ^ 2 ≠ 0 ∧
    candidate r = -montgomeryA / (1 + 2 * r ^ 2) ∧
    (forall u, montgomeryForm u = u ^ 3 + montgomeryA * u ^ 2 + u) ∧
    montgomeryForm (candidate r) ≠ 0 ∧
    ((IsSquare (montgomeryForm (candidate r)) ∧ montgomeryU r = candidate r) ∨
      (¬ IsSquare (montgomeryForm (candidate r)) ∧
        montgomeryU r = -candidate r - montgomeryA)) ∧
    IsSquare (montgomeryForm (montgomeryU r)) ∧
    montgomeryU r ≠ -1 ∧
    (Point.ofLowBits (edwardsY (montgomeryU r)).val negative).decode? =
      some (rawPoint r negative) ∧
    (rawPoint r negative).OnCurve ∧
    (rawPoint r negative).y = (montgomeryU r - 1) / (montgomeryU r + 1) ∧
    ((rawPoint r negative).x = 0 ∨ (rawPoint r negative).x.isNegative = negative) ∧
    ((rawPoint r negative).x = 0 <-> r = 0) := by
  have hsquare := isSquare_montgomeryForm_montgomeryU r
  have hdecode := ofY?_eq_some_rawPoint r negative
  rcases (AffinePoint.ofY?_eq_some_iff _ _ _).mp hdecode with ⟨hcurve, hy, hx⟩
  refine ⟨?_, candidate_eq r, montgomeryForm_eq, montgomeryForm_candidate_ne_zero r,
    montgomeryU_cases r, hsquare, ?_, ?_, hcurve, hy, hx, x_rawPoint_eq_zero_iff r negative⟩
  · rw [pow_two]
    exact one_add_two_mul_ne_zero r
  · intro h
    apply add_one_ne_zero_of_isSquare hsquare
    rw [h, neg_add_cancel]
  · rw [decode?_ofLowBits, hdecode]

/-!
## Images of the Elligator map

The map ends with a point of the curve that is multiplied by eight. The curve
has `8 L` points, so every image lies in the subgroup of order `L`, and it is
the identity exactly if the point before the multiplication has small order.
-/

theorem onCurve_rawPoint :
    (rawPoint r negative).OnCurve :=
  (rawPoint_spec r negative).1

/-- The other sign gives the opposite point, also where there is no `x` to have a sign. -/
theorem rawPoint_not :
    rawPoint r (!negative) = -rawPoint r negative := by
  rcases rawPoint_spec r negative with ⟨hcurve, hy, hx⟩
  have hopposite : AffinePoint.ofY? (edwardsY (montgomeryU r)) (!negative) =
      some (-rawPoint r negative) := by
    rw [AffinePoint.ofY?_eq_some_iff, AffinePoint.neg_x, AffinePoint.neg_y]
    refine ⟨AffinePoint.onCurve_neg hcurve, hy, ?_⟩
    by_cases hzero : (rawPoint r negative).x = 0
    · left
      rw [hzero, neg_zero]
    · right
      rw [isNegative_neg _ hzero, hx.resolve_left hzero]
  exact Option.some_inj.mp ((ofY?_eq_some_rawPoint r (!negative)).symm.trans hopposite)

def rawCurvePoint : CurvePoint where
  toAffine := rawPoint r negative
  onCurve := onCurve_rawPoint r negative

theorem rawCurvePoint_not :
    rawCurvePoint r (!negative) = -rawCurvePoint r negative :=
  CurvePoint.ext (rawPoint_not r negative)

theorem map_eq_nsmul :
    map r negative = (8 • rawCurvePoint r negative).toAffine :=
  AffinePoint.clearCofactor_eq_nsmul (rawCurvePoint r negative)

theorem map_eq_identity_iff :
    map r negative = AffinePoint.identity <-> addOrderOf (rawCurvePoint r negative) ∣ 8 := by
  rw [map_eq_nsmul, addOrderOf_dvd_iff_nsmul_eq_zero]
  constructor
  · intro h
    exact CurvePoint.ext h
  · intro h
    rw [h, CurvePoint.toAffine_zero]

theorem map_zero :
    map 0 negative = AffinePoint.identity := by
  have hx : (rawCurvePoint 0 negative).toAffine.x = 0 :=
    (x_rawPoint_eq_zero_iff 0 negative).mpr rfl
  rw [map_eq_nsmul, CurvePoint.eight_nsmul_of_x_eq_zero hx, CurvePoint.toAffine_zero]

end Elligator
end Edwards25519
