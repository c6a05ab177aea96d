import Mathlib
import Edwards25519.Proofs.Curve.Elligator

/-!
# Collisions of the Elligator map

The sign of `x` is an input of the map, so the selected candidate alone decides the
point. Elements with one square have the same two candidates, and those whose squares
have the product `1 / 4` have them in the opposite order. In both cases the same
candidate is selected, and in no other. So an element shares its point with its
opposite, with the inverse of its double and with the opposite of that.
-/

namespace Edwards25519
namespace Elligator

open FieldElement

variable {r r' : FieldElement}

/-! ## Equal candidates -/

theorem candidate_eq_candidate_iff :
    candidate r = candidate r' <-> r' ^ 2 = r ^ 2 := by
  constructor
  · intro h
    have hr := candidate_mul r
    rw [h, ← candidate_mul r'] at hr
    have hdenominator := mul_left_cancel₀ (candidate_ne_zero r') hr
    apply mul_left_cancel₀ FieldElement.two_ne_zero
    linear_combination -hdenominator
  · intro h
    rw [candidate_eq, candidate_eq, h]

theorem candidate_eq_second_candidate_iff :
    candidate r' = -candidate r - montgomeryA <-> 4 * r ^ 2 * r' ^ 2 = 1 := by
  have hr := candidate_mul r
  have hr' := candidate_mul r'
  rw [second_candidate_eq]
  constructor
  · intro h
    rw [h] at hr'
    apply mul_left_cancel₀ (candidate_ne_zero r)
    linear_combination hr' - hr
  · intro h
    apply mul_right_cancel₀ (one_add_two_mul_ne_zero r')
    linear_combination hr' - hr - candidate r * h

/-! ## Equal selections -/

/-- Elements with the same two candidates in opposite orders select the same one. -/
theorem montgomeryU_eq_of_swapped (h : candidate r' = -candidate r - montgomeryA) :
    montgomeryU r = montgomeryU r' := by
  have hback : -candidate r' - montgomeryA = candidate r := by
    rw [h]
    ring
  have hother := isSquare_second_candidate_iff (r := r)
  rw [← h] at hother
  by_cases hsquare : IsSquare (montgomeryForm (candidate r))
  · rw [montgomeryU_of_isSquare hsquare,
      montgomeryU_of_not_isSquare (fun hsquare' => hother.mp hsquare' hsquare), hback]
  · rw [montgomeryU_of_not_isSquare hsquare, montgomeryU_of_isSquare (hother.mpr hsquare), h]

theorem montgomeryU_eq_iff :
    montgomeryU r = montgomeryU r' <-> r' ^ 2 = r ^ 2 ∨ 4 * r ^ 2 * r' ^ 2 = 1 := by
  constructor
  · -- The cases are which of its two candidates each element selects.
    intro h
    rcases montgomeryU_cases r with ⟨-, hr⟩ | ⟨-, hr⟩
    · rcases montgomeryU_cases r' with ⟨-, hr'⟩ | ⟨-, hr'⟩
      · left
        rw [hr, hr', candidate_eq_candidate_iff] at h
        exact h
      · right
        rw [hr, hr', candidate_eq_second_candidate_iff] at h
        linear_combination h
    · rcases montgomeryU_cases r' with ⟨-, hr'⟩ | ⟨-, hr'⟩
      · right
        rw [hr, hr', eq_comm, candidate_eq_second_candidate_iff] at h
        exact h
      · left
        rw [hr, hr', sub_left_inj, neg_inj, candidate_eq_candidate_iff] at h
        exact h
  · intro h
    rcases h with hsquare | hproduct
    · have hcandidate := candidate_eq_candidate_iff.mpr hsquare
      rw [montgomeryU, montgomeryU, hcandidate]
    · exact montgomeryU_eq_of_swapped (candidate_eq_second_candidate_iff.mpr hproduct)

/-! ## Equal points -/

theorem rawPoint_eq_iff (negative : Bool) :
    rawPoint r negative = rawPoint r' negative <-> r' ^ 2 = r ^ 2 ∨ 4 * r ^ 2 * r' ^ 2 = 1 := by
  rw [← montgomeryU_eq_iff]
  constructor
  · intro h
    apply edwardsY_injective (montgomeryU_add_one_ne_zero r) (montgomeryU_add_one_ne_zero r')
    rw [← y_rawPoint r negative, ← y_rawPoint r' negative, h]
  · intro h
    rw [rawPoint, rawPoint, h]

/-! ## Fibres -/

/-- The elements that share the point of an element, which are all zero for zero. -/
def collisions (r : FieldElement) : Finset FieldElement :=
  {r, -r, 1 / (2 * r), -1 / (2 * r)}

theorem product_eq_one_iff (hr : r ≠ 0) :
    4 * r ^ 2 * r' ^ 2 = 1 <-> r' = 1 / (2 * r) ∨ r' = -1 / (2 * r) := by
  have hdouble : 2 * r ≠ 0 := mul_ne_zero FieldElement.two_ne_zero hr
  have hsquare : 4 * r ^ 2 * r' ^ 2 = r' * (2 * r) * (r' * (2 * r)) := by ring
  rw [hsquare, mul_self_eq_one_iff, eq_div_iff hdouble, eq_div_iff hdouble]

theorem mem_collisions_iff :
    r' ∈ collisions r <-> r' ^ 2 = r ^ 2 ∨ 4 * r ^ 2 * r' ^ 2 = 1 := by
  rw [collisions, Finset.mem_insert, Finset.mem_insert, Finset.mem_insert, Finset.mem_singleton,
    sq_eq_sq_iff_eq_or_eq_neg]
  by_cases hr : r = 0
  · -- The inverse of zero is zero, and the product is zero and not one.
    subst hr
    simp
  · rw [product_eq_one_iff hr, or_assoc]

theorem rawPoint_eq_iff_mem_collisions (negative : Bool) :
    rawPoint r' negative = rawPoint r negative <-> r' ∈ collisions r := by
  rw [mem_collisions_iff, ← rawPoint_eq_iff negative, eq_comm]

theorem encard_fibre_le (P : AffinePoint) (negative : Bool) :
    {s | rawPoint s negative = P}.encard <= 4 := by
  rcases Set.eq_empty_or_nonempty {s | rawPoint s negative = P} with hempty | ⟨r, hr⟩
  · rw [hempty, Set.encard_empty]
    exact zero_le
  · have hfibre : {s | rawPoint s negative = P} = collisions r := by
      ext s
      rw [Set.mem_ofPred_eq, ← hr.out, rawPoint_eq_iff_mem_collisions, Finset.mem_coe]
    rw [hfibre, Set.encard_coe_eq_coe_finsetCard]
    exact_mod_cast Finset.card_le_four

/-! ## Equal strings -/

theorem map_eq_of_mem_collisions (negative : Bool) (h : r' ∈ collisions r) :
    map r' negative = map r negative := by
  rw [map, map, (rawPoint_eq_iff_mem_collisions negative).mpr h]

theorem fromUniform_eq_of_mem_collisions {b b' : Bytes 32} (hsign : b'.topBit = b.topBit)
    (h : FieldElement.ofBytes b' ∈ collisions (FieldElement.ofBytes b)) :
    Point.fromUniform b' = Point.fromUniform b := by
  change Point.ofFieldElement (FieldElement.ofBytes b') b'.topBit =
    Point.ofFieldElement (FieldElement.ofBytes b) b.topBit
  rw [hsign, Point.ofFieldElement, Point.ofFieldElement, map_eq_of_mem_collisions _ h]

/-- Before small components are cleared, an element collides with three others at most. -/
theorem rawPoint_collisions (r r' : FieldElement) (negative : Bool) :
    (Point.ofLowBits (edwardsY (montgomeryU r)).val negative).decode? =
      some (rawPoint r negative) ∧
    (rawPoint r negative = rawPoint r' negative <->
      r' ^ 2 = r ^ 2 ∨ 4 * r ^ 2 * r' ^ 2 = 1) ∧
    (rawPoint r' negative = rawPoint r negative <-> r' ∈ collisions r) ∧
    (forall b b' : Bytes 32, b'.topBit = b.topBit ->
      FieldElement.ofBytes b' ∈ collisions (FieldElement.ofBytes b) ->
      Point.fromUniform b' = Point.fromUniform b) ∧
    (forall P : AffinePoint, {s | rawPoint s negative = P}.encard <= 4) := by
  refine ⟨?_, rawPoint_eq_iff negative, rawPoint_eq_iff_mem_collisions negative,
    fun _ _ => fromUniform_eq_of_mem_collisions, fun P => encard_fibre_le P negative⟩
  rw [decode?_ofLowBits, ofY?_eq_some_rawPoint]

def twoAlias : Bytes 32 :=
  Bytes.ofNat 32 (2 + fieldPrime + 2 ^ 255)

def negQuarter : Bytes 32 :=
  Bytes.ofNat 32 ((fieldPrime - 1) / 4 + 2 ^ 255)

theorem rawPoint_collisions_two :
    FieldElement.ofBytes twoAlias = 2 ∧
    FieldElement.ofBytes negQuarter = -1 / (2 * 2) ∧
    negQuarter.topBit = twoAlias.topBit ∧
    Point.fromUniform negQuarter = Point.fromUniform twoAlias := by
  have hstrings : FieldElement.ofBytes twoAlias = 2 ∧
      FieldElement.ofBytes negQuarter = -1 / (2 * 2) ∧
      negQuarter.topBit = twoAlias.topBit := by
    decide +kernel
  rcases hstrings with ⟨htwo, hquarter, hsign⟩
  have hmem : FieldElement.ofBytes negQuarter ∈ collisions (FieldElement.ofBytes twoAlias) := by
    rw [htwo, hquarter, collisions]
    simp only [Finset.mem_insert, Finset.mem_singleton, or_true]
  exact ⟨htwo, hquarter, hsign, (rawPoint_collisions 2 2 true).2.2.2.1 _ _ hsign hmem⟩

end Elligator
end Edwards25519
