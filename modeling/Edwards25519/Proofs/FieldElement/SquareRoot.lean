import Mathlib
import Edwards25519.FieldElement
import Edwards25519.Proofs.FieldElement.Sign

/-!
# The square root of a ratio

The first guess `r` at a root of `u / v` satisfies `v r ^ 2 = u z` for a fourth
root of unity `z`. The root is repaired when `z` is minus one, and the ratio has
no root when `z` is a root of minus one.
-/

namespace Edwards25519
namespace FieldElement

theorem sqrtMinusOne_mul_self :
    sqrtMinusOne * sqrtMinusOne = -1 := by
  decide +kernel

theorem sqrtMinusOne_ne_zero :
    sqrtMinusOne ≠ 0 := by
  intro h
  have hsquare := sqrtMinusOne_mul_self
  rw [h, mul_zero] at hsquare
  exact one_ne_zero (neg_eq_zero.mp hsquare.symm)

theorem one_add_sqrtMinusOne_ne_zero :
    1 + sqrtMinusOne ≠ 0 := by
  intro h
  apply FieldElement.two_ne_zero
  linear_combination (1 - sqrtMinusOne) * h + sqrtMinusOne_mul_self

/-! ## The first guess -/

theorem mul_rootCandidate (u v : FieldElement) :
    exists z, v * (rootCandidate u v).square = u * z ∧
      z * z = character (u * v ^ 7) := by
  refine ⟨(u * v ^ 7) ^ ((fieldPrime - 1) / 4), ?_, ?_⟩
  · have hexp : (fieldPrime - 1) / 4 = (fieldPrime - 5) / 8 + (fieldPrime - 5) / 8 + 1 := by
      decide
    have hguess : rootCandidate u v =
        u * v ^ 3 * (u * v ^ 7) ^ ((fieldPrime - 5) / 8) := by
      simp only [rootCandidate, Residue.square_eq_mul, Residue.power_eq_pow]
      ring
    rw [Residue.square_eq_mul, hguess, hexp, pow_succ, pow_add]
    ring
  · have hexp : (fieldPrime - 1) / 2 = (fieldPrime - 1) / 4 + (fieldPrime - 1) / 4 := by
      decide
    rw [← pow_add, ← hexp]
    rfl

/-- If the ratio has a root then so has plus or minus the square of the guess. -/
theorem mul_rootCandidate_of_root {u v x : FieldElement} (hx : v * (x * x) = u) :
    v * (rootCandidate u v).square = u ∨
      v * (rootCandidate u v).square = -u := by
  rcases mul_rootCandidate u v with ⟨z, hz, hzz⟩
  rw [hz]
  by_cases hu : u = 0
  · left
    rw [hu, zero_mul]
  · have hpower : u * v ^ 7 ≠ 0 := by
      apply mul_ne_zero hu
      apply pow_ne_zero
      intro hv
      rw [hv, zero_mul] at hx
      exact hu hx.symm
    have hsquare : IsSquare (u * v ^ 7) := by
      refine ⟨v ^ 4 * x, ?_⟩
      rw [← hx]
      ring
    rw [(character_eq_one_iff _ hpower).mpr hsquare] at hzz
    rcases mul_self_eq_one_iff.mp hzz with hone | hneg
    · left
      rw [hone, mul_one]
    · right
      rw [hneg, mul_neg_one]

theorem mul_rootCandidate_cases {u v : FieldElement} (hu : u ≠ 0) (hv : v ≠ 0) :
    v * (rootCandidate u v).square = u ∨
      v * (rootCandidate u v).square = -u ∨
      v * (rootCandidate u v).square = u * sqrtMinusOne ∨
      v * (rootCandidate u v).square = -u * sqrtMinusOne := by
  rcases mul_rootCandidate u v with ⟨z, hz, hzz⟩
  rw [hz]
  rcases character_eq_one_or_neg_one _ (mul_ne_zero hu (pow_ne_zero 7 hv)) with hone | hneg
  · rw [hone] at hzz
    rcases mul_self_eq_one_iff.mp hzz with h | h
    · left
      rw [h, mul_one]
    · right
      left
      rw [h, mul_neg_one]
  · rw [hneg, ← sqrtMinusOne_mul_self] at hzz
    rcases mul_self_eq_mul_self_iff.mp hzz with h | h
    · right
      right
      left
      rw [h]
    · right
      right
      right
      rw [h, mul_neg, neg_mul]

/-! ## The repaired root -/

theorem sqrtRatio_isSquare_eq_true (u v : FieldElement) :
    (sqrtRatio u v).isSquare = true <->
      v * (rootCandidate u v).square = u ∨
      v * (rootCandidate u v).square = -u := by
  simp only [sqrtRatio, Bool.or_eq_true, decide_eq_true_eq]

theorem sqrtRatio_isSquare_iff (u v : FieldElement) :
    (sqrtRatio u v).isSquare = true <-> exists x, v * (x * x) = u := by
  rw [sqrtRatio_isSquare_eq_true]
  constructor
  · intro h
    rcases h with h | h
    · exact ⟨rootCandidate u v, h⟩
    · refine ⟨sqrtMinusOne * rootCandidate u v, ?_⟩
      calc
        v * (sqrtMinusOne * rootCandidate u v * (sqrtMinusOne * rootCandidate u v)) =
            sqrtMinusOne * sqrtMinusOne *
              (v * (rootCandidate u v).square) := by
          rw [Residue.square_eq_mul]
          ring
        _ = u := by rw [h, sqrtMinusOne_mul_self, neg_one_mul, neg_neg]
  · intro h
    rcases h with ⟨x, hx⟩
    exact mul_rootCandidate_of_root hx

theorem sqrtRatio_isNegative_root (u v : FieldElement) :
    (sqrtRatio u v).root.isNegative = false :=
  isNegative_abs _

theorem sqrtRatio_root_mul_self (u v : FieldElement) :
    (sqrtRatio u v).root * (sqrtRatio u v).root =
      if v * (rootCandidate u v).square = -u ∨
          v * (rootCandidate u v).square = -u * sqrtMinusOne then
        -(rootCandidate u v).square
      else
        (rootCandidate u v).square := by
  simp only [sqrtRatio, abs_mul_self, Bool.or_eq_true, decide_eq_true_eq]
  by_cases h : v * (rootCandidate u v).square = -u ∨
      v * (rootCandidate u v).square = -u * sqrtMinusOne
  · rw [if_pos h, if_pos h, mul_mul_mul_comm, sqrtMinusOne_mul_self, neg_one_mul,
      Residue.square_eq_mul]
  · rw [if_neg h, if_neg h, Residue.square_eq_mul]

theorem mul_root_of_isSquare {u v : FieldElement}
    (h : (sqrtRatio u v).isSquare = true) :
    v * ((sqrtRatio u v).root * (sqrtRatio u v).root) = u := by
  rw [sqrtRatio_isSquare_eq_true] at h
  rw [sqrtRatio_root_mul_self]
  by_cases hflip : v * (rootCandidate u v).square = -u
  · rw [if_pos (Or.inl hflip), mul_neg, hflip, neg_neg]
  · have hcorrect := h.resolve_right hflip
    have htwist : ¬ v * (rootCandidate u v).square = -u * sqrtMinusOne := by
      intro htwist
      apply hflip
      have hzero : u * (1 + sqrtMinusOne) = 0 := by
        rw [mul_add, mul_one]
        nth_rewrite 1 [← hcorrect]
        rw [htwist, neg_mul, neg_add_cancel]
      have hu : u = 0 := (mul_eq_zero.mp hzero).resolve_right one_add_sqrtMinusOne_ne_zero
      rw [hcorrect, hu, neg_zero]
    rw [if_neg (not_or.mpr ⟨hflip, htwist⟩), hcorrect]

theorem mul_root_of_not_isSquare {u v : FieldElement} (hv : v ≠ 0)
    (h : (sqrtRatio u v).isSquare = false) :
    v * ((sqrtRatio u v).root * (sqrtRatio u v).root) = sqrtMinusOne * u := by
  have hnot : ¬ (v * (rootCandidate u v).square = u ∨
      v * (rootCandidate u v).square = -u) := by
    rw [← sqrtRatio_isSquare_eq_true, h]
    exact Bool.false_ne_true
  have hu : u ≠ 0 := by
    intro hu
    have hroot : (sqrtRatio u v).isSquare = true :=
      (sqrtRatio_isSquare_iff u v).mpr ⟨0, by rw [hu, mul_zero, mul_zero]⟩
    rw [h] at hroot
    cases hroot
  rw [sqrtRatio_root_mul_self]
  rcases mul_rootCandidate_cases hu hv with hcase | hcase | hcase | hcase
  · exact absurd (Or.inl hcase) hnot
  · exact absurd (Or.inr hcase) hnot
  · have htwist : ¬ v * (rootCandidate u v).square = -u * sqrtMinusOne := by
      intro htwist
      rw [hcase] at htwist
      have hsum : 2 * (u * sqrtMinusOne) = 0 := by linear_combination htwist
      exact mul_ne_zero two_ne_zero (mul_ne_zero hu sqrtMinusOne_ne_zero) hsum
    rw [if_neg (not_or.mpr ⟨(not_or.mp hnot).2, htwist⟩), hcase, mul_comm]
  · rw [if_pos (Or.inr hcase), mul_neg, hcase, neg_mul, neg_neg, mul_comm]

theorem sqrtRatio_root_of_zero (u : FieldElement) :
    (sqrtRatio u 0).root = 0 := by
  have hguess : rootCandidate u 0 = 0 := by simp [rootCandidate, Residue.square_eq_mul]
  rw [← mul_self_eq_zero, sqrtRatio_root_mul_self, hguess]
  simp [Residue.square_eq_mul]

end FieldElement
end Edwards25519
