import Mathlib

/-!
# Identities of the addition law

The facts of this module hold for solutions of `y ^ 2 - x ^ 2 = 1 + d x ^ 2 y ^ 2`
in any field. The denominators of the law do not vanish if minus one is a square
and `d` is not. Sums solve the equation again, and of the two coordinates of an
associativity only the first is compared: adding the solution `(i, 0)`, where
`i ^ 2 = -1`, exchanges the coordinates up to the factor `i`.
-/

namespace Edwards25519

variable {K : Type} [Field K] {d : K}

def SolvesEdwards (d x y : K) : Prop :=
  y * y - x * x = 1 + d * (x * x) * (y * y)

/-! ## Denominators -/

theorem isSquare_of_mul_self_eq {c w z : K} (hz : z ≠ 0) (h : w * w = c * (z * z)) :
    IsSquare c := by
  refine ⟨w / z, ?_⟩
  rw [div_mul_div_comm, h, mul_div_assoc, div_self (mul_ne_zero hz hz), mul_one]

/-- The product in the denominators of the addition law has a square other than one. -/
theorem edwards_denominator_ne {i x1 y1 x2 y2 : K} (hi : i * i = -1)
    (hd : ¬ IsSquare d) (htwo : (2 : K) ≠ 0)
    (h1 : SolvesEdwards d x1 y1) (h2 : SolvesEdwards d x2 y2) :
    d * x1 * x2 * y1 * y2 * (d * x1 * x2 * y1 * y2) ≠ 1 := by
  intro ht
  unfold SolvesEdwards at h1 h2
  have hx1 : x1 ≠ 0 := by
    intro heq
    subst heq
    simp at ht
  have hy1 : y1 ≠ 0 := by
    intro heq
    subst heq
    simp at ht
  have hy2 : y2 ≠ 0 := by
    intro heq
    subst heq
    simp at ht
  -- Both `i x + t y` and `-i x + t y` have squares that are multiples of `d`.
  have hplus : (i * x1 + d * x1 * x2 * y1 * y2 * y1) * (i * x1 + d * x1 * x2 * y1 * y2 * y1) =
      d * ((x1 * y1 * (y2 + i * x2)) * (x1 * y1 * (y2 + i * x2))) := by
    linear_combination (x1 * x1 - d * x1 * x1 * y1 * y1 * x2 * x2) * hi +
      (y1 * y1 - 1) * ht + h1 - d * x1 * x1 * y1 * y1 * h2
  have hminus : (-i * x1 + d * x1 * x2 * y1 * y2 * y1) *
      (-i * x1 + d * x1 * x2 * y1 * y2 * y1) =
      d * ((x1 * y1 * (y2 - i * x2)) * (x1 * y1 * (y2 - i * x2))) := by
    linear_combination (x1 * x1 - d * x1 * x1 * y1 * y1 * x2 * x2) * hi +
      (y1 * y1 - 1) * ht + h1 - d * x1 * x1 * y1 * y1 * h2
  by_cases hsum : y2 + i * x2 = 0
  · by_cases hdiff : y2 - i * x2 = 0
    · apply mul_ne_zero htwo hy2
      linear_combination hsum + hdiff
    · exact hd (isSquare_of_mul_self_eq (mul_ne_zero (mul_ne_zero hx1 hy1) hdiff) hminus)
  · exact hd (isSquare_of_mul_self_eq (mul_ne_zero (mul_ne_zero hx1 hy1) hsum) hplus)

/-! ## Sums -/

theorem edwards_sum_equation {x1 y1 x2 y2 : K}
    (h1 : SolvesEdwards d x1 y1) (h2 : SolvesEdwards d x2 y2) :
    ((y1 * y2 + x1 * x2) * (1 + d * x1 * x2 * y1 * y2)) ^ 2 -
        ((x1 * y2 + y1 * x2) * (1 - d * x1 * x2 * y1 * y2)) ^ 2 =
      ((1 + d * x1 * x2 * y1 * y2) * (1 - d * x1 * x2 * y1 * y2)) ^ 2 +
        d * ((x1 * y2 + y1 * x2) * (y1 * y2 + x1 * x2)) ^ 2 := by
  unfold SolvesEdwards at h1 h2
  grind

/-- Up to squares, `1 + d y ^ 2` is multiplicative. The denominators of the sum are cleared. -/
theorem edwards_even_equation {x1 y1 x2 y2 : K}
    (h1 : SolvesEdwards d x1 y1) (h2 : SolvesEdwards d x2 y2) :
    ((1 - d * x1 * x2 * y1 * y2) * (1 - d * x1 * x2 * y1 * y2) +
          d * ((y1 * y2 + x1 * x2) * (y1 * y2 + x1 * x2))) *
        ((1 + d * (y1 * y1)) * (1 + d * (y2 * y2))) =
      (1 + d) * ((1 + d * (y1 * y1) * (y2 * y2)) * (1 + d * (y1 * y1) * (y2 * y2))) := by
  unfold SolvesEdwards at h1 h2
  have hfactor : (1 - d * x1 * x2 * y1 * y2) * (1 - d * x1 * x2 * y1 * y2) +
      d * ((y1 * y2 + x1 * x2) * (y1 * y2 + x1 * x2)) =
      (1 + d * (x1 * x1) * (x2 * x2)) * (1 + d * (y1 * y1) * (y2 * y2)) := by
    ring
  rw [hfactor]
  linear_combination (1 + d * (y1 * y1) * (y2 * y2)) *
    (-(d * (x2 * x2) * (1 + d * (y2 * y2))) * h1 - d * (y1 * y1 - 1) * h2)

/-- The two ways to add three solutions have the same first coordinate, denominators cleared. -/
theorem edwards_assoc_equation {x1 y1 x2 y2 x3 y3 : K} (h1 : SolvesEdwards d x1 y1)
    (h2 : SolvesEdwards d x2 y2) (h3 : SolvesEdwards d x3 y3) :
    ((x1 * y2 + y1 * x2) * (1 - d * x1 * x2 * y1 * y2) * y3 +
          (y1 * y2 + x1 * x2) * (1 + d * x1 * x2 * y1 * y2) * x3) *
        ((1 + d * x2 * x3 * y2 * y3) * (1 - d * x2 * x3 * y2 * y3) +
          d * x1 * (x2 * y3 + y2 * x3) * y1 * (y2 * y3 + x2 * x3)) =
      (x1 * (y2 * y3 + x2 * x3) * (1 + d * x2 * x3 * y2 * y3) +
          y1 * (x2 * y3 + y2 * x3) * (1 - d * x2 * x3 * y2 * y3)) *
        ((1 + d * x1 * x2 * y1 * y2) * (1 - d * x1 * x2 * y1 * y2) +
          d * (x1 * y2 + y1 * x2) * x3 * (y1 * y2 + x1 * x2) * y3) := by
  unfold SolvesEdwards at h1 h2 h3
  linear_combination
    d * x2 * y2 *
      (-d * x1 * x2 ^ 3 * y2 ^ 2 * x3 ^ 2 * y3 - d * x1 * x2 ^ 2 * y2 ^ 3 * x3 * y3 ^ 2 +
       d * y1 * x2 ^ 3 * y2 ^ 2 * x3 * y3 ^ 2 + d * y1 * x2 ^ 2 * y2 ^ 3 * x3 ^ 2 * y3 -
       x1 * x2 ^ 3 * x3 ^ 2 * y3 - x1 * x2 ^ 2 * y2 * x3 ^ 3 - x1 * x2 ^ 2 * y2 * x3 +
       x1 * x2 * y2 ^ 2 * y3 ^ 3 - x1 * x2 * y2 ^ 2 * y3 + x1 * y2 ^ 3 * x3 * y3 ^ 2 +
       y1 * x2 ^ 3 * x3 * y3 ^ 2 + y1 * x2 ^ 2 * y2 * y3 ^ 3 - y1 * x2 ^ 2 * y2 * y3 -
       y1 * x2 * y2 ^ 2 * x3 ^ 3 - y1 * x2 * y2 ^ 2 * x3 - y1 * y2 ^ 3 * x3 ^ 2 * y3) * h1 +
    d * x2 * y2 *
      (x1 ^ 3 * x2 * x3 ^ 2 * y3 + x1 ^ 3 * y2 * x3 * y3 ^ 2 - x1 ^ 2 * y1 * x2 * x3 ^ 3 -
       x1 ^ 2 * y1 * x2 * x3 - x1 ^ 2 * y1 * y2 * y3 ^ 3 + x1 ^ 2 * y1 * y2 * y3 -
       x1 * y1 ^ 2 * x2 * y3 ^ 3 + x1 * y1 ^ 2 * x2 * y3 - x1 * y1 ^ 2 * y2 * x3 ^ 3 -
       x1 * y1 ^ 2 * y2 * x3 + x1 * x2 * x3 ^ 2 * y3 + x1 * y2 * x3 * y3 ^ 2 +
       y1 ^ 3 * x2 * x3 * y3 ^ 2 + y1 ^ 3 * y2 * x3 ^ 2 * y3 - y1 * x2 * x3 * y3 ^ 2 -
       y1 * y2 * x3 ^ 2 * y3) * h2 +
    d * x2 * y2 *
      (d * x1 ^ 2 * y1 * x2 ^ 3 * y2 ^ 2 * x3 - d * x1 ^ 2 * y1 * x2 ^ 2 * y2 ^ 3 * y3 -
       d * x1 * y1 ^ 2 * x2 ^ 3 * y2 ^ 2 * y3 + d * x1 * y1 ^ 2 * x2 ^ 2 * y2 ^ 3 * x3 +
       x1 ^ 3 * x2 ^ 2 * y2 * x3 + x1 ^ 3 * x2 * y2 ^ 2 * y3 + x1 ^ 2 * y1 * x2 ^ 3 * x3 +
       x1 ^ 2 * y1 * y2 ^ 3 * y3 - x1 * y1 ^ 2 * x2 ^ 3 * y3 - x1 * y1 ^ 2 * y2 ^ 3 * x3 +
       x1 * x2 ^ 2 * y2 * x3 + x1 * x2 * y2 ^ 2 * y3 - y1 ^ 3 * x2 ^ 2 * y2 * y3 -
       y1 ^ 3 * x2 * y2 ^ 2 * x3 + y1 * x2 ^ 2 * y2 * y3 + y1 * x2 * y2 ^ 2 * x3) * h3

end Edwards25519
