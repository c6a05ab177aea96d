import Mathlib
import Edwards25519.Proofs.Curve.Encoding
import Edwards25519.Proofs.Curve.Generators

/-!
# Even points

The map that takes a point to the class of `1 + d y ^ 2` modulo squares is a
homomorphism, since `1 + d` is a square. The points it sends to the trivial class
form a subgroup. They are the points for which `1 - y ^ 2` is a square, and this
is the root that an encoder of classes of points has to take.
-/

namespace Edwards25519

open FieldElement

theorem isSquare_one_add_d :
    IsSquare (1 + d) := by
  apply isSquare_of_character
  decide +kernel

namespace AffinePoint

def evenFactor (P : AffinePoint) : FieldElement :=
  1 + d * (P.y * P.y)

theorem evenFactor_ne_zero (P : AffinePoint) :
    evenFactor P ≠ 0 := by
  rw [evenFactor, add_comm]
  exact one_add_d_mul_ne_zero P.y

theorem evenFactor_identity :
    evenFactor identity = 1 + d := by
  rw [evenFactor, identity_y, mul_one, mul_one]

theorem evenFactor_add {P Q : AffinePoint} (hP : P.OnCurve) (hQ : Q.OnCurve) :
    evenFactor (P + Q) * (evenFactor P * evenFactor Q) *
        ((1 - denominatorProduct P Q) * (1 - denominatorProduct P Q)) =
      (1 + d) * ((1 + d * (P.y * P.y) * (Q.y * Q.y)) * (1 + d * (P.y * P.y) * (Q.y * Q.y))) := by
  have hy := add_y_mul hP hQ
  have heven := edwards_even_equation hP hQ
  rw [← heven, ← hy]
  unfold evenFactor denominatorProduct
  ring

theorem isSquare_evenFactor_add {P Q : AffinePoint} (hP : P.OnCurve) (hQ : Q.OnCurve)
    (heven : IsSquare (evenFactor P * evenFactor Q)) :
    IsSquare (evenFactor (P + Q)) := by
  have hadd := evenFactor_add hP hQ
  have hne : evenFactor P * evenFactor Q *
      ((1 - denominatorProduct P Q) * (1 - denominatorProduct P Q)) ≠ 0 := by
    have hminus := one_sub_denominatorProduct_ne_zero hP hQ
    exact mul_ne_zero (mul_ne_zero (evenFactor_ne_zero P) (evenFactor_ne_zero Q))
      (mul_ne_zero hminus hminus)
  rw [mul_assoc] at hadd
  rw [eq_div_of_mul_eq hne hadd]
  apply IsSquare.div
  · exact isSquare_one_add_d.mul (IsSquare.mul_self _)
  · exact heven.mul (IsSquare.mul_self _)

theorem one_sub_y_mul_self {P : AffinePoint} (hP : P.OnCurve) :
    1 - P.y * P.y = sqrtMinusOne * P.x * (sqrtMinusOne * P.x) * evenFactor P := by
  rw [evenFactor]
  linear_combination -hP.equation -
    P.x * P.x * (1 + d * (P.y * P.y)) * sqrtMinusOne_mul_self

theorem isSquare_evenFactor_iff {P : AffinePoint} (hP : P.OnCurve) :
    IsSquare (evenFactor P) <-> IsSquare (1 - P.y * P.y) := by
  rw [one_sub_y_mul_self hP]
  constructor
  · intro h
    exact (IsSquare.mul_self _).mul h
  · intro h
    by_cases hx : P.x = 0
    · have hy : P.y * P.y = 1 := by
        have hcurve := hP.equation
        rw [hx] at hcurve
        linear_combination hcurve
      rw [evenFactor, hy, mul_one]
      exact isSquare_one_add_d
    · rcases h with ⟨w, hw⟩
      apply isSquare_of_mul_self_eq (w := w) (mul_ne_zero sqrtMinusOne_ne_zero hx)
      rw [← hw, mul_comm]

end AffinePoint

namespace CurvePoint

/-- The points at which `1 + d y ^ 2` is a square. -/
def even : AddSubgroup CurvePoint where
  carrier := {P | IsSquare (AffinePoint.evenFactor P.toAffine)}
  zero_mem' := by
    change IsSquare (AffinePoint.evenFactor AffinePoint.identity)
    rw [AffinePoint.evenFactor_identity]
    exact isSquare_one_add_d
  add_mem' := by
    intro P Q hP hQ
    exact AffinePoint.isSquare_evenFactor_add P.onCurve Q.onCurve (IsSquare.mul hP hQ)
  neg_mem' := by
    intro P hP
    exact hP

theorem mem_even_iff (P : CurvePoint) :
    P ∈ even <-> IsSquare (1 - P.toAffine.y * P.toAffine.y) :=
  AffinePoint.isSquare_evenFactor_iff P.onCurve

/-!
## Doubles

The even points are exactly the doubles of points. Doubles are even because
`1 + d y ^ 2` is multiplicative up to squares. Conversely the part of small order
of an even point is an even multiple of the point of order eight, which is not
even itself. Up to points of an order that divides four, a double is a multiple
of the basepoint.
-/

def doubles : AddSubgroup CurvePoint :=
  (nsmulAddMonoidHom 2).range

theorem mem_doubles_iff (P : CurvePoint) :
    P ∈ doubles <-> exists Q : CurvePoint, 2 • Q = P :=
  AddMonoidHom.mem_range

theorem two_nsmul_mem_doubles (P : CurvePoint) :
    2 • P ∈ doubles :=
  (mem_doubles_iff _).mpr ⟨P, rfl⟩

/-! ## Doubles are even -/

theorem doubles_le_even :
    doubles <= even := by
  intro P hP
  rcases (mem_doubles_iff P).mp hP with ⟨Q, rfl⟩
  rw [two_nsmul]
  exact AffinePoint.isSquare_evenFactor_add Q.onCurve Q.onCurve (IsSquare.mul_self _)

theorem orderEight_not_mem_even :
    orderEight ∉ even := by
  rw [mem_even_iff]
  apply not_isSquare_of_character
  decide +kernel

/-! ## Even points are doubles -/

theorem mem_doubles_of_groupOrder_nsmul {P : CurvePoint} (horder : groupOrder • P = 0) :
    P ∈ doubles := by
  have hodd : groupOrder + 1 = 2 * ((groupOrder + 1) / 2) := by decide
  have hP : P = 2 • (((groupOrder + 1) / 2) • P) := by
    rw [← mul_nsmul', ← hodd, succ_nsmul, horder, zero_add]
  rw [hP]
  exact two_nsmul_mem_doubles _

theorem nsmul_orderEight_mem_doubles {k : Nat} (h : k • orderEight ∈ even) :
    k • orderEight ∈ doubles := by
  rcases Nat.even_or_odd' k with ⟨j, hj | hj⟩
  · rw [hj, mul_nsmul']
    exact two_nsmul_mem_doubles _
  · have hdouble : (2 * j) • orderEight ∈ even := by
      rw [mul_nsmul']
      exact doubles_le_even (two_nsmul_mem_doubles _)
    rw [hj, succ_nsmul] at h
    exact absurd ((even.add_mem_cancel_left hdouble).mp h) orderEight_not_mem_even

theorem even_le_doubles :
    even <= doubles := by
  intro P hP
  rcases exists_eq_combine P with ⟨j, k, -, -, rfl⟩
  have hbase : j • basepoint ∈ doubles :=
    mem_doubles_of_groupOrder_nsmul (groupOrder_nsmul_multiple j)
  have hsmall : k • orderEight ∈ even :=
    (even.add_mem_cancel_left (doubles_le_even hbase)).mp hP
  exact doubles.add_mem hbase (nsmul_orderEight_mem_doubles hsmall)

theorem doubles_eq_even :
    doubles = even :=
  le_antisymm doubles_le_even even_le_doubles

/-! ## Multiples of the basepoint in classes -/

theorem nsmul_basepoint_mem_even (n : Nat) :
    n • basepoint ∈ even :=
  doubles_le_even (mem_doubles_of_groupOrder_nsmul (groupOrder_nsmul_multiple n))

theorem exists_nsmul_basepoint_of_mem_even {P : CurvePoint} (hP : P ∈ even) :
    exists j, j < groupOrder ∧ 4 • (j • basepoint) = 4 • P := by
  rcases (mem_doubles_iff P).mp (even_le_doubles hP) with ⟨Q, rfl⟩
  rcases exists_eq_combine Q with ⟨j, k, -, -, rfl⟩
  refine ⟨2 * j % groupOrder, Nat.mod_lt _ Modulus.pos, ?_⟩
  have height : 4 • (2 • (k • orderEight)) = 0 := by
    rw [← mul_nsmul', eight_nsmul_multiple]
  rw [mod_groupOrder_nsmul_basepoint, mul_nsmul']
  rw [combine, nsmul_add, nsmul_add, height, add_zero]

theorem nsmul_basepoint_eq_of_class {j k : Nat}
    (h : 4 • (j • basepoint) = 4 • (k • basepoint)) :
    j • basepoint = k • basepoint := by
  have horder : groupOrder • (j • basepoint - k • basepoint) = 0 := by
    rw [nsmul_sub, groupOrder_nsmul_multiple, groupOrder_nsmul_multiple, sub_self]
  have height : 8 • (j • basepoint - k • basepoint) = 0 := by
    rw [show 8 = 2 * 4 from rfl, mul_nsmul', nsmul_sub, h, sub_self, nsmul_zero]
  exact sub_eq_zero.mp (eq_zero_of_coprime_nsmul height horder)

end CurvePoint

end Edwards25519
