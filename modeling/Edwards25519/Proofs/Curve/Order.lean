import Mathlib
import Edwards25519.Curve.Group
import Edwards25519.Proofs.Curve.Encoding
import Edwards25519.Proofs.Curve.Multiple
import Edwards25519.Proofs.Primality

/-!
# The number of points

The basepoint has the prime order `L` and another point has order eight, so `8 L`
divides the number of points. There are at most two points for each `y`, which
are fewer than `16 L`. So there are exactly `8 L` points, and eight times any
point lies in the subgroup of order `L`.
-/

namespace Edwards25519

open FieldElement

namespace CurvePoint

/-! ## Two points of known order -/

def basepoint : CurvePoint where
  toAffine := AffinePoint.basepoint
  onCurve := by decide +kernel

def orderEight : CurvePoint where
  toAffine :=
    { x := Residue.ofNat
        14399317868200118260347934320527232580618823971194345261214217575416788799818
      y := Residue.ofNat
        2707385501144840649318225287225658788936804267575313519463743609750303402022 }
  onCurve := by decide +kernel

theorem nsmul_eq_zero_iff (n : Nat) (P : CurvePoint) :
    n • P = 0 <-> AffinePoint.multiple n P.toAffine = AffinePoint.identity := by
  rw [AffinePoint.multiple_eq_nsmul]
  constructor
  · intro h
    rw [h, toAffine_zero]
  · intro h
    exact ext h

theorem groupOrder_nsmul_basepoint :
    groupOrder • basepoint = 0 := by
  rw [nsmul_eq_zero_iff]
  decide +kernel

theorem basepoint_ne_zero :
    basepoint ≠ 0 := by
  decide +kernel

theorem addOrderOf_basepoint :
    addOrderOf basepoint = groupOrder := by
  have : Fact groupOrder.Prime := ⟨groupOrder_prime⟩
  exact addOrderOf_eq_prime groupOrder_nsmul_basepoint basepoint_ne_zero

theorem eight_nsmul_orderEight :
    8 • orderEight = 0 := by
  rw [nsmul_eq_zero_iff]
  decide +kernel

theorem addOrderOf_orderEight :
    addOrderOf orderEight = 8 := by
  have hfour : ¬ 2 ^ 2 • orderEight = 0 := by
    rw [nsmul_eq_zero_iff]
    decide +kernel
  exact addOrderOf_eq_prime_pow (n := 2) hfour eight_nsmul_orderEight

/-! ## Counting -/

theorem injective_y_sign :
    Function.Injective fun P : CurvePoint => (P.toAffine.y, P.toAffine.x.isNegative) := by
  intro P Q h
  have hy : P.toAffine.y = Q.toAffine.y := congrArg Prod.fst h
  have hsign : P.toAffine.x.isNegative = Q.toAffine.x.isNegative := congrArg Prod.snd h
  exact ext (AffinePoint.eq_of_y_eq P.onCurve Q.onCurve hy (Or.inr hsign) (Or.inr rfl))

instance : Finite CurvePoint := Finite.of_injective _ injective_y_sign

theorem card_le :
    Nat.card CurvePoint <= fieldPrime * 2 := by
  have h := Nat.card_le_card_of_injective _ injective_y_sign
  rw [Nat.card_prod, Nat.card_eq_fintype_card (α := FieldElement), card_eq,
    Nat.card_eq_fintype_card (α := Bool), Fintype.card_bool] at h
  exact h

theorem coprime_eight_groupOrder :
    Nat.Coprime 8 groupOrder := by
  decide

theorem eight_mul_groupOrder_dvd_card :
    8 * groupOrder ∣ Nat.card CurvePoint := by
  apply coprime_eight_groupOrder.mul_dvd_of_dvd_of_dvd
  · rw [← addOrderOf_orderEight]
    exact addOrderOf_dvd_natCard orderEight
  · rw [← addOrderOf_basepoint]
    exact addOrderOf_dvd_natCard basepoint

theorem card_eq :
    Nat.card CurvePoint = 8 * groupOrder := by
  rcases eight_mul_groupOrder_dvd_card with ⟨k, hk⟩
  have hle := card_le
  have hpos : 0 < Nat.card CurvePoint := Nat.card_pos
  have hbound : fieldPrime * 2 < 8 * groupOrder * 2 := by decide
  have hlt : k < 2 := by
    apply Nat.lt_of_mul_lt_mul_left (a := 8 * groupOrder)
    rw [← hk]
    exact lt_of_le_of_lt hle hbound
  have hne : k ≠ 0 := by
    intro hzero
    rw [hk, hzero, Nat.mul_zero] at hpos
    exact absurd hpos (lt_irrefl 0)
  have hone : k = 1 := by omega
  rw [hk, hone, Nat.mul_one]

theorem groupOrder_nsmul_eight_nsmul (P : CurvePoint) :
    groupOrder • (8 • P) = 0 := by
  rw [← mul_nsmul, ← card_eq]
  exact card_nsmul_eq_zero'

/-!
## Points of small order

A point whose `y` is that of a multiple of the point of order eight is that
multiple or its negation, and eight times it vanishes. No point but the identity
is annihilated both by eight and by the odd prime `L`.
-/

theorem isTorsionFree_iff (P : CurvePoint) :
    P.toAffine.isTorsionFree = true <-> groupOrder • P = 0 := by
  rw [AffinePoint.isTorsionFree, decide_eq_true_eq, nsmul_eq_zero_iff]

theorem eq_or_eq_neg_of_y_eq {P Q : CurvePoint} (hy : P.toAffine.y = Q.toAffine.y) :
    P = Q ∨ P = -Q := by
  by_cases hsign : P.toAffine.x.isNegative = Q.toAffine.x.isNegative
  · left
    exact ext (AffinePoint.eq_of_y_eq P.onCurve Q.onCurve hy (Or.inr hsign) (Or.inr rfl))
  · right
    have hneg : (-Q).toAffine.x = 0 ∨
        (-Q).toAffine.x.isNegative = P.toAffine.x.isNegative := by
      rw [toAffine_neg, AffinePoint.neg_x]
      by_cases hzero : Q.toAffine.x = 0
      · left
        rw [hzero, neg_zero]
      · right
        rw [isNegative_neg _ hzero]
        exact (Bool.eq_not_of_ne hsign).symm
    exact ext (AffinePoint.eq_of_y_eq P.onCurve (-Q).onCurve hy (Or.inr rfl) hneg)

theorem eight_nsmul_multiple (k : Nat) :
    8 • (k • orderEight) = 0 := by
  rw [nsmul_left_comm, eight_nsmul_orderEight, nsmul_zero]

theorem eight_nsmul_of_y_eq {P : CurvePoint} (k : Nat)
    (hy : P.toAffine.y = (k • orderEight).toAffine.y) :
    8 • P = 0 := by
  rcases eq_or_eq_neg_of_y_eq hy with h | h
  · rw [h, eight_nsmul_multiple]
  · rw [h, neg_nsmul, eight_nsmul_multiple, neg_zero]

theorem eq_zero_of_coprime_nsmul {P : CurvePoint} (height : 8 • P = 0)
    (horder : groupOrder • P = 0) :
    P = 0 := by
  have hdvd : addOrderOf P ∣ Nat.gcd 8 groupOrder :=
    Nat.dvd_gcd (addOrderOf_dvd_of_nsmul_eq_zero height)
      (addOrderOf_dvd_of_nsmul_eq_zero horder)
  rw [coprime_eight_groupOrder, Nat.dvd_one] at hdvd
  exact AddMonoid.addOrderOf_eq_one_iff.mp hdvd

theorem eight_nsmul_of_x_eq_zero {P : CurvePoint} (hx : P.toAffine.x = 0) :
    8 • P = 0 := by
  have hself : P = -P := by
    apply ext
    apply AffinePoint.ext
    · rw [toAffine_neg, AffinePoint.neg_x, hx, neg_zero]
    · rfl
  have htwo : 2 • P = 0 := by
    rw [two_nsmul]
    nth_rewrite 1 [hself]
    exact neg_add_cancel P
  rw [show 8 = 2 * 4 from rfl, mul_nsmul, htwo, nsmul_zero]

theorem x_ne_zero_of_groupOrder_nsmul {P : CurvePoint} (hne : P ≠ 0)
    (horder : groupOrder • P = 0) :
    P.toAffine.x ≠ 0 := by
  intro hx
  exact hne (eq_zero_of_coprime_nsmul (eight_nsmul_of_x_eq_zero hx) horder)

end CurvePoint

end Edwards25519
