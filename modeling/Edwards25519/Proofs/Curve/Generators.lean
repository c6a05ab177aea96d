import Mathlib
import Edwards25519.Proofs.Curve.Order

/-!
# Two generators

The basepoint and the point of order eight generate the curve. Every point is a
multiple of the one plus a multiple of the other, and the factors are unique
below the two orders. A point that `L` times gives the identity has no part of
small order, so it is a multiple of the basepoint, and a point that eight times
gives the identity is a multiple of the point of order eight.
-/

namespace Edwards25519
namespace CurvePoint

/-! ## Multiples of the basepoint -/

theorem nsmul_basepoint_eq_zero_iff (n : Nat) :
    n • basepoint = 0 <-> groupOrder ∣ n := by
  rw [← addOrderOf_basepoint, addOrderOf_dvd_iff_nsmul_eq_zero]

theorem groupOrder_nsmul_multiple (n : Nat) :
    groupOrder • (n • basepoint) = 0 := by
  rw [nsmul_left_comm, groupOrder_nsmul_basepoint, nsmul_zero]

theorem mod_groupOrder_nsmul_basepoint (n : Nat) :
    (n % groupOrder) • basepoint = n • basepoint := by
  rw [← addOrderOf_basepoint, mod_addOrderOf_nsmul]

theorem nsmul_basepoint_inj {j k : Nat} (hj : j < groupOrder) (hk : k < groupOrder)
    (h : j • basepoint = k • basepoint) :
    j = k := by
  rw [← addOrderOf_basepoint] at hj hk
  exact nsmul_injOn_Iio_addOrderOf hj hk h

/-! ## Multiples of the point of order eight -/

theorem nsmul_orderEight_eq_zero_iff (n : Nat) :
    n • orderEight = 0 <-> 8 ∣ n := by
  rw [← addOrderOf_orderEight, addOrderOf_dvd_iff_nsmul_eq_zero]

theorem nsmul_orderEight_inj {j k : Nat} (hj : j < 8) (hk : k < 8)
    (h : j • orderEight = k • orderEight) :
    j = k := by
  rw [← addOrderOf_orderEight] at hj hk
  exact nsmul_injOn_Iio_addOrderOf hj hk h

/-! ## Combinations of the generators -/

def combine (j k : Nat) : CurvePoint :=
  j • basepoint + k • orderEight

theorem parts_eq_of_combine_eq {j k j' k' : Nat} (h : combine j k = combine j' k') :
    j • basepoint = j' • basepoint ∧ k • orderEight = k' • orderEight := by
  have hdiff : j • basepoint - j' • basepoint = k' • orderEight - k • orderEight := by
    rw [sub_eq_sub_iff_add_eq_add, add_comm (k' • orderEight)]
    exact h
  -- The common difference vanishes, since both orders annihilate it.
  have height : 8 • (j • basepoint - j' • basepoint) = 0 := by
    rw [hdiff, nsmul_sub, eight_nsmul_multiple, eight_nsmul_multiple, sub_self]
  have horder : groupOrder • (j • basepoint - j' • basepoint) = 0 := by
    rw [nsmul_sub, groupOrder_nsmul_multiple, groupOrder_nsmul_multiple, sub_self]
  have hzero := eq_zero_of_coprime_nsmul height horder
  rw [hzero] at hdiff
  exact ⟨sub_eq_zero.mp hzero, (sub_eq_zero.mp hdiff.symm).symm⟩

theorem injective_combine :
    Function.Injective fun n : Fin groupOrder × Fin 8 => combine n.1.val n.2.val := by
  intro m n h
  rcases parts_eq_of_combine_eq h with ⟨hbase, hsmall⟩
  apply Prod.ext
  · exact Fin.ext (nsmul_basepoint_inj m.1.isLt n.1.isLt hbase)
  · exact Fin.ext (nsmul_orderEight_inj m.2.isLt n.2.isLt hsmall)

/-- There are as many points as pairs of factors below the two orders. -/
theorem bijective_combine :
    Function.Bijective fun n : Fin groupOrder × Fin 8 => combine n.1.val n.2.val := by
  apply injective_combine.bijective_of_nat_card_le
  rw [card_eq, Nat.card_prod, Nat.card_eq_fintype_card (α := Fin groupOrder), Fintype.card_fin,
    Nat.card_eq_fintype_card (α := Fin 8), Fintype.card_fin, Nat.mul_comm]

theorem exists_eq_combine (P : CurvePoint) :
    exists j k, j < groupOrder ∧ k < 8 ∧ P = combine j k := by
  rcases bijective_combine.surjective P with ⟨n, hn⟩
  exact ⟨n.1.val, n.2.val, n.1.isLt, n.2.isLt, hn.symm⟩

theorem combine_add_nsmul (j k m : Nat) :
    combine j k + m • orderEight = combine j (k + m) := by
  rw [combine, combine, add_nsmul, add_assoc]

theorem groupOrder_nsmul_combine_eq_zero_iff (j k : Nat) :
    groupOrder • combine j k = 0 <-> 8 ∣ k := by
  rw [combine, nsmul_add, groupOrder_nsmul_multiple, zero_add, ← nsmul_orderEight_eq_zero_iff]
  constructor
  · intro horder
    exact eq_zero_of_coprime_nsmul (eight_nsmul_multiple k) horder
  · intro hzero
    rw [hzero, nsmul_zero]

theorem exists_nsmul_basepoint {P : CurvePoint} (horder : groupOrder • P = 0) :
    exists j, j < groupOrder ∧ P = j • basepoint := by
  rcases exists_eq_combine P with ⟨j, k, hj, -, rfl⟩
  have hdvd := (groupOrder_nsmul_combine_eq_zero_iff j k).mp horder
  refine ⟨j, hj, ?_⟩
  rw [combine, (nsmul_orderEight_eq_zero_iff k).mpr hdvd, add_zero]

/-! ## Points of small order -/

theorem eight_nsmul_combine_eq_zero_iff (j k : Nat) :
    8 • combine j k = 0 <-> groupOrder ∣ j := by
  rw [combine, nsmul_add, eight_nsmul_multiple, add_zero, ← nsmul_basepoint_eq_zero_iff]
  constructor
  · intro height
    exact eq_zero_of_coprime_nsmul height (groupOrder_nsmul_multiple j)
  · intro hzero
    rw [hzero, nsmul_zero]

theorem eight_nsmul_eq_zero_iff (P : CurvePoint) :
    8 • P = 0 <-> exists k, k < 8 ∧ k • orderEight = P := by
  constructor
  · intro height
    rcases exists_eq_combine P with ⟨j, k, -, hk, rfl⟩
    have hdvd := (eight_nsmul_combine_eq_zero_iff j k).mp height
    refine ⟨k, hk, ?_⟩
    rw [combine, (nsmul_basepoint_eq_zero_iff j).mpr hdvd, zero_add]
  · intro h
    rcases h with ⟨k, -, rfl⟩
    exact eight_nsmul_multiple k

end CurvePoint
end Edwards25519
