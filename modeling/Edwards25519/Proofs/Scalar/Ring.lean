import Mathlib
import Edwards25519.Bytes.Range
import Edwards25519.Proofs.Residue.Ring
import Edwards25519.Proofs.Scalar.Sampling

/-!
# The ring of scalars

The integers of 512 bits in which sums and differences are taken are wide enough
for every pair of strings, so none of them wraps. Each operation therefore writes
the number below the group order that is congruent to the integer it stands for,
whether or not its operands were reduced.
-/

namespace Edwards25519

/-! ## Integers of 512 bits -/

namespace Scalar

theorem toNat_lt (x : Scalar) :
    x.toNat < 2 ^ 256 :=
  x.bytes.toNat_lt

theorem toNat_widen (x : Scalar) :
    x.widen.toNat = x.toNat := by
  have hlt := x.toNat_lt
  rw [widen, BitVec.toNat_ofNat]
  apply Nat.mod_eq_of_lt
  omega

/-- The carry out of 256 bits is kept. -/
theorem toNat_wideSum (x y : Scalar) :
    (wideSum x y).toNat = x.toNat + y.toNat := by
  have hx := x.toNat_lt
  have hy := y.toNat_lt
  rw [wideSum, BitVec.toNat_add, toNat_widen, toNat_widen]
  apply Nat.mod_eq_of_lt
  omega

theorem toNat_shiftedOrder {low : Nat} (hlow : low <= 1) :
    (shiftedOrder low).toNat = groupOrder * 2 ^ 256 + low := by
  have horder : groupOrder < 2 ^ 253 := by decide
  have hpower : Nat.pow 2 256 = 2 ^ 256 := rfl
  rw [shiftedOrder, hpower, BitVec.toNat_ofNat]
  apply Nat.mod_eq_of_lt
  omega

/-- There is no borrow, since the shifted order is above every scalar. -/
theorem toNat_wideDifference {low : Nat} (hlow : low <= 1) (x : Scalar) :
    ((wideDifference low x).toNat : Int) = groupOrder * 2 ^ 256 + low - x.toNat := by
  have hx := x.toNat_lt
  have hpos : 0 < groupOrder := Modulus.pos
  have hle : x.widen <= shiftedOrder low := by
    rw [BitVec.le_def, toNat_widen, toNat_shiftedOrder hlow]
    omega
  rw [wideDifference, BitVec.toNat_sub_of_le hle, toNat_widen, toNat_shiftedOrder hlow]
  omega

/-! ## Operations on classes -/

theorem toNat_ofResidue (r : Residue groupOrder) :
    (ofResidue r).toNat = r.val := by
  have hbound : groupOrder <= 256 ^ 32 := by decide
  exact Bytes.toNat_ofNat_of_lt (lt_of_lt_of_le r.val_lt hbound)

@[simp] theorem residue_ofResidue (r : Residue groupOrder) :
    (ofResidue r).residue = r := by
  rw [residue, toNat_ofResidue, Residue.ofNat_val]

theorem residue_eq_natCast (x : Scalar) :
    x.residue = (x.toNat : Residue groupOrder) :=
  rfl

theorem residue_eq_intCast (x : Scalar) :
    x.residue = ((x.toNat : Int) : Residue groupOrder) :=
  (Int.cast_natCast x.toNat).symm

theorem reduce_ofBitVec (v : BitVec 512) :
    (WideScalar.ofBitVec v).reduce = ofResidue (v.toNat : Residue groupOrder) := by
  have hlt := v.isLt
  have hwritten : (WideScalar.ofBitVec v).bytes.toNat = v.toNat := by
    apply Bytes.toNat_ofNat_of_lt
    omega
  rw [WideScalar.reduce, hwritten]
  rfl

theorem reduce_wideDifference {low : Nat} (hlow : low <= 1) (x : Scalar) :
    (WideScalar.ofBitVec (wideDifference low x)).reduce =
      ofResidue ((low : Residue groupOrder) - x.residue) := by
  have hcast := congrArg (Int.cast (R := Residue groupOrder)) (toNat_wideDifference hlow x)
  push_cast at hcast
  rw [Residue.natCast_modulus, zero_mul, zero_add, ← residue_eq_natCast] at hcast
  rw [reduce_ofBitVec, hcast]

theorem add_eq_ofResidue (x y : Scalar) :
    add x y = ofResidue (x.residue + y.residue) := by
  rw [add, reduce_ofBitVec, toNat_wideSum, Nat.cast_add]
  rfl

theorem negate_eq_ofResidue (x : Scalar) :
    negate x = ofResidue (-x.residue) := by
  rw [negate, reduce_wideDifference (Nat.zero_le 1), Nat.cast_zero, zero_sub]

theorem complement_eq_ofResidue (x : Scalar) :
    complement x = ofResidue (1 - x.residue) := by
  rw [complement, reduce_wideDifference (Nat.le_refl 1), Nat.cast_one]

theorem sub_eq_ofResidue (x y : Scalar) :
    sub x y = ofResidue (x.residue - y.residue) := by
  rw [sub, add_eq_ofResidue, negate_eq_ofResidue, residue_ofResidue, ← sub_eq_add_neg]

theorem mul_eq_ofResidue (x y : Scalar) :
    mul x y = ofResidue (x.residue * y.residue) :=
  rfl

/-! ## Reduced scalars -/

/-- The scalar writes the number below the group order that is congruent to an integer. -/
structure IsReduced (z : Scalar) (v : Int) : Prop where
  lt : z.toNat < groupOrder
  congruent : (z.toNat : Int) ≡ v [ZMOD groupOrder]

theorem eq_ofResidue_iff (z : Scalar) (v : Int) :
    z = ofResidue (v : Residue groupOrder) <-> IsReduced z v := by
  have hclass : (z.toNat : Int) ≡ v [ZMOD groupOrder] <->
      z.residue = (v : Residue groupOrder) := by
    rw [← Residue.intCast_eq_intCast_iff, residue_eq_intCast]
  constructor
  · intro h
    rw [h]
    refine ⟨?_, ?_⟩
    · rw [toNat_ofResidue]
      exact (v : Residue groupOrder).val_lt
    · rw [← h, hclass, h, residue_ofResidue]
  · intro h
    have hval : z.residue.val = z.toNat :=
      (Residue.val_ofNat z.toNat).trans (Nat.mod_eq_of_lt h.lt)
    rw [← toNat_inj, toNat_ofResidue, ← hclass.mp h.congruent, hval]

theorem IsReduced.unique {z z' : Scalar} {v : Int} (h : IsReduced z v) (h' : IsReduced z' v) :
    z = z' := by
  rw [(eq_ofResidue_iff z v).mpr h, (eq_ofResidue_iff z' v).mpr h']

theorem isCanonical_iff (x : Scalar) :
    x.isCanonical = true <-> x.toNat < groupOrder := by
  rw [isCanonical, decide_eq_true_eq]

theorem add_zero_eq_self_iff (x : Scalar) :
    add x zero = x <-> x.toNat < groupOrder := by
  have hzero : zero.residue = 0 := by
    have hnumber : zero.toNat = 0 := Bytes.toNat_zero 32
    rw [residue_eq_natCast, hnumber, Nat.cast_zero]
  rw [add_eq_ofResidue, hzero, add_zero, residue_eq_intCast, eq_comm, eq_ofResidue_iff]
  constructor
  · intro h
    exact h.lt
  · intro h
    exact ⟨h, Int.ModEq.refl _⟩

/-! ## The operations on numbers -/

theorem eq_reduce_iff (z : Scalar) (v : WideScalar) :
    z = v.reduce <-> IsReduced z v.bytes.toNat := by
  rw [← eq_ofResidue_iff, Int.cast_natCast]
  rfl

theorem eq_add_iff (z x y : Scalar) :
    z = add x y <-> IsReduced z (x.toNat + y.toNat) := by
  rw [add_eq_ofResidue, residue_eq_intCast, residue_eq_intCast, ← Int.cast_add, eq_ofResidue_iff]

theorem eq_sub_iff (z x y : Scalar) :
    z = sub x y <-> IsReduced z (x.toNat - y.toNat) := by
  rw [sub_eq_ofResidue, residue_eq_intCast, residue_eq_intCast, ← Int.cast_sub, eq_ofResidue_iff]

theorem eq_negate_iff (z x : Scalar) :
    z = negate x <-> IsReduced z (-x.toNat) := by
  rw [negate_eq_ofResidue, residue_eq_intCast, ← Int.cast_neg, eq_ofResidue_iff]

theorem eq_complement_iff (z x : Scalar) :
    z = complement x <-> IsReduced z (1 - x.toNat) := by
  rw [complement_eq_ofResidue, residue_eq_intCast, ← Int.cast_one, ← Int.cast_sub,
    eq_ofResidue_iff]

theorem eq_mul_iff (z x y : Scalar) :
    z = mul x y <-> IsReduced z (x.toNat * y.toNat) := by
  rw [mul_eq_ofResidue, residue_eq_intCast, residue_eq_intCast, ← Int.cast_mul, eq_ofResidue_iff]

end Scalar

end Edwards25519
