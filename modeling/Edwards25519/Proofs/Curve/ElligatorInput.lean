import Mathlib
import Edwards25519.Curve.Elligator
import Edwards25519.Proofs.FieldElement.Bytes
import Edwards25519.Proofs.FieldElement.Field

/-!
# The numbers in the inputs of the maps

A hash of 64 bytes is a number in big-endian order. Its top bit is a sign and the
other 511 bits are a field element, which the folding of the two halves computes
without ever holding the number itself. Uniform bytes are a number in the other order
with 255 bits for the field element. So the two inputs say the same if their signs
agree and the numbers below them are congruent modulo the prime, and turning over the
bit of the sign changes nothing else.
-/

namespace Edwards25519
namespace Elligator

open FieldElement

/-! ## Folding the halves -/

theorem two_pow_255_eq :
    (2 : FieldElement) ^ 255 = 19 := by
  have h := (Residue.natCast_eq_natCast_iff (m := fieldPrime) (2 ^ 255) 19).mpr (by decide)
  rw [Nat.cast_pow, Nat.cast_ofNat, Nat.cast_ofNat] at h
  exact h

theorem two_pow_256_eq :
    (2 : FieldElement) ^ 256 = 38 := by
  rw [pow_succ, two_pow_255_eq]
  norm_num

-- The power is too large for the numeral to be evaluated on the way.
theorem two_pow_511_eq :
    (2 : Nat) ^ 511 = 2 ^ 256 * 2 ^ 255 :=
  (congrArg (fun k => 2 ^ k) (show 511 = 256 + 255 from rfl)).trans (pow_add 2 256 255)

/-- The correction makes up for the bit that reading leaves out. -/
theorem ofBytes_add_topBitCorrection (b : Bytes 32) :
    FieldElement.ofBytes b + topBitCorrection b = (b.toNat : FieldElement) := by
  rw [toNat_eq_lowBits_add, Nat.cast_add, ofBytes_eq_ofNat, topBitCorrection,
    Residue.ofNat_eq_natCast]
  cases b.topBit with
  | false => rw [if_neg Bool.false_ne_true, if_neg Bool.false_ne_true, Nat.cast_zero]
  | true =>
      rw [if_pos rfl, if_pos rfl, Nat.cast_pow, Nat.cast_ofNat, two_pow_255_eq]
      rfl

theorem toNatBE_eq_halves (b : Bytes 64) :
    b.toNatBE =
      (Bytes.low (m := 32) (n := 32) b.reverse).toNat +
        2 ^ 256 * (Bytes.high (m := 32) (n := 32) b.reverse).toNat := by
  have h := Bytes.toNat_append (Bytes.low (m := 32) (n := 32) b.reverse)
    (Bytes.high (m := 32) (n := 32) b.reverse)
  rw [Bytes.append_low_high, Bytes.toNat_reverse] at h
  exact h

/-- The halves are folded to the class of the lower 511 bits. -/
theorem ofBytes_add_correction_add_mul (low high : Bytes 32) :
    FieldElement.ofBytes low + topBitCorrection low +
        Residue.ofNat 38 * FieldElement.ofBytes high =
      Residue.ofNat ((low.toNat + 2 ^ 256 * high.toNat) % 2 ^ 511) := by
  have hlow : low.toNat < 2 ^ 256 := low.toNat_lt
  have hmod : (low.toNat + 2 ^ 256 * high.toNat) % 2 ^ 511 =
      low.toNat + 2 ^ 256 * lowBits high := by
    rw [two_pow_511_eq, add_mul_mod_mul hlow]
    rfl
  have hcast : ((low.toNat + 2 ^ 256 * lowBits high : Nat) : FieldElement) =
      (low.toNat : FieldElement) + 38 * (lowBits high : FieldElement) := by
    rw [Nat.cast_add, Nat.cast_mul, Nat.cast_pow, Nat.cast_ofNat, two_pow_256_eq]
  rw [hmod, ofBytes_add_topBitCorrection, ofBytes_eq_ofNat]
  simp only [Residue.ofNat_eq_natCast, hcast, Nat.cast_ofNat]

theorem topBit_high (low high : Bytes 32) :
    high.topBit = (low.toNat + 2 ^ 256 * high.toNat).testBit 511 := by
  have hlow : low.toNat < 2 ^ 256 := low.toNat_lt
  rw [topBit_eq_testBit, Nat.add_comm, Nat.testBit_two_pow_mul_add _ hlow, if_neg (by decide)]

/-! ## What is read from the inputs -/

theorem ofUniform_eq (b : Bytes 32) :
    ofUniform b = (Residue.ofNat (b.toNat % 2 ^ 255), b.toNat.testBit 255) := by
  rw [ofUniform, ofBytes_eq_ofNat, topBit_eq_testBit]
  rfl

theorem ofHash_eq (b : Bytes 64) :
    ofHash b = (Residue.ofNat (b.toNatBE % 2 ^ 511), b.toNatBE.testBit 511) := by
  rw [toNatBE_eq_halves, ← ofBytes_add_correction_add_mul, ← topBit_high]
  rfl

theorem ofHash_of_lt {b : Bytes 64} (h : b.toNatBE < 2 ^ 511) :
    ofHash b = (Residue.ofNat b.toNatBE, false) := by
  rw [ofHash_eq, Nat.mod_eq_of_lt h, Nat.testBit_lt_two_pow h]

theorem ofHash_eq_ofUniform_iff (h : Bytes 64) (b : Bytes 32) :
    ofHash h = ofUniform b <->
      h.toNatBE % 2 ^ 511 ≡ b.toNat % 2 ^ 255 [MOD fieldPrime] ∧
        h.toNatBE.testBit 511 = b.toNat.testBit 255 := by
  rw [ofHash_eq, ofUniform_eq, Prod.mk.injEq, Residue.ofNat_eq_natCast, Residue.ofNat_eq_natCast,
    Residue.natCast_eq_natCast_iff]

/-! ## Turning the sign over -/

theorem ofUniform_xor_signMask (b : Bytes 32) :
    ofUniform (b.xor signMask) = ((ofUniform b).1, !(ofUniform b).2) := by
  rw [ofUniform_eq, ofUniform_eq, Bytes.toNat_xor, toNat_signMask, xor_two_pow_mod,
    testBit_xor_two_pow]

def hashSignMask : Bytes 64 where
  toList := 0x80 :: List.replicate 63 0
  length_toList := rfl

theorem toNatBE_hashSignMask :
    hashSignMask.toNatBE = 2 ^ 511 := by
  rw [Bytes.toNatBE, Bytes.toNat, two_pow_511_eq]
  rfl

theorem ofHash_xor_hashSignMask (h : Bytes 64) :
    ofHash (h.xor hashSignMask) = ((ofHash h).1, !(ofHash h).2) := by
  rw [ofHash_eq, ofHash_eq, Bytes.toNatBE_xor, toNatBE_hashSignMask,
    xor_two_pow_mod h.toNatBE 511, testBit_xor_two_pow h.toNatBE 511]

end Elligator
end Edwards25519
