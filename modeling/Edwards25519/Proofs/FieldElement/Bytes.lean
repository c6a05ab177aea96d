import Mathlib
import Edwards25519.Bytes.Range
import Edwards25519.FieldElement
import Edwards25519.Proofs.FieldElement.Sign

/-!
# Field elements as bytes

A string of 32 bytes is determined by the number in its low 255 bits and by its
top bit. Reading adds up two parts of the low bits, which reduces them modulo the
prime. Writing gives the only string below the prime that reads as the element.
-/

namespace Edwards25519
namespace FieldElement

/-! ## The two parts of a string -/

theorem toNat_eq_lowBits_add (b : Bytes 32) :
    b.toNat = lowBits b + if b.topBit then 2 ^ 255 else 0 := by
  have hlt : b.toNat < 2 ^ 256 := b.toNat_lt
  have htop : b.topBit = decide (2 ^ 255 <= b.toNat) := rfl
  have hlow : lowBits b = b.toNat % 2 ^ 255 := rfl
  rw [htop, hlow]
  by_cases h : 2 ^ 255 <= b.toNat
  · rw [decide_eq_true h, if_pos rfl]
    omega
  · rw [decide_eq_false h, if_neg Bool.false_ne_true]
    omega

theorem lowBits_lt (b : Bytes 32) :
    lowBits b < 2 ^ 255 :=
  Nat.mod_lt b.toNat (by decide)

theorem bytes_eq_of_parts {a b : Bytes 32} (hlow : lowBits a = lowBits b)
    (htop : a.topBit = b.topBit) :
    a = b := by
  rw [← Bytes.toNat_inj, toNat_eq_lowBits_add a, toNat_eq_lowBits_add b, hlow, htop]

theorem lowBits_ofNat (v : Nat) :
    lowBits (Bytes.ofNat 32 v) = v % 2 ^ 255 := by
  have hdvd : 2 ^ 255 ∣ 256 ^ 32 := by decide
  change (Bytes.ofNat 32 v).toNat % 2 ^ 255 = v % 2 ^ 255
  rw [Bytes.toNat_ofNat, Nat.mod_mod_of_dvd v hdvd]

theorem toNat_ofNat_parts {v : Nat} (hv : v < 2 ^ 255) (s : Bool) :
    (Bytes.ofNat 32 (v + if s then 2 ^ 255 else 0)).toNat =
      v + if s then 2 ^ 255 else 0 := by
  apply Bytes.toNat_ofNat_of_lt
  cases s with
  | false =>
      rw [if_neg Bool.false_ne_true]
      omega
  | true =>
      rw [if_pos rfl]
      omega

theorem lowBits_ofNat_parts {v : Nat} (hv : v < 2 ^ 255) (s : Bool) :
    lowBits (Bytes.ofNat 32 (v + if s then 2 ^ 255 else 0)) = v := by
  rw [lowBits_ofNat]
  cases s with
  | false => rw [if_neg Bool.false_ne_true, Nat.add_zero, Nat.mod_eq_of_lt hv]
  | true => rw [if_pos rfl, Nat.add_mod_right, Nat.mod_eq_of_lt hv]

theorem topBit_ofNat_parts {v : Nat} (hv : v < 2 ^ 255) (s : Bool) :
    (Bytes.ofNat 32 (v + if s then 2 ^ 255 else 0)).topBit = s := by
  have h := toNat_ofNat_parts hv s
  change decide (2 ^ 255 <= (Bytes.ofNat 32 (v + if s then 2 ^ 255 else 0)).toNat) = s
  rw [h]
  cases s with
  | false =>
      rw [if_neg Bool.false_ne_true, Nat.add_zero]
      exact decide_eq_false (Nat.not_le_of_lt hv)
  | true =>
      rw [if_pos rfl]
      exact decide_eq_true (Nat.le_add_left (2 ^ 255) v)

/-! ## Turning the top bit over -/

def signMask : Bytes 32 where
  toList := List.replicate 31 0 ++ [0x80]
  length_toList := rfl

theorem toNat_signMask :
    signMask.toNat = 2 ^ 255 := by
  rw [Bytes.toNat]
  rfl

theorem lowBits_xor_signMask (b : Bytes 32) :
    lowBits (b.xor signMask) = lowBits b := by
  change (b.xor signMask).toNat % 2 ^ 255 = b.toNat % 2 ^ 255
  rw [Bytes.toNat_xor, toNat_signMask, xor_two_pow_mod]

theorem topBit_eq_testBit (b : Bytes 32) :
    b.topBit = b.toNat.testBit 255 :=
  Bytes.topBit_eq_testBit (by decide) b

theorem topBit_xor_signMask (b : Bytes 32) :
    (b.xor signMask).topBit = !b.topBit := by
  rw [topBit_eq_testBit, topBit_eq_testBit, Bytes.toNat_xor, toNat_signMask, testBit_xor_two_pow]

/-! ## Reading -/

theorem val_highPart (b : Bytes 32) :
    (highPart b).val = 2 ^ 254 * (b.toNat.testBit 254).toNat := by
  rw [highPart]
  cases b.toNat.testBit 254 with
  | false => exact Residue.val_zero
  | true => exact (Nat.mul_one (2 ^ 254)).symm

theorem lowBits_eq_parts (b : Bytes 32) :
    lowBits b = (lowPart b).val + (highPart b).val := by
  rw [val_highPart, Nat.toNat_testBit]
  exact Nat.mod_pow_succ

theorem ofBytes_eq_ofNat (b : Bytes 32) :
    ofBytes b = Residue.ofNat (lowBits b) := by
  apply Residue.ext
  rw [ofBytes, Residue.val_add, Residue.val_ofNat, lowBits_eq_parts]

theorem val_ofBytes (b : Bytes 32) :
    (ofBytes b).val = lowBits b % fieldPrime := by
  rw [ofBytes_eq_ofNat, Residue.val_ofNat]

theorem ofBytes_eq_iff (b : Bytes 32) (a : FieldElement) :
    ofBytes b = a <-> lowBits b % fieldPrime = a.val := by
  rw [← val_ofBytes, Residue.val_inj]

/-! ## Writing -/

theorem val_lt_two_pow (a : FieldElement) :
    a.val < 2 ^ 255 :=
  lt_of_lt_of_le a.val_lt (by decide)

theorem toNat_toBytes (a : FieldElement) :
    a.toBytes.toNat = a.val := by
  have hlt := val_lt_two_pow a
  apply Bytes.toNat_ofNat_of_lt
  omega

theorem lowBits_of_toNat_lt {b : Bytes 32} (h : b.toNat < fieldPrime) :
    lowBits b = b.toNat := by
  apply Nat.mod_eq_of_lt
  exact lt_of_lt_of_le h (by decide)

theorem val_ofBytes_of_toNat_lt {b : Bytes 32} (h : b.toNat < fieldPrime) :
    (ofBytes b).val = b.toNat := by
  rw [val_ofBytes, lowBits_of_toNat_lt h, Nat.mod_eq_of_lt h]

theorem ofBytes_toBytes (a : FieldElement) :
    ofBytes a.toBytes = a := by
  have h : a.toBytes.toNat < fieldPrime := by
    rw [toNat_toBytes]
    exact a.val_lt
  apply Residue.ext
  rw [val_ofBytes_of_toNat_lt h, toNat_toBytes]

theorem toBytes_ofBytes {b : Bytes 32} (h : b.toNat < fieldPrime) :
    (ofBytes b).toBytes = b := by
  rw [← Bytes.toNat_inj, toNat_toBytes, val_ofBytes_of_toNat_lt h]

end FieldElement
end Edwards25519
