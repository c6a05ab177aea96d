import Mathlib
import Edwards25519.Proofs.FieldElement.Bytes
import Edwards25519.Proofs.FieldElement.Field

/-!
# The operations modulo the prime

Field elements are the integers modulo `2 ^ 255 - 19`. Reading takes every string
to the class of its low 255 bits, and writing gives a string back exactly if it was
reduced. The two powers with fixed exponents are the inverse and the quadratic
character, since the modulus is prime.
-/

namespace Edwards25519
namespace FieldElement

def equivZMod : FieldElement ≃+* ZMod fieldPrime where
  toFun := Residue.toZMod
  invFun z := Residue.ofNat z.val
  left_inv a := by
    apply Residue.toZMod_injective
    rw [Residue.toZMod_ofNat, ZMod.natCast_zmod_val]
  right_inv z := by
    rw [Residue.toZMod_ofNat, ZMod.natCast_zmod_val]
  map_mul' := Residue.toZMod_mul
  map_add' := Residue.toZMod_add

/-! ## Bytes -/

theorem toBytes_inj {a c : FieldElement} :
    a.toBytes = c.toBytes <-> a = c :=
  (Function.LeftInverse.injective ofBytes_toBytes).eq_iff

theorem topBit_of_toNat_lt {b : Bytes 32} (h : b.toNat < fieldPrime) :
    b.topBit = false := by
  have hlt : b.toNat < 2 ^ 255 := lt_trans h (by decide)
  exact decide_eq_false (Nat.not_le_of_lt hlt)

theorem toBytes_ofBytes_iff (b : Bytes 32) :
    (ofBytes b).toBytes = b <-> b.topBit = false ∧ b.toNat < fieldPrime := by
  constructor
  · intro h
    have hlt : b.toNat < fieldPrime := by
      rw [← h, toNat_toBytes]
      exact (ofBytes b).val_lt
    exact ⟨topBit_of_toNat_lt hlt, hlt⟩
  · intro h
    exact toBytes_ofBytes h.2

/-! ## Inverses -/

theorem inverse_eq_zero_iff (a : FieldElement) :
    inverse a = 0 <-> a = 0 := by
  rw [inverse_eq_inv, inv_eq_zero]

theorem mul_inverse_eq_one_iff (a : FieldElement) :
    a * inverse a = 1 <-> a ≠ 0 := by
  constructor
  · intro h hzero
    rw [hzero, zero_mul] at h
    exact zero_ne_one h
  · exact mul_inverse a

/-! ## The character -/

theorem exists_square_eq_iff (a : FieldElement) :
    (exists w : FieldElement, w.square = a) <-> IsSquare a := by
  simp only [Residue.square_eq_mul, isSquare_iff_exists_mul_self, eq_comm]

theorem character_eq_zero_iff (a : FieldElement) :
    character a = 0 <-> a = 0 := by
  have hexp : (fieldPrime - 1) / 2 ≠ 0 := by decide
  rw [character, Residue.power_eq_pow]
  exact pow_eq_zero_iff hexp

theorem character_eq_one_iff_exists (a : FieldElement) :
    character a = 1 <-> exists w : FieldElement, w ≠ 0 ∧ w.square = a := by
  constructor
  · intro h
    rcases isSquare_of_character h with ⟨w, rfl⟩
    refine ⟨w, ?_, rfl⟩
    -- Zero is a square as well, but its character is zero.
    intro hzero
    rw [hzero, mul_zero, (character_eq_zero_iff 0).mpr rfl] at h
    exact zero_ne_one h
  · intro h
    rcases h with ⟨w, hw, rfl⟩
    exact (character_eq_one_iff _ (mul_ne_zero hw hw)).mpr ⟨w, rfl⟩

theorem character_eq_neg_one_iff_not_exists (a : FieldElement) :
    character a = -1 <-> ¬ exists w : FieldElement, w.square = a := by
  rw [character_eq_neg_one_iff, exists_square_eq_iff]

/-- Reading, writing, inverting and the character are those of the field of the prime. -/
theorem operations_modulo_fieldPrime (b : Bytes 32) (x : FieldElement) :
    fieldPrime = 2 ^ 255 - 19 ∧ fieldPrime.Prime ∧
    (exists e : FieldElement ≃+* ZMod fieldPrime, forall a, e a = (a.val : ZMod fieldPrime)) ∧
    (ofBytes b).val = b.toNat % 2 ^ 255 % fieldPrime ∧
    ((ofBytes b).toBytes = b <-> b.topBit = false ∧ b.toNat < fieldPrime) ∧
    (inverse x = 0 <-> x = 0) ∧
    (x * inverse x = 1 <-> x ≠ 0) ∧
    ((character x).val = 0 <-> x = 0) ∧
    ((character x).val = 1 <-> exists w : FieldElement, w ≠ 0 ∧ w.square = x) ∧
    ((character x).val = fieldPrime - 1 <-> ¬ exists w : FieldElement, w.square = x) ∧
    ((character x).toBytes = (-1 : FieldElement).toBytes <->
      ¬ exists w : FieldElement, w.square = x) := by
  refine ⟨rfl, fieldPrime_prime, ⟨equivZMod, fun a => rfl⟩, val_ofBytes b, toBytes_ofBytes_iff b,
    inverse_eq_zero_iff x, mul_inverse_eq_one_iff x, ?_, ?_, ?_, ?_⟩
  · rw [val_eq_zero_iff, character_eq_zero_iff]
  · rw [← character_eq_one_iff_exists, ← Residue.val_inj, Residue.val_one_of_prime]
  · rw [← character_eq_neg_one_iff_not_exists, ← Residue.val_inj, Residue.val_neg_one_of_prime]
  · rw [toBytes_inj, character_eq_neg_one_iff_not_exists]

/-- The exponents that the inverse and the character run through. -/
example :
    fieldPrime - 2 = 0x7fffffffffffffffffffffffffffffffffffffffffffffffffffffffffffffeb ∧
    (fieldPrime - 1) / 2 = 0x3ffffffffffffffffffffffffffffffffffffffffffffffffffffffffffffff6 := by
  decide

end FieldElement
end Edwards25519
