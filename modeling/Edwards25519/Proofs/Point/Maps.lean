import Mathlib
import Edwards25519.HashToCurve.Expander
import Edwards25519.Proofs.Curve.Elligator
import Edwards25519.Proofs.Curve.ElligatorInput
import Edwards25519.Proofs.Point.Validity

/-!
# Images of uniform bytes and of hashes

Both maps write a multiple of eight, so they write the canonical string of a
point of the subgroup of prime order. The string is valid unless the point is
the identity.
-/

namespace Edwards25519

open FieldElement

namespace Point

structure IsMapped (p : Point) (r : FieldElement) (negative : Bool) : Prop where
  subgroup : exists Q : CurvePoint,
    p = encode Q.toAffine ∧ p.decode? = some Q.toAffine ∧ groupOrder • Q = 0
  isValid_iff : p.isValid = true <-> p ≠ identity
  eq_identity_iff : p = identity <-> addOrderOf (Elligator.rawCurvePoint r negative) ∣ 8
  small_of_zero : r = 0 -> addOrderOf (Elligator.rawCurvePoint r negative) ∣ 8

theorem ofFieldElement_eq_encode (r : FieldElement) (negative : Bool) :
    ofFieldElement r negative =
      encode (8 • Elligator.rawCurvePoint r negative).toAffine := by
  rw [ofFieldElement, Elligator.map_eq_nsmul]

theorem isMapped_ofFieldElement (r : FieldElement) (negative : Bool) :
    IsMapped (ofFieldElement r negative) r negative := by
  have horder := CurvePoint.groupOrder_nsmul_eight_nsmul (Elligator.rawCurvePoint r negative)
  have hencode := ofFieldElement_eq_encode r negative
  constructor
  · exact ⟨_, hencode, hencode ▸ decodes_encode _, horder⟩
  · rw [hencode]
    exact isValid_encode_iff horder
  · rw [hencode, encode_eq_identity_iff, addOrderOf_dvd_iff_nsmul_eq_zero]
  · intro heq
    subst heq
    exact (Elligator.map_eq_identity_iff 0 negative).mp (Elligator.map_zero negative)

/-- Every string has an image in the subgroup of prime order, and the image tells small orders. -/
theorem fromUniform_fromHash_subgroup (b : Bytes 32) (h : Bytes 64) :
    identity.bytes.toList = 1 :: List.replicate 31 0 ∧
    IsMapped (fromUniform b) (Elligator.ofUniform b).1 (Elligator.ofUniform b).2 ∧
    IsMapped (fromHash h) (Elligator.ofHash h).1 (Elligator.ofHash h).2 :=
  ⟨toList_identity, isMapped_ofFieldElement _ _, isMapped_ofFieldElement _ _⟩

end Point

/-! ## Points of seeds -/

namespace FieldSeed

theorem toNatBE_widen (seed : FieldSeed) :
    seed.widen.toNatBE = seed.bytes.toNatBE :=
  Bytes.toNatBE_zero_append 16 seed.bytes

/-- A seed is too short to reach the sign bit. -/
theorem ofHash_widen (seed : FieldSeed) :
    Elligator.ofHash seed.widen = (Residue.ofNat seed.bytes.toNatBE, false) := by
  have hlt := seed.bytes.toNatBE_lt_two_pow 511 (by decide)
  rw [← toNatBE_widen] at hlt ⊢
  exact Elligator.ofHash_of_lt hlt

/-- The point of the number of a seed before its component of small order is cleared. -/
def rawPoint (seed : FieldSeed) : CurvePoint :=
  Elligator.rawCurvePoint (Residue.ofNat seed.bytes.toNatBE) false

theorem toPoint_eq_encode (seed : FieldSeed) :
    seed.toPoint = Point.encode (8 • seed.rawPoint).toAffine := by
  have hmap : seed.toPoint =
      Point.ofFieldElement (Elligator.ofHash seed.widen).1 (Elligator.ofHash seed.widen).2 := rfl
  rw [hmap, ofHash_widen, Point.ofFieldElement_eq_encode, rawPoint]

end FieldSeed

/-!
## Inputs with the same and with opposite images

A hash has the image of the uniform bytes that hold its sign and the residue of its
other 511 bits, and of every other spelling of these. So the map of hashes is the map
of uniform bytes after a reduction. Two inputs that differ in the bit of the sign alone
have opposite images, which add up to the identity.
-/

namespace Elligator

/-- The uniform bytes that hold the sign of a hash and the residue of its other 511 bits. -/
def narrow (h : Bytes 64) : Bytes 32 :=
  Bytes.ofNat 32
    (h.toNatBE % 2 ^ 511 % fieldPrime + if h.toNatBE.testBit 511 then 2 ^ 255 else 0)

theorem mod_fieldPrime_lt (v : Nat) :
    v % fieldPrime < 2 ^ 255 :=
  lt_trans (Nat.mod_lt v (by decide)) (by decide)

theorem lowBits_narrow (h : Bytes 64) :
    lowBits (narrow h) = h.toNatBE % 2 ^ 511 % fieldPrime :=
  lowBits_ofNat_parts (mod_fieldPrime_lt _) _

theorem topBit_narrow (h : Bytes 64) :
    (narrow h).topBit = h.toNatBE.testBit 511 :=
  topBit_ofNat_parts (mod_fieldPrime_lt _) _

theorem ofHash_eq_ofUniform_narrow (h : Bytes 64) :
    ofHash h = ofUniform (narrow h) := by
  rw [ofHash_eq_ofUniform_iff, ← topBit_eq_testBit, topBit_narrow]
  refine ⟨?_, rfl⟩
  change _ ≡ lowBits (narrow h) [MOD fieldPrime]
  rw [lowBits_narrow]
  exact (Nat.mod_modEq _ _).symm

end Elligator

namespace Point

/-! ## The same image -/

theorem fromHash_eq_fromUniform_of_input {h : Bytes 64} {b : Bytes 32}
    (hinput : Elligator.ofHash h = Elligator.ofUniform b) :
    fromHash h = fromUniform b := by
  rw [fromHash, fromUniform, hinput]

theorem fromUniform_eq_fromHash {h : Bytes 64} {b : Bytes 32}
    (hlow : b.toNat % 2 ^ 255 ≡ h.toNatBE % 2 ^ 511 [MOD fieldPrime])
    (hsign : b.toNat.testBit 255 = h.toNatBE.testBit 511) :
    fromUniform b = fromHash h :=
  (fromHash_eq_fromUniform_of_input
    ((Elligator.ofHash_eq_ofUniform_iff h b).mpr ⟨hlow.symm, hsign.symm⟩)).symm

theorem narrow_widen (seed : FieldSeed) :
    Elligator.narrow seed.widen = Bytes.ofNat 32 (seed.bytes.toNatBE % fieldPrime) := by
  have hlt := seed.bytes.toNatBE_lt_two_pow 511 (by decide)
  rw [Elligator.narrow, FieldSeed.toNatBE_widen, Nat.mod_eq_of_lt hlt, Nat.testBit_lt_two_pow hlt,
    if_neg Bool.false_ne_true, Nat.add_zero]

theorem fromHash_eq_fromUniform_narrow (h : Bytes 64) :
    fromHash h = fromUniform (Elligator.narrow h) :=
  fromHash_eq_fromUniform_of_input (Elligator.ofHash_eq_ofUniform_narrow h)

/-- A hash has the image of all uniform bytes with its sign and its residue. -/
theorem fromHash_agrees_with_fromUniform (h : Bytes 64) (seed : FieldSeed) :
    fromHash h = fromUniform (Elligator.narrow h) ∧
    (forall b : Bytes 32, b.toNat % 2 ^ 255 ≡ h.toNatBE % 2 ^ 511 [MOD fieldPrime] ->
      b.toNat.testBit 255 = h.toNatBE.testBit 511 -> fromUniform b = fromHash h) ∧
    seed.toPoint = fromUniform (Bytes.ofNat 32 (seed.bytes.toNatBE % fieldPrime)) := by
  refine ⟨fromHash_eq_fromUniform_narrow h, fun _ => fromUniform_eq_fromHash, ?_⟩
  rw [← narrow_widen, ← fromHash_eq_fromUniform_narrow]
  rfl

/-- The hash of a number of 511 bits that leaves the residue five, below a sign that is set. -/
def fiveHash : Bytes 64 :=
  Bytes.ofNatBE 64 (5 + fieldPrime * 2 ^ 250 + 2 ^ 511)

def fiveAlias : Bytes 32 :=
  Bytes.ofNat 32 (5 + fieldPrime + 2 ^ 255)

/-- The hypotheses hold at two numbers that are both reduced. -/
theorem fromHash_agrees_with_fromUniform_five :
    fiveAlias.toNat % 2 ^ 255 ≡ fiveHash.toNatBE % 2 ^ 511 [MOD fieldPrime] ∧
    fiveAlias.toNat.testBit 255 = fiveHash.toNatBE.testBit 511 ∧
    fromUniform fiveAlias = fromHash fiveHash := by
  have hlow : fiveAlias.toNat % 2 ^ 255 ≡ fiveHash.toNatBE % 2 ^ 511 [MOD fieldPrime] := by
    decide +kernel
  have hsign : fiveAlias.toNat.testBit 255 = fiveHash.toNatBE.testBit 511 := by
    decide +kernel
  exact ⟨hlow, hsign,
    (fromHash_agrees_with_fromUniform fiveHash { bytes := Bytes.zero 48 }).2.1 _ hlow hsign⟩

/-! ## Opposite images -/

theorem ofFieldElement_not (r : FieldElement) (negative : Bool) :
    ofFieldElement r (!negative) =
      encode (-(8 • Elligator.rawCurvePoint r negative)).toAffine := by
  rw [ofFieldElement_eq_encode, Elligator.rawCurvePoint_not, neg_nsmul]

theorem add_ofFieldElement_not (r : FieldElement) (negative : Bool) :
    add (ofFieldElement r negative) (ofFieldElement r (!negative)) = .ok identity := by
  rw [ofFieldElement_not, ofFieldElement_eq_encode,
    add_of_decodes (decodes_encode _) (decodes_encode _), add_neg_cancel]
  rfl

theorem sub_identity_ofFieldElement (r : FieldElement) (negative : Bool) :
    sub identity (ofFieldElement r negative) = .ok (ofFieldElement r (!negative)) := by
  rw [ofFieldElement_not, ofFieldElement_eq_encode,
    sub_of_decodes decodes_identity (decodes_encode _), zero_sub]

theorem fromUniform_xor_signMask (b : Bytes 32) :
    fromUniform (b.xor signMask) =
      ofFieldElement (Elligator.ofUniform b).1 (!(Elligator.ofUniform b).2) := by
  rw [fromUniform, Elligator.ofUniform_xor_signMask]

theorem fromHash_xor_hashSignMask (h : Bytes 64) :
    fromHash (h.xor Elligator.hashSignMask) =
      ofFieldElement (Elligator.ofHash h).1 (!(Elligator.ofHash h).2) := by
  rw [fromHash, Elligator.ofHash_xor_hashSignMask]

/-- Turning the bit of the sign over negates the image, in either order of the bytes. -/
theorem sign_bit_negates (b : Bytes 32) (h : Bytes 64) :
    identity.bytes.toList = 1 :: List.replicate 31 0 ∧
    (add (fromUniform b) (fromUniform (b.xor signMask)) = .ok identity ∧
      sub identity (fromUniform b) = .ok (fromUniform (b.xor signMask))) ∧
    (add (fromHash h) (fromHash (h.xor Elligator.hashSignMask)) = .ok identity ∧
      sub identity (fromHash h) = .ok (fromHash (h.xor Elligator.hashSignMask))) := by
  rw [fromUniform_xor_signMask, fromHash_xor_hashSignMask]
  exact ⟨toList_identity,
    ⟨add_ofFieldElement_not _ _, sub_identity_ofFieldElement _ _⟩,
    ⟨add_ofFieldElement_not _ _, sub_identity_ofFieldElement _ _⟩⟩

end Point
end Edwards25519
