import Mathlib
import Edwards25519.Proofs.Ristretto.GroupLaws
import Edwards25519.Proofs.Ristretto.OneWayMap

/-!
# Elements from the halves of a hash

Each half of a hash is mapped to a valid element of its own, and the hash to the sum
of the two. A half enters only through the number in its low 255 bits modulo the
prime, and of that number the sign does not matter.
-/

namespace Edwards25519
namespace Ristretto

open FieldElement

/-! ## Halves with the same image -/

/-- The low 255 bits are congruent modulo the prime, up to the sign. -/
def SameUpToSign (a b : Bytes 32) : Prop :=
  (lowBits a : Int) ≡ lowBits b [ZMOD fieldPrime] ∨
    (lowBits a : Int) ≡ -lowBits b [ZMOD fieldPrime]

theorem ofBytes_eq_intCast (b : Bytes 32) :
    FieldElement.ofBytes b = ((lowBits b : Int) : FieldElement) := by
  rw [ofBytes_eq_ofNat, Int.cast_natCast, Residue.ofNat_eq_natCast]

theorem sameUpToSign_iff (a b : Bytes 32) :
    SameUpToSign a b <->
      FieldElement.ofBytes a = FieldElement.ofBytes b ∨
        FieldElement.ofBytes a = -FieldElement.ofBytes b := by
  rw [SameUpToSign, ofBytes_eq_intCast, ofBytes_eq_intCast, ← Int.cast_neg,
    Residue.intCast_eq_intCast_iff, Residue.intCast_eq_intCast_iff]

theorem SameUpToSign.refl (a : Bytes 32) :
    SameUpToSign a a :=
  Or.inl (Int.ModEq.refl _)

theorem sameUpToSign_xor_signMask (a : Bytes 32) :
    SameUpToSign (a.xor signMask) a := by
  rw [SameUpToSign, lowBits_xor_signMask]
  exact Or.inl (Int.ModEq.refl _)

theorem sameUpToSign_toBytes_neg (r : FieldElement) :
    SameUpToSign (-r).toBytes r.toBytes := by
  rw [sameUpToSign_iff, ofBytes_toBytes, ofBytes_toBytes]
  exact Or.inr rfl

namespace Element

theorem pointOfHalf_congr {a b : Bytes 32} (h : SameUpToSign a b) :
    pointOfHalf a = pointOfHalf b := by
  rw [pointOfHalf, pointOfHalf]
  rcases (sameUpToSign_iff a b).mp h with heq | hneg
  · rw [heq]
  · rw [hneg, oneWayMap_neg]

/-! ## The element of one half -/

def ofHalf (b : Bytes 32) : Element :=
  encode (pointOfHalf b)

def curvePointOfHalf (b : Bytes 32) : CurvePoint :=
  mappedPoint (FieldElement.ofBytes b)

theorem toAffine_curvePointOfHalf (b : Bytes 32) :
    (curvePointOfHalf b).toAffine = pointOfHalf b :=
  rfl

theorem curvePointOfHalf_mem_even (b : Bytes 32) :
    curvePointOfHalf b ∈ CurvePoint.even :=
  mappedPoint_mem_even (FieldElement.ofBytes b)

theorem standsFor_ofHalf (b : Bytes 32) :
    (ofHalf b).StandsFor (curvePointOfHalf b) where
  even := curvePointOfHalf_mem_even b
  eq_encode := by rw [ofHalf, toAffine_curvePointOfHalf]

/-! ## The sum of both halves -/

variable (a b : Bytes 32)

theorem fromHash_append :
    fromHash (Bytes.append a b) = encode (pointOfHalf a + pointOfHalf b) := by
  have hlow : Bytes.low (m := 32) (n := 32) (Bytes.append a b) = a := Bytes.low_append a b
  have hhigh : Bytes.high (m := 32) (n := 32) (Bytes.append a b) = b := Bytes.high_append a b
  rw [fromHash, hlow, hhigh]

theorem add_ofHalf :
    add (ofHalf a) (ofHalf b) = .ok (fromHash (Bytes.append a b)) := by
  rw [add_of_standsFor (standsFor_ofHalf a) (standsFor_ofHalf b), fromHash_append,
    CurvePoint.toAffine_add, toAffine_curvePointOfHalf, toAffine_curvePointOfHalf]

theorem isValid_fromHash_append :
    (fromHash (Bytes.append a b)).isValid = true := by
  have heven := CurvePoint.even.add_mem (curvePointOfHalf_mem_even a) (curvePointOfHalf_mem_even b)
  have hvalid := (standsFor_encode heven).isValid
  rw [CurvePoint.toAffine_add, toAffine_curvePointOfHalf, toAffine_curvePointOfHalf] at hvalid
  rw [fromHash_append]
  exact hvalid

theorem isValid_fromHash (h : Bytes 64) :
    (fromHash h).isValid = true := by
  rw [← Bytes.append_low_high (m := 32) (n := 32) h]
  exact isValid_fromHash_append _ _

theorem fromHash_append_comm :
    fromHash (Bytes.append a b) = fromHash (Bytes.append b a) := by
  rw [fromHash_append, fromHash_append, AffinePoint.add_comm]

variable {a b}

theorem fromHash_append_congr {a' b' : Bytes 32} (ha : SameUpToSign a a')
    (hb : SameUpToSign b b') :
    fromHash (Bytes.append a b) = fromHash (Bytes.append a' b') := by
  rw [fromHash_append, fromHash_append, pointOfHalf_congr ha, pointOfHalf_congr hb]

/-- A hash is mapped to the sum of two valid elements, one for each half up to its sign. -/
theorem fromHash_sum_of_halves (h : Bytes 64) (a b a' b' : Bytes 32) :
    (fromHash h).isValid = true ∧
    (ofHalf a).isValid = true ∧
    (ofHalf b).isValid = true ∧
    add (ofHalf a) (ofHalf b) = .ok (fromHash (Bytes.append a b)) ∧
    fromHash (Bytes.append a b) = fromHash (Bytes.append b a) ∧
    (SameUpToSign a a' -> SameUpToSign b b' ->
      fromHash (Bytes.append a b) = fromHash (Bytes.append a' b')) ∧
    fromHash (Bytes.append (a.xor signMask) b) = fromHash (Bytes.append a b) ∧
    fromHash (Bytes.append a (b.xor signMask)) = fromHash (Bytes.append a b) ∧
    (forall r : FieldElement,
      fromHash (Bytes.append (-r).toBytes b) = fromHash (Bytes.append r.toBytes b) ∧
      fromHash (Bytes.append a (-r).toBytes) = fromHash (Bytes.append a r.toBytes)) := by
  refine ⟨isValid_fromHash h, (standsFor_ofHalf a).isValid, (standsFor_ofHalf b).isValid,
    add_ofHalf a b, fromHash_append_comm a b, fromHash_append_congr,
    fromHash_append_congr (sameUpToSign_xor_signMask a) (.refl b),
    fromHash_append_congr (.refl a) (sameUpToSign_xor_signMask b), ?_⟩
  intro r
  exact ⟨fromHash_append_congr (sameUpToSign_toBytes_neg r) (.refl b),
    fromHash_append_congr (.refl a) (sameUpToSign_toBytes_neg r)⟩

/-- A string of zero that is not canonical and has its top bit set. -/
def zeroAlias : Bytes 32 :=
  Bytes.ofNat 32 (fieldPrime + 2 ^ 255)

def minusOneAlias : Bytes 32 :=
  Bytes.ofNat 32 (fieldPrime - 1 + 2 ^ 255)

theorem fromHash_sum_of_halves_aliases :
    SameUpToSign zeroAlias (Bytes.zero 32) ∧
    SameUpToSign minusOneAlias (Bytes.ofNat 32 1) ∧
    fromHash (Bytes.append zeroAlias minusOneAlias) =
      fromHash (Bytes.append (Bytes.zero 32) (Bytes.ofNat 32 1)) := by
  have hzero : lowBits (Bytes.zero 32) = 0 := by
    change (Bytes.zero 32).toNat % 2 ^ 255 = 0
    rw [Bytes.toNat_zero, Nat.zero_mod]
  have hone : lowBits (Bytes.ofNat 32 1) = 1 := by
    rw [lowBits_ofNat]
    decide
  have hzeroAlias : lowBits zeroAlias = fieldPrime := by
    rw [zeroAlias, lowBits_ofNat]
    decide
  have hminusOneAlias : lowBits minusOneAlias = fieldPrime - 1 := by
    rw [minusOneAlias, lowBits_ofNat]
    decide
  have ha : SameUpToSign zeroAlias (Bytes.zero 32) := by
    left
    rw [hzero, hzeroAlias]
    decide
  have hb : SameUpToSign minusOneAlias (Bytes.ofNat 32 1) := by
    right
    rw [hone, hminusOneAlias]
    decide
  rcases fromHash_sum_of_halves (Bytes.zero 64) zeroAlias minusOneAlias (Bytes.zero 32)
    (Bytes.ofNat 32 1) with ⟨-, -, -, -, -, hsame, -⟩
  exact ⟨ha, hb, hsame ha hb⟩

end Element
end Ristretto
end Edwards25519
