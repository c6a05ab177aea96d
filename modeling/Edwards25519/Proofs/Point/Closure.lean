import Mathlib
import Edwards25519.Proofs.Point.Validity

/-!
# Operations on valid points

Sums and differences of valid points are valid unless they are the identity. Two
valid points add up to the identity exactly if their strings differ in the sign
bit alone, and their difference is the identity only if the strings are the same.
-/

namespace Edwards25519

open FieldElement

namespace Point

/-! ## The string of the negation -/

def flipSign (p : Point) : Point where
  bytes := p.bytes.xor signMask

theorem ne_flipSign (p : Point) :
    p ≠ p.flipSign := by
  intro h
  have htop : p.bytes.topBit = !p.bytes.topBit := by
    rw [← topBit_xor_signMask]
    exact congrArg (fun q => q.bytes.topBit) h
  exact (Bool.eq_not_self _).mp htop

theorem encode_neg {P : CurvePoint} (hx : P.toAffine.x ≠ 0) :
    encode (-P).toAffine = (encode P.toAffine).flipSign := by
  have hflip : (-P).toAffine.encode = P.toAffine.encode.xor signMask := by
    apply bytes_eq_of_parts
    · rw [lowBits_xor_signMask, AffinePoint.lowBits_encode, AffinePoint.lowBits_encode]
      rfl
    · rw [topBit_xor_signMask, AffinePoint.topBit_encode, AffinePoint.topBit_encode,
        CurvePoint.toAffine_neg, AffinePoint.neg_x, isNegative_neg _ hx]
  exact ext hflip

/-! ## Sums and differences in the subgroup -/

section Subgroup

variable {P Q : CurvePoint}

theorem groupOrder_nsmul_add (hP : groupOrder • P = 0) (hQ : groupOrder • Q = 0) :
    groupOrder • (P + Q) = 0 := by
  rw [nsmul_add, hP, hQ, add_zero]

theorem groupOrder_nsmul_sub (hP : groupOrder • P = 0) (hQ : groupOrder • Q = 0) :
    groupOrder • (P - Q) = 0 := by
  rw [nsmul_sub, hP, hQ, sub_zero]

theorem encode_sub_eq_identity_iff :
    encode (P - Q).toAffine = identity <-> encode P.toAffine = encode Q.toAffine := by
  rw [encode_eq_identity_iff, sub_eq_zero]
  constructor
  · intro h
    rw [h]
  · intro h
    exact encode_injective h

theorem encode_add_eq_identity_iff (hx : P.toAffine.x ≠ 0) :
    encode (P + Q).toAffine = identity <-> encode Q.toAffine = (encode P.toAffine).flipSign := by
  rw [← encode_neg hx, encode_eq_identity_iff]
  constructor
  · intro h
    rw [eq_neg_of_add_eq_zero_right h]
  · intro h
    rw [encode_injective h, add_neg_cancel]

end Subgroup

/-! ## Closure -/

/-- Valid points are closed under sums and differences up to the identity, byte for byte. -/
theorem valid_points_closed {p q : Point} (hp : p.isValid = true) (hq : q.isValid = true) :
    identity.bytes.toList = 1 :: List.replicate 31 0 ∧
    (exists s, sub p q = .ok s ∧
      (p = q -> s = identity) ∧ (p ≠ q -> s.isValid = true)) ∧
    (exists s, add p q = .ok s ∧
      (s = identity <-> q = p.flipSign) ∧ (q ≠ p.flipSign -> s.isValid = true)) ∧
    (add p q >>= fun s => sub s q) = .ok p ∧
    add p identity = .ok p := by
  rcases exists_of_isValid hp with ⟨P, rfl, hPne, hPorder⟩
  rcases exists_of_isValid hq with ⟨Q, rfl, -, hQorder⟩
  have hPdecodes := decodes_encode P
  have hQdecodes := decodes_encode Q
  have hsub := encode_sub_eq_identity_iff (P := P) (Q := Q)
  have hadd := encode_add_eq_identity_iff (Q := Q)
    (CurvePoint.x_ne_zero_of_groupOrder_nsmul hPne hPorder)
  refine ⟨toList_identity, ⟨_, sub_of_decodes hPdecodes hQdecodes, hsub.mpr, ?_⟩,
    ⟨_, add_of_decodes hPdecodes hQdecodes, hadd, ?_⟩,
    followsGroup.add_sub_cancel hPdecodes hQdecodes, followsGroup.add_zero hPdecodes⟩
  · intro hne
    rw [isValid_encode_iff (groupOrder_nsmul_sub hPorder hQorder), ne_eq, hsub]
    exact hne
  · intro hne
    rw [isValid_encode_iff (groupOrder_nsmul_add hPorder hQorder), ne_eq, hadd]
    exact hne

theorem valid_points_closed_basepoint :
    basepoint.isValid = true ∧
    basepoint.flipSign.isValid = true ∧
    add basepoint basepoint.flipSign = .ok identity ∧
    sub basepoint basepoint = .ok identity ∧
    exists s, sub basepoint basepoint.flipSign = .ok s ∧ s.isValid = true := by
  have hvalid := isValid_basepoint
  have hx := CurvePoint.x_ne_zero_of_groupOrder_nsmul CurvePoint.basepoint_ne_zero
    CurvePoint.groupOrder_nsmul_basepoint
  have hneg : basepoint.flipSign = encode (-CurvePoint.basepoint).toAffine := (encode_neg hx).symm
  have hflip : basepoint.flipSign.isValid = true := by
    rw [hneg]
    apply isValid_encode (neg_ne_zero.mpr CurvePoint.basepoint_ne_zero)
    rw [neg_nsmul, CurvePoint.groupOrder_nsmul_basepoint, neg_zero]
  rcases valid_points_closed hvalid hvalid with ⟨-, ⟨s, hs, hself, -⟩, -, -, -⟩
  rcases valid_points_closed hvalid hflip with
    ⟨-, ⟨t, ht, -, htvalid⟩, ⟨u, hu, huidentity, -⟩, -, -⟩
  refine ⟨hvalid, hflip, ?_, ?_, t, ht, htvalid (ne_flipSign basepoint)⟩
  · rw [hu, huidentity.mpr rfl]
  · rw [hs, hself rfl]

end Point

end Edwards25519
