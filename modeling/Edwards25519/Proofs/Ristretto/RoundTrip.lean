import Mathlib
import Edwards25519.Proofs.Curve.Even
import Edwards25519.Proofs.Ristretto.GroupLaws

/-!
# Encoding and decoding are inverse

A valid string is the canonical one of a field element that is not negative, and
encoding what it decodes to gives the string back. A double is encoded by a valid
string, which decodes to a double of the same class: the two differ by a point of
an order that divides four, and no other doubles share the string.
-/

namespace Edwards25519

open FieldElement

namespace CurvePoint

theorem rotate_mem_even {P : CurvePoint} (hP : P ∈ even) :
    P.rotate ∈ even := by
  have hzero : rotate 0 ∈ even := by
    rw [mem_even_iff, rotate_y, toAffine_zero, AffinePoint.identity_x, mul_zero, mul_zero,
      sub_zero]
    exact IsSquare.one
  rw [rotate_eq_add]
  exact even.add_mem hP hzero

theorem four_nsmul_sub_eq_zero_iff (P Q : CurvePoint) :
    4 • (P - Q) = 0 <-> 4 • P = 4 • Q := by
  rw [nsmul_sub, sub_eq_zero]

end CurvePoint

namespace Ristretto
namespace Element

/-! ## Reading a valid string -/

theorem isCanonical_of_isValid {p : Element} (h : p.isValid = true) :
    isCanonical p.bytes = true := by
  rcases Option.isSome_iff_exists.mp h with ⟨P, hP⟩
  exact ((decode?_eq_some_iff p.bytes P).mp hP).1

theorem toNat_lt_and_even_of_isValid {p : Element} (h : p.isValid = true) :
    p.bytes.toNat < 2 ^ 255 - 19 ∧ p.bytes.toNat % 2 = 0 := by
  have hcanonical := isCanonical_of_isValid h
  rw [isCanonical, Bool.and_eq_true, decide_eq_true_eq, beq_iff_eq] at hcanonical
  exact hcanonical

theorem exists_double_of_isValid {p : Element} (h : p.isValid = true) :
    exists P : CurvePoint,
      p.decode? = some P.toAffine ∧ P ∈ CurvePoint.doubles ∧ encode P.toAffine = p := by
  rcases Option.isSome_iff_exists.mp h with ⟨P, hP⟩
  rcases exists_standsFor hP with ⟨Q, rfl, hQ⟩
  exact ⟨Q, hP, CurvePoint.even_le_doubles hQ.even, hQ.eq_encode.symm⟩

/-! ## Both directions -/

/-- Valid strings are read and written back unchanged, and doubles are so up to their class. -/
theorem decode_encode_inverse (p : Element) (P Q : CurvePoint) :
    (p.isValid = true ->
      (p.bytes.toNat < 2 ^ 255 - 19 ∧ p.bytes.toNat % 2 = 0) ∧
      exists R : CurvePoint,
        p.decode? = some R.toAffine ∧ R ∈ CurvePoint.doubles ∧ encode R.toAffine = p) ∧
    (P ∈ CurvePoint.doubles ->
      (encode P.toAffine).isValid = true ∧
      exists R : CurvePoint,
        (encode P.toAffine).decode? = some R.toAffine ∧ 4 • (R - P) = 0) ∧
    (P ∈ CurvePoint.doubles -> Q ∈ CurvePoint.doubles ->
      (encode P.toAffine = encode Q.toAffine <-> 4 • (P - Q) = 0)) := by
  refine ⟨?_, ?_, ?_⟩
  · intro h
    exact ⟨toNat_lt_and_even_of_isValid h, exists_double_of_isValid h⟩
  · intro hP
    rw [CurvePoint.doubles_eq_even] at hP
    have hstands := standsFor_encode hP
    rcases hstands.decode?_eq_some with ⟨R, hdecode, -, hclass⟩
    exact ⟨hstands.isValid, R, hdecode, (CurvePoint.four_nsmul_sub_eq_zero_iff R P).mpr hclass⟩
  · intro hP hQ
    rw [CurvePoint.doubles_eq_even] at hP hQ
    rw [CurvePoint.four_nsmul_sub_eq_zero_iff]
    exact encode_eq_iff hP hQ

theorem decode_encode_inverse_basepoint :
    basepoint.isValid = true ∧
    basepoint.bytes.toNat % 2 = 0 ∧
    (exists R : CurvePoint,
      basepoint.decode? = some R.toAffine ∧ 4 • (R - CurvePoint.basepoint) = 0) ∧
    CurvePoint.basepoint.rotate ∈ CurvePoint.doubles ∧
    encode CurvePoint.basepoint.rotate.toAffine = basepoint := by
  have hbase : CurvePoint.basepoint ∈ CurvePoint.doubles :=
    CurvePoint.mem_doubles_of_groupOrder_nsmul CurvePoint.groupOrder_nsmul_basepoint
  have hturn : CurvePoint.basepoint.rotate ∈ CurvePoint.doubles :=
    CurvePoint.even_le_doubles (CurvePoint.rotate_mem_even (CurvePoint.doubles_le_even hbase))
  rcases decode_encode_inverse basepoint CurvePoint.basepoint.rotate CurvePoint.basepoint with
    ⟨hread, -, hsame⟩
  rcases decode_encode_inverse basepoint CurvePoint.basepoint CurvePoint.basepoint with
    ⟨-, hwrite, -⟩
  rcases hwrite hbase with ⟨hvalid, hclass⟩
  have hfour : 4 • (CurvePoint.basepoint.rotate - CurvePoint.basepoint) = 0 := by
    rw [CurvePoint.four_nsmul_sub_eq_zero_iff, CurvePoint.four_nsmul_rotate]
  exact ⟨hvalid, (hread hvalid).1.2, hclass, hturn, (hsame hturn hbase).mpr hfour⟩

end Element
end Ristretto
end Edwards25519
