import Mathlib
import Edwards25519.Point.Sampling
import Edwards25519.Proofs.Curve.Generators
import Edwards25519.Proofs.Point.Validity
import Edwards25519.Proofs.Scalar.FirstDraw

/-!
# Valid points as multiples

A multiple of the basepoint is written by a valid string unless the scalar is a
multiple of the order. Every valid string comes from exactly one scalar between
zero and the order. So the points made from random scalars are valid whatever the
generator of the randomness hands out, and there are as many of them as it has draws
in range. Zeros have none, and no point is ever made from them.
-/

namespace Edwards25519
namespace Point

theorem basepointMultiple_eq (s : Scalar) :
    basepointMultiple s = encode (s.toNat • CurvePoint.basepoint).toAffine := by
  have hmod : s.residue.val = s.toNat % groupOrder := Residue.val_ofNat s.toNat
  have hmultiple := AffinePoint.multiple_eq_nsmul s.residue.val CurvePoint.basepoint
  rw [hmod, CurvePoint.mod_groupOrder_nsmul_basepoint, ← hmod] at hmultiple
  exact congrArg encode hmultiple

theorem isValid_basepointMultiple_iff (s : Scalar) :
    (basepointMultiple s).isValid = true <-> ¬ groupOrder ∣ s.toNat := by
  rw [basepointMultiple_eq, isValid_encode_iff (CurvePoint.groupOrder_nsmul_multiple s.toNat),
    ne_eq, encode_eq_identity_iff, CurvePoint.nsmul_basepoint_eq_zero_iff]

/-! ## The scalar of a valid point -/

structure IsLogarithm (s : Scalar) (p : Point) : Prop where
  pos : 0 < s.toNat
  lt : s.toNat < groupOrder
  eq_multiple : p = basepointMultiple s

theorem exists_isLogarithm {p : Point} (h : p.isValid = true) :
    exists s, IsLogarithm s p := by
  rcases exists_of_isValid h with ⟨P, rfl, hne, horder⟩
  rcases CurvePoint.exists_nsmul_basepoint horder with ⟨j, hj, rfl⟩
  let s : Scalar := { bytes := Bytes.ofNat 32 j }
  have hs : s.toNat = j := by
    have hbound : groupOrder <= 256 ^ 32 := by decide
    exact Bytes.toNat_ofNat_of_lt (lt_of_lt_of_le hj hbound)
  refine ⟨s, ?_, ?_, ?_⟩
  · rw [hs]
    apply Nat.pos_of_ne_zero
    intro hzero
    rw [hzero, zero_nsmul] at hne
    exact hne rfl
  · rw [hs]
    exact hj
  · rw [basepointMultiple_eq, hs]

theorem IsLogarithm.unique {p : Point} {s t : Scalar} (hs : IsLogarithm s p)
    (ht : IsLogarithm t p) :
    s = t := by
  have hencode : encode (s.toNat • CurvePoint.basepoint).toAffine =
      encode (t.toNat • CurvePoint.basepoint).toAffine := by
    rw [← basepointMultiple_eq, ← basepointMultiple_eq, ← hs.eq_multiple, ← ht.eq_multiple]
  rw [← Scalar.toNat_inj]
  exact CurvePoint.nsmul_basepoint_inj hs.lt ht.lt (encode_injective hencode)

/-! ## Random points -/

theorem length_yielded {num : Nat} {stream : ByteStream} (h : Scalar.Yields num stream) :
    (yielded num stream h).length = num := by
  rw [yielded, List.length_map, Scalar.length_yielded]

theorem isValid_of_mem_yielded {num : Nat} {stream : ByteStream}
    (h : Scalar.Yields num stream) :
    forall p, p ∈ yielded num stream h -> p.isValid = true := by
  intro p hp
  rcases List.mem_map.mp hp with ⟨s, hs, rfl⟩
  have hrange := Scalar.yielded_range h s hs
  rw [isValid_basepointMultiple_iff]
  exact Nat.not_dvd_of_pos_of_lt hrange.1 hrange.2

/--
The valid points are the multiples of the basepoint but zero. Random points come back
exactly if there are draws enough in range, and then they are valid.
-/
theorem valid_points_are_multiples (s : Scalar) (p : Point) (num : Nat) (stream : ByteStream) :
    basepointMultiple s = encode (s.toNat • CurvePoint.basepoint).toAffine ∧
    ((basepointMultiple s).isValid = true <-> ¬ groupOrder ∣ s.toNat) ∧
    (p.isValid = true -> ∃! t : Scalar, IsLogarithm t p) ∧
    (Scalar.Yields num stream <-> exists n, num <= Scalar.sampledCount stream n) ∧
    (forall h : Scalar.Yields num stream,
      (yielded num stream h).length = num ∧
        forall q, q ∈ yielded num stream h -> q.isValid = true) := by
  refine ⟨basepointMultiple_eq s, isValid_basepointMultiple_iff s, ?_,
    Scalar.yields_iff_le_sampledCount num stream, ?_⟩
  · intro h
    rcases exists_isLogarithm h with ⟨t, ht⟩
    exact ⟨t, ht, fun u hu => hu.unique ht⟩
  · intro h
    exact ⟨length_yielded h, isValid_of_mem_yielded h⟩

theorem valid_points_are_multiples_basepoint :
    basepoint.isValid = true ∧
    (∃! t : Scalar, IsLogarithm t basepoint) ∧
    2 <= Scalar.sampledCount (ByteStream.scripted []) 2 ∧
    exists h : Scalar.Yields 2 (ByteStream.scripted []),
      (yielded 2 _ h).length = 2 ∧ forall q, q ∈ yielded 2 _ h -> q.isValid = true := by
  have hvalid := isValid_basepoint
  have hcount : 2 <= Scalar.sampledCount (ByteStream.scripted []) 2 := by decide +kernel
  rcases valid_points_are_multiples Scalar.one basepoint 2 (ByteStream.scripted []) with
    ⟨-, -, hunique, hyields, hyielded⟩
  have h := hyields.mpr ⟨2, hcount⟩
  exact ⟨hvalid, hunique hvalid, hcount, h, hyielded h⟩

/-- No draw from zeros is accepted, so a run that asks for a point is not over after any of them. -/
theorem no_point_from_zeros :
    (forall k, Scalar.accept? (ByteStream.zeros.block 32 k) = none) ∧
    (forall rest, ¬ Scalar.Yields (rest + 1) ByteStream.zeros) ∧
    ¬ forall (num : Nat) (stream : ByteStream), exists h : Scalar.Yields num stream,
      (yielded num stream h).length = num ∧
        forall q, q ∈ yielded num stream h -> q.isValid = true := by
  refine ⟨Scalar.accept?_zeros, Scalar.not_yields_zeros, ?_⟩
  intro hall
  rcases hall 1 ByteStream.zeros with ⟨h, -⟩
  exact Scalar.not_yields_zeros 0 h

end Point
end Edwards25519
