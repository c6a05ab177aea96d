import Mathlib
import Edwards25519.Proofs.Curve.RoundTrip
import Edwards25519.Proofs.Point.SmallOrder

/-!
# The check for small order

The check compares the low bits of a string with a list and decodes nothing. The
list holds the `y` of the points of small order, and for zero and one also the
number that the prime adds to them. No other `y` of these points has a second
spelling in 255 bits, so no string of a point of small order slips through, and
since every listed number is the `y` of such a point, no other string is caught.
-/

namespace Edwards25519

open FieldElement

namespace Point

/-! ## Spellings of one `y` -/

theorem lowBits_eq_or_eq_add_fieldPrime (b : Bytes 32) :
    lowBits b = (FieldElement.ofBytes b).val ∨
      lowBits b = (FieldElement.ofBytes b).val + fieldPrime := by
  rw [val_ofBytes]
  by_cases hlt : lowBits b < fieldPrime
  · left
    rw [Nat.mod_eq_of_lt hlt]
  · right
    have hbits := lowBits_lt b
    have hbound : 2 ^ 255 - fieldPrime < fieldPrime := by decide
    have hle := Nat.le_of_not_lt hlt
    have hrest : lowBits b - fieldPrime < fieldPrime := by omega
    rw [Nat.mod_eq_sub_mod hle, Nat.mod_eq_of_lt hrest, Nat.sub_add_cancel hle]

theorem lt_two_pow_of_mem_smallOrderLowBits :
    forall v, v ∈ smallOrderLowBits -> v < 2 ^ 255 := by
  decide

theorem add_fieldPrime_mem_smallOrderLowBits :
    forall v, v ∈ smallOrderLowBits -> v + fieldPrime < 2 ^ 255 ->
      v + fieldPrime ∈ smallOrderLowBits := by
  decide

/-! ## The listed strings -/

theorem isSmallOrder_ofLowBits {y : Nat} (hy : y ∈ smallOrderLowBits) (sign : Bool) :
    (ofLowBits y sign).isSmallOrder = true := by
  have hlow : lowBits (ofLowBits y sign).bytes = y :=
    lowBits_ofNat_parts (lt_two_pow_of_mem_smallOrderLowBits y hy) sign
  rw [isSmallOrder_iff, hlow]
  exact hy

theorem isSmallOrder_of_mem_smallOrderEncodings :
    forall t, t ∈ smallOrderEncodings -> t.isSmallOrder = true := by
  have hone : 1 ∈ smallOrderLowBits := by decide
  have hminus : fieldPrime - 1 ∈ smallOrderLowBits := by decide
  have hzero : 0 ∈ smallOrderLowBits := by decide
  have hlow : orderEightLow ∈ smallOrderLowBits := by decide
  have hhigh : orderEightHigh ∈ smallOrderLowBits := by decide
  simp only [smallOrderEncodings, List.forall_mem_cons]
  exact ⟨isSmallOrder_ofLowBits hone _, isSmallOrder_ofLowBits hminus _,
    isSmallOrder_ofLowBits hzero _, isSmallOrder_ofLowBits hzero _,
    isSmallOrder_ofLowBits hlow _, isSmallOrder_ofLowBits hlow _,
    isSmallOrder_ofLowBits hhigh _, isSmallOrder_ofLowBits hhigh _, List.forall_mem_nil _⟩

theorem eight_nsmul_eq_zero_iff_mem (P : CurvePoint) :
    8 • P = 0 <-> encode P.toAffine ∈ smallOrderEncodings := by
  rw [CurvePoint.eight_nsmul_eq_zero_iff, mem_smallOrderEncodings_iff]
  constructor
  · intro h
    rcases h with ⟨k, hk, rfl⟩
    exact ⟨k, hk, rfl⟩
  · intro h
    rcases h with ⟨k, hk, heq⟩
    exact ⟨k, hk, encode_injective heq⟩

/-! ## The check and the points -/

/-- The `y` of a point of small order is caught in either spelling and with any sign. -/
theorem isSmallOrder_of_y_eq {p : Point} {P : CurvePoint}
    (hy : P.toAffine.y = FieldElement.ofBytes p.bytes) (height : 8 • P = 0) :
    p.isSmallOrder = true := by
  have hlisted := isSmallOrder_of_mem_smallOrderEncodings _
    ((eight_nsmul_eq_zero_iff_mem P).mp height)
  have hval : (FieldElement.ofBytes p.bytes).val ∈ smallOrderLowBits := by
    rw [← hy, ← AffinePoint.lowBits_encode]
    exact (isSmallOrder_iff _).mp hlisted
  rw [isSmallOrder_iff]
  rcases lowBits_eq_or_eq_add_fieldPrime p.bytes with hreduced | hsecond
  · rw [hreduced]
    exact hval
  · -- The second spelling fits in 255 bits, so it is listed as well.
    have hbits := lowBits_lt p.bytes
    rw [hsecond] at hbits ⊢
    exact add_fieldPrime_mem_smallOrderLowBits _ hval hbits

theorem exists_y_of_isSmallOrder {p : Point} (h : p.isSmallOrder = true) :
    exists P : CurvePoint, P.toAffine.y = FieldElement.ofBytes p.bytes ∧ 8 • P = 0 := by
  rcases exists_multiple_of_mem_smallOrderLowBits _ ((isSmallOrder_iff p).mp h) with ⟨k, hk⟩
  refine ⟨k • CurvePoint.orderEight, ?_, CurvePoint.eight_nsmul_multiple k⟩
  rw [ofBytes_eq_ofNat, hk]

theorem exists_decodes_of_y_eq {p : Point} {P : CurvePoint}
    (hy : P.toAffine.y = FieldElement.ofBytes p.bytes) :
    exists Q : CurvePoint, Decodes p Q := by
  cases hdecode : p.decode? with
  | none =>
      have hnone := (AffinePoint.decode?_eq_none_iff p.bytes).mp hdecode
      rw [← hy] at hnone
      exact absurd ⟨P.toAffine.x, P.onCurve⟩ hnone
  | some Q =>
      rcases exists_decodes hdecode with ⟨R, -, hR⟩
      exact ⟨R, hR⟩

theorem isSmallOrder_iff_exists_y (p : Point) :
    p.isSmallOrder = true <->
      exists P : CurvePoint, P.toAffine.y = FieldElement.ofBytes p.bytes ∧ 8 • P = 0 := by
  constructor
  · exact exists_y_of_isSmallOrder
  · intro h
    rcases h with ⟨P, hy, height⟩
    exact isSmallOrder_of_y_eq hy height

theorem isSmallOrder_iff_exists_decodes (p : Point) :
    p.isSmallOrder = true <-> exists P : CurvePoint, Decodes p P ∧ 8 • P = 0 := by
  constructor
  · intro h
    rcases exists_y_of_isSmallOrder h with ⟨P, hy, -⟩
    rcases exists_decodes_of_y_eq hy with ⟨Q, hQ⟩
    exact ⟨Q, hQ, eight_nsmul_of_isSmallOrder hQ h⟩
  · intro h
    rcases h with ⟨P, hP, height⟩
    exact isSmallOrder_of_y_eq ((decode?_eq_some_iff p P.toAffine).mp hP).2.1 height

/-- The check catches the strings of points of small order, of which eight are canonical. -/
theorem isSmallOrder_exact (p : Point) (P : CurvePoint) :
    (p.isSmallOrder = true <->
      exists Q : CurvePoint, p.decode? = some Q.toAffine ∧ 8 • Q = 0) ∧
    (p.isSmallOrder = true <->
      exists Q : CurvePoint,
        Q.toAffine.y.val = p.bytes.toNat % 2 ^ 255 % fieldPrime ∧ 8 • Q = 0) ∧
    (8 • P = 0 <-> encode P.toAffine ∈ smallOrderEncodings) ∧
    smallOrderEncodings.length = 8 ∧ smallOrderEncodings.Nodup := by
  refine ⟨isSmallOrder_iff_exists_decodes p, ?_, eight_nsmul_eq_zero_iff_mem P, rfl,
    nodup_smallOrderEncodings⟩
  simp only [← AffinePoint.y_eq_ofBytes_iff]
  exact isSmallOrder_iff_exists_y p

end Point
end Edwards25519
