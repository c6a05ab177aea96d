import Mathlib
import Edwards25519.Proofs.Curve.Encoding

/-!
# Reading and writing points

A string of 32 bytes holds a number `y` in its low 255 bits and a bit above them.
It decodes exactly if some point of the curve has this `y` modulo the prime, and
the bit is the parity of the `x` that is found, unless zero is the only one.
Writing gives back every string that was reduced and has no sign at a zero `x`.
-/

namespace Edwards25519

open FieldElement

namespace FieldElement

theorem toNat_div_two_pow (b : Bytes 32) :
    b.toNat / 2 ^ 255 = b.topBit.toNat := by
  have hlt : b.toNat < 2 ^ 255 * 2 := b.toNat_lt
  rw [topBit_eq_testBit, Nat.toNat_testBit, Nat.mod_eq_of_lt (Nat.div_lt_of_lt_mul hlt)]

theorem isNegative_eq_iff (a : FieldElement) (s : Bool) :
    a.isNegative = s <-> a.val % 2 = s.toNat := by
  rw [isNegative]
  rcases Nat.mod_two_eq_zero_or_one a.val with h | h
  · rw [h]
    cases s <;> decide
  · rw [h]
    cases s <;> decide

end FieldElement

namespace AffinePoint

/-- Two points with one `y` have opposite `x`, so a zero `x` is the only one. -/
theorem x_eq_zero_iff_only_root {P : AffinePoint} (hP : P.OnCurve) :
    P.x = 0 <-> forall x, OnCurve { x := x, y := P.y } -> x = 0 := by
  constructor
  · intro hzero x hx
    have heq := eq_of_y_eq hP hx rfl (Or.inl hzero) (Or.inr rfl)
    rw [← hzero, heq]
  · intro hroots
    exact hroots P.x hP

/-- The point of the curve that the numbers in the two parts of a string describe. -/
structure IsReading (b : Bytes 32) (P : AffinePoint) : Prop where
  onCurve : P.OnCurve
  y_eq : P.y.val = b.toNat % 2 ^ 255 % fieldPrime
  x_parity : P.x.val % 2 = b.toNat / 2 ^ 255 ∨
    P.x = 0 ∧ forall x, OnCurve { x := x, y := P.y } -> x = 0

theorem y_eq_ofBytes_iff (b : Bytes 32) (y : FieldElement) :
    y = FieldElement.ofBytes b <-> y.val = b.toNat % 2 ^ 255 % fieldPrime := by
  rw [eq_comm, ofBytes_eq_iff, eq_comm]
  rfl

theorem decode?_eq_some_iff_isReading (b : Bytes 32) (P : AffinePoint) :
    decode? b = some P <-> IsReading b P := by
  rw [decode?_eq_some_iff, y_eq_ofBytes_iff, isNegative_eq_iff, ← toNat_div_two_pow]
  constructor
  · intro h
    rcases h with ⟨hcurve, hy, hx⟩
    refine ⟨hcurve, hy, ?_⟩
    rcases hx with hzero | hparity
    · exact Or.inr ⟨hzero, (x_eq_zero_iff_only_root hcurve).mp hzero⟩
    · exact Or.inl hparity
  · intro h
    refine ⟨h.onCurve, h.y_eq, ?_⟩
    rcases h.x_parity with hparity | hzero
    · exact Or.inr hparity
    · exact Or.inl hzero.1

theorem isSome_decode?_iff (b : Bytes 32) :
    (decode? b).isSome = true <->
      exists x y : FieldElement, y.val = b.toNat % 2 ^ 255 % fieldPrime ∧
        OnCurve { x := x, y := y } := by
  rw [Option.isSome_iff_ne_none, ne_eq, decode?_eq_none_iff, not_not]
  constructor
  · intro h
    rcases h with ⟨x, hx⟩
    exact ⟨x, _, (y_eq_ofBytes_iff b _).mp rfl, hx⟩
  · intro h
    rcases h with ⟨x, y, hy, hx⟩
    rw [← y_eq_ofBytes_iff] at hy
    rw [hy] at hx
    exact ⟨x, hx⟩

theorem encode_eq_iff_of_decode? {b : Bytes 32} {P : AffinePoint} (h : decode? b = some P) :
    P.encode = b <->
      b.toNat % 2 ^ 255 < fieldPrime ∧ ¬ (P.x = 0 ∧ b.toNat / 2 ^ 255 = 1) := by
  rw [eq_comm, eq_encode_iff h, toNat_div_two_pow, Bool.toNat_eq_one]
  rfl

/--
Reading finds the described point if there is one, and undoes writing; writing undoes
reading on the canonical strings.
-/
theorem decode?_encode_exact (b : Bytes 32) (P : AffinePoint) :
    ((decode? b).isSome = true <->
      exists x y : FieldElement, y.val = b.toNat % 2 ^ 255 % fieldPrime ∧
        OnCurve { x := x, y := y }) ∧
    (decode? b = some P <-> IsReading b P) ∧
    (P.OnCurve -> decode? P.encode = some P) ∧
    (decode? b = some P ->
      (P.encode = b <->
        b.toNat % 2 ^ 255 < fieldPrime ∧ ¬ (P.x = 0 ∧ b.toNat / 2 ^ 255 = 1))) :=
  ⟨isSome_decode?_iff b, decode?_eq_some_iff_isReading b P, decode?_encode,
    encode_eq_iff_of_decode?⟩

/-- A string for the identity with the prime added to its `y` and the sign bit set. -/
def identitySpelling : Bytes 32 :=
  Bytes.ofNat 32 (fieldPrime + 1 + 2 ^ 255)

/-- The hypotheses hold at the identity, which is read from a string that it is not written as. -/
theorem decode?_encode_exact_identity :
    identity.OnCurve ∧
    decode? identity.encode = some identity ∧
    decode? identitySpelling = some identity ∧
    identity.encode ≠ identitySpelling := by
  have hnumber : identitySpelling.toNat = fieldPrime + 1 + 2 ^ 255 := by
    refine (Bytes.toNat_ofNat 32 _).trans (Nat.mod_eq_of_lt ?_)
    decide
  have hreading : IsReading identitySpelling identity := by
    refine ⟨onCurve_identity, ?_, Or.inr ⟨rfl, ?_⟩⟩
    · rw [hnumber, identity_y, Residue.val_one]
      decide
    · exact (x_eq_zero_iff_only_root onCurve_identity).mp rfl
  rcases decode?_encode_exact identitySpelling identity with ⟨-, hread, hwrite, hspelling⟩
  have hdecode := hread.mpr hreading
  refine ⟨onCurve_identity, hwrite onCurve_identity, hdecode, ?_⟩
  intro heq
  have hlt := ((hspelling hdecode).mp heq).1
  rw [hnumber] at hlt
  revert hlt
  decide

end AffinePoint

end Edwards25519
