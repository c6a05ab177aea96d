import Mathlib
import Edwards25519.Curve.Group
import Edwards25519.Proofs.Curve.Group
import Edwards25519.Proofs.FieldElement.Bytes

/-!
# Compressed points

Reading takes exactly the strings whose low bits are, modulo the prime, the `y`
of some point, and gives the point whose `x` has the sign of the top bit
unless that `x` is zero. Writing and then reading gives the point back.
-/

namespace Edwards25519

open FieldElement

namespace AffinePoint

/-! ## Reading -/

theorem one_add_d_mul_ne_zero (y : FieldElement) :
    d * (y * y) + 1 ≠ 0 := by
  intro h
  have hy : y ≠ 0 := by
    intro heq
    subst heq
    simp at h
  apply not_isSquare_d
  apply isSquare_of_mul_self_eq (w := sqrtMinusOne) hy
  linear_combination sqrtMinusOne_mul_self - h

theorem onCurve_iff_root (P : AffinePoint) :
    P.OnCurve <-> (d * (P.y * P.y) + 1) * (P.x * P.x) = P.y * P.y - 1 := by
  rw [onCurve_iff, SolvesEdwards]
  constructor
  · intro h
    linear_combination -h
  · intro h
    linear_combination -h

/-- The numerator and the denominator of the ratio whose root is `x`. -/
def xRatio (y : FieldElement) : RatioRoot :=
  sqrtRatio (y * y - 1) (d * (y * y) + 1)

theorem ofY?_of_isSquare {y : FieldElement} (negative : Bool)
    (h : (xRatio y).isSquare = true) :
    ofY? y negative = some { x := negateIf negative (xRatio y).root, y := y } :=
  if_pos h

theorem ofY?_of_not_isSquare {y : FieldElement} (negative : Bool)
    (h : (xRatio y).isSquare = false) :
    ofY? y negative = none := by
  have hne : ¬ (xRatio y).isSquare = true := by
    rw [h]
    exact Bool.false_ne_true
  exact if_neg hne

theorem xRatio_isSquare_iff (y : FieldElement) :
    (xRatio y).isSquare = true <-> exists x, OnCurve { x := x, y := y } := by
  rw [xRatio, sqrtRatio_isSquare_iff]
  constructor
  · intro h
    rcases h with ⟨x, hx⟩
    exact ⟨x, (onCurve_iff_root { x := x, y := y }).mpr hx⟩
  · intro h
    rcases h with ⟨x, hx⟩
    exact ⟨x, (onCurve_iff_root { x := x, y := y }).mp hx⟩

theorem mul_xRatio_root {y : FieldElement} (h : (xRatio y).isSquare = true) :
    (d * (y * y) + 1) * ((xRatio y).root * (xRatio y).root) = y * y - 1 :=
  mul_root_of_isSquare (u := y * y - 1) (v := d * (y * y) + 1) h

theorem xRatio_isNegative_root (y : FieldElement) :
    (xRatio y).root.isNegative = false :=
  sqrtRatio_isNegative_root (y * y - 1) (d * (y * y) + 1)

theorem onCurve_negateIf_root {y : FieldElement} (negative : Bool)
    (h : (xRatio y).isSquare = true) :
    OnCurve { x := negateIf negative (xRatio y).root, y := y } := by
  rw [onCurve_iff_root, negateIf_mul_self]
  exact mul_xRatio_root h

theorem negateIf_root_sign (y : FieldElement) (negative : Bool) :
    negateIf negative (xRatio y).root = 0 ∨
      (negateIf negative (xRatio y).root).isNegative = negative := by
  have hsign := xRatio_isNegative_root y
  by_cases hzero : (xRatio y).root = 0
  · left
    rw [hzero]
    cases negative <;> simp
  · right
    cases negative with
    | false => rw [negateIf_false, hsign]
    | true => rw [negateIf_true, isNegative_neg _ hzero, hsign, Bool.not_false]

theorem eq_of_y_eq {P Q : AffinePoint} {negative : Bool} (hP : P.OnCurve) (hQ : Q.OnCurve)
    (hy : P.y = Q.y) (hPx : P.x = 0 ∨ P.x.isNegative = negative)
    (hQx : Q.x = 0 ∨ Q.x.isNegative = negative) :
    P = Q := by
  rw [onCurve_iff_root, hy] at hP
  rw [onCurve_iff_root] at hQ
  have hsquare : P.x * P.x = Q.x * Q.x :=
    mul_left_cancel₀ (one_add_d_mul_ne_zero Q.y) (hP.trans hQ.symm)
  refine ext ?_ hy
  by_cases hzero : Q.x = 0
  · rw [hzero, mul_zero] at hsquare
    rw [hzero, mul_self_eq_zero.mp hsquare]
  · have hPne : P.x ≠ 0 := by
      intro hPzero
      rw [hPzero, mul_zero] at hsquare
      exact hzero (mul_self_eq_zero.mp hsquare.symm)
    apply eq_of_mul_self_eq hsquare
    rw [hPx.resolve_left hPne, hQx.resolve_left hzero]

theorem ofY?_eq_some_iff (y : FieldElement) (negative : Bool) (P : AffinePoint) :
    ofY? y negative = some P <->
      P.OnCurve ∧ P.y = y ∧ (P.x = 0 ∨ P.x.isNegative = negative) := by
  constructor
  · intro h
    cases hsquare : (xRatio y).isSquare with
    | false =>
        rw [ofY?_of_not_isSquare negative hsquare] at h
        cases h
    | true =>
        rw [ofY?_of_isSquare negative hsquare] at h
        cases h
        exact ⟨onCurve_negateIf_root negative hsquare, rfl, negateIf_root_sign y negative⟩
  · intro h
    rcases h with ⟨hcurve, rfl, hx⟩
    have hsquare := (xRatio_isSquare_iff P.y).mpr ⟨P.x, hcurve⟩
    rw [ofY?_of_isSquare negative hsquare, Option.some_inj]
    exact eq_of_y_eq (onCurve_negateIf_root negative hsquare) hcurve rfl
      (negateIf_root_sign P.y negative) hx

theorem ofY?_eq_none_iff (y : FieldElement) (negative : Bool) :
    ofY? y negative = none <-> ¬ exists x, OnCurve { x := x, y := y } := by
  rw [← xRatio_isSquare_iff]
  cases hsquare : (xRatio y).isSquare with
  | false => simp [ofY?_of_not_isSquare negative hsquare]
  | true => simp [ofY?_of_isSquare negative hsquare]

theorem decode?_eq_some_iff (b : Bytes 32) (P : AffinePoint) :
    decode? b = some P <->
      P.OnCurve ∧ P.y = FieldElement.ofBytes b ∧ (P.x = 0 ∨ P.x.isNegative = b.topBit) :=
  ofY?_eq_some_iff (FieldElement.ofBytes b) b.topBit P

theorem decode?_eq_none_iff (b : Bytes 32) :
    decode? b = none <-> ¬ exists x, OnCurve { x := x, y := FieldElement.ofBytes b } :=
  ofY?_eq_none_iff (FieldElement.ofBytes b) b.topBit

theorem onCurve_of_decode? {b : Bytes 32} {P : AffinePoint} (h : decode? b = some P) :
    P.OnCurve :=
  ((decode?_eq_some_iff b P).mp h).1

/-! ## Writing -/

theorem lowBits_encode (P : AffinePoint) :
    lowBits P.encode = P.y.val :=
  lowBits_ofNat_parts (val_lt_two_pow P.y) P.x.isNegative

theorem topBit_encode (P : AffinePoint) :
    P.encode.topBit = P.x.isNegative :=
  topBit_ofNat_parts (val_lt_two_pow P.y) P.x.isNegative

theorem ofBytes_encode (P : AffinePoint) :
    FieldElement.ofBytes P.encode = P.y := by
  rw [ofBytes_eq_iff, lowBits_encode]
  exact Nat.mod_eq_of_lt P.y.val_lt

theorem decode?_encode {P : AffinePoint} (hP : P.OnCurve) :
    decode? P.encode = some P := by
  rw [decode?_eq_some_iff, ofBytes_encode, topBit_encode]
  exact ⟨hP, rfl, Or.inr rfl⟩

theorem encode_injective {P Q : AffinePoint} (hP : P.OnCurve) (hQ : Q.OnCurve)
    (h : P.encode = Q.encode) :
    P = Q := by
  have hsome : some P = some Q := by
    rw [← decode?_encode hP, ← decode?_encode hQ, h]
  exact Option.some_inj.mp hsome

/-- The canonical strings are those with reduced low bits and no sign for a zero `x`. -/
theorem eq_encode_iff {b : Bytes 32} {P : AffinePoint} (h : decode? b = some P) :
    b = P.encode <-> lowBits b < fieldPrime ∧ ¬ (P.x = 0 ∧ b.topBit = true) := by
  rcases (decode?_eq_some_iff b P).mp h with ⟨-, hy, hx⟩
  constructor
  · intro hb
    rw [hb, lowBits_encode, topBit_encode]
    refine ⟨P.y.val_lt, ?_⟩
    intro h
    rcases h with ⟨hzero, htop⟩
    rw [hzero, isNegative_zero] at htop
    cases htop
  · intro h
    rcases h with ⟨hlt, hsign⟩
    apply bytes_eq_of_parts
    · rw [lowBits_encode, hy, val_ofBytes, Nat.mod_eq_of_lt hlt]
    · rw [topBit_encode]
      rcases hx with hzero | heq
      · rw [hzero, isNegative_zero]
        cases htop : b.topBit with
        | false => rfl
        | true => exact absurd ⟨hzero, htop⟩ hsign
      · exact heq.symm

end AffinePoint

end Edwards25519
