import Mathlib
import Edwards25519.Ristretto.Element
import Edwards25519.Proofs.Curve.Encoding

/-!
# Decoding classes

A field element `s` that is not negative stands for at most one point: the one
with `s ^ 2 (1 + y) = 1 - y` whose `x` and `x y` are not negative and whose `y` is
not zero. The decoder gives this point exactly if it is on the curve.
-/

namespace Edwards25519
namespace Ristretto

open FieldElement

/-- The point is the one that the decoder gives for the field element. -/
structure IsRepresentative (P : AffinePoint) (s : FieldElement) : Prop where
  onCurve : P.OnCurve
  s_eq : s * s * (1 + P.y) = 1 - P.y
  s_sign : s.isNegative = false
  x_sign : P.x.isNegative = false
  t_sign : (P.x * P.y).isNegative = false
  y_ne_zero : P.y ≠ 0

theorem IsRepresentative.one_add_y_ne_zero {P : AffinePoint} {s : FieldElement}
    (h : IsRepresentative P s) :
    1 + P.y ≠ 0 := by
  intro hzero
  have hs := h.s_eq
  rw [hzero, mul_zero] at hs
  apply FieldElement.two_ne_zero
  linear_combination hzero - hs

theorem IsRepresentative.one_add_s_ne_zero {P : AffinePoint} {s : FieldElement}
    (h : IsRepresentative P s) :
    1 + s * s ≠ 0 := by
  intro hzero
  apply FieldElement.two_ne_zero
  linear_combination (1 + P.y) * hzero - h.s_eq

/-! ## The point of a root -/

def denominatorFactor (s : FieldElement) : FieldElement :=
  -(d * (1 - s.square).square) - (1 + s.square).square

def radicand (s : FieldElement) : FieldElement :=
  denominatorFactor s * (1 + s.square).square

def pointOfRoot (s root : FieldElement) : AffinePoint where
  x := ((s + s) * (root * (1 + s.square))).abs
  y := (1 - s.square) * (root * (root * (1 + s.square)) * denominatorFactor s)

section Root

variable {s root : FieldElement}

theorem pointOfRoot_y_mul (hroot : radicand s * (root * root) = 1) :
    (pointOfRoot s root).y * (1 + s * s) = 1 - s * s := by
  simp only [pointOfRoot, radicand, Residue.square_eq_mul] at hroot ⊢
  linear_combination (1 - s * s) * hroot

theorem pointOfRoot_x_mul (hroot : radicand s * (root * root) = 1) :
    (pointOfRoot s root).x * (pointOfRoot s root).x * denominatorFactor s = 4 * (s * s) := by
  simp only [pointOfRoot, abs_mul_self]
  simp only [radicand, Residue.square_eq_mul] at hroot ⊢
  linear_combination 4 * (s * s) * hroot

theorem onCurve_pointOfRoot (hroot : radicand s * (root * root) = 1) :
    (pointOfRoot s root).OnCurve := by
  have hy := pointOfRoot_y_mul hroot
  have hx := pointOfRoot_x_mul hroot
  have hne : radicand s ≠ 0 := left_ne_zero_of_mul_eq_one hroot
  rw [AffinePoint.onCurve_iff, SolvesEdwards]
  generalize pointOfRoot s root = P at hx hy ⊢
  apply mul_left_cancel₀ hne
  have hfactor : denominatorFactor s =
      -(d * ((1 - s * s) * (1 - s * s))) - (1 + s * s) * (1 + s * s) := by
    simp only [denominatorFactor, Residue.square_eq_mul]
  rw [radicand, Residue.square_eq_mul, Residue.square_eq_mul, hfactor]
  rw [hfactor] at hx
  linear_combination
    (-(d * ((1 - s * s) * (1 - s * s))) - (1 + s * s) * (1 + s * s) - d * (4 * (s * s))) *
        (P.y * (1 + s * s) + (1 - s * s)) * hy -
      ((1 + s * s) * (1 + s * s) + d * (P.y * (1 + s * s)) * (P.y * (1 + s * s))) * hx

end Root

/-! ## Which field elements have a root -/

theorem neg_d_sub_one_mul_invSqrtAMinusD :
    (-d - 1) * (invSqrtAMinusD * invSqrtAMinusD) = 1 := by
  decide +kernel

theorem IsRepresentative.y_mul {P : AffinePoint} {s : FieldElement}
    (h : IsRepresentative P s) :
    P.y * (1 + s * s) = 1 - s * s := by
  linear_combination h.s_eq

theorem IsRepresentative.x_mul {P : AffinePoint} {s : FieldElement}
    (h : IsRepresentative P s) :
    P.x * P.x * denominatorFactor s = 4 * (s * s) := by
  have hy := h.y_mul
  have hcurve := h.onCurve.equation
  simp only [denominatorFactor, Residue.square_eq_mul]
  linear_combination
    d * (P.x * P.x) * (P.y * (1 + s * s) + (1 - s * s)) * hy +
      (1 + s * s) * (1 + s * s) * hcurve - (P.y * (1 + s * s) + (1 - s * s)) * hy

theorem IsRepresentative.exists_root {P : AffinePoint} {s : FieldElement}
    (h : IsRepresentative P s) :
    exists w, radicand s * (w * w) = 1 := by
  by_cases hs : s = 0
  · refine ⟨invSqrtAMinusD, ?_⟩
    have hroot := neg_d_sub_one_mul_invSqrtAMinusD
    rw [hs, radicand, denominatorFactor]
    simp only [Residue.square_eq_mul]
    linear_combination hroot
  · have hx := h.x_mul
    have hden : 1 + s ^ 2 ≠ 0 := by
      rw [pow_two]
      exact h.one_add_s_ne_zero
    have htwo := FieldElement.two_ne_zero
    refine ⟨P.x / (2 * s * (1 + s * s)), ?_⟩
    rw [radicand, Residue.square_eq_mul, Residue.square_eq_mul]
    field_simp
    linear_combination hx

theorem IsRepresentative.unique {P Q : AffinePoint} {s : FieldElement}
    (hP : P.OnCurve) (hPx : P.x.isNegative = false) (hPy : P.y * (1 + s * s) = 1 - s * s)
    (hQ : IsRepresentative Q s) :
    P = Q := by
  have hy : P.y = Q.y := by
    apply mul_right_cancel₀ hQ.one_add_s_ne_zero
    rw [hPy, hQ.y_mul]
  exact AffinePoint.eq_of_y_eq hP hQ.onCurve hy (Or.inr hPx) (Or.inr hQ.x_sign)

/-! ## Reading a field element -/

def decodedPoint (s : FieldElement) : AffinePoint :=
  pointOfRoot s (inverseSqrt (radicand s)).root

theorem ofFieldElement?_eq (s : FieldElement) :
    ofFieldElement? s =
      if (inverseSqrt (radicand s)).isSquare &&
          !((decodedPoint s).x * (decodedPoint s).y).isNegative &&
          decide ((decodedPoint s).y ≠ 0) then
        some (decodedPoint s)
      else
        none :=
  rfl

/-- The decoder gives the point that the field element stands for, and no other. -/
theorem ofFieldElement?_eq_some_iff {s : FieldElement} (hs : s.isNegative = false)
    (P : AffinePoint) :
    ofFieldElement? s = some P <-> IsRepresentative P s := by
  rw [ofFieldElement?_eq, Option.ite_none_right_eq_some, Option.some_inj, Bool.and_eq_true,
    Bool.and_eq_true, Bool.not_eq_true', decide_eq_true_eq]
  constructor
  · intro h
    rcases h with ⟨⟨⟨hsquare, ht⟩, hy⟩, rfl⟩
    have hroot : radicand s * ((inverseSqrt (radicand s)).root *
        (inverseSqrt (radicand s)).root) = 1 :=
      mul_root_of_isSquare (u := 1) (v := radicand s) hsquare
    exact
      { onCurve := onCurve_pointOfRoot hroot
        s_eq := by
          have hmul := pointOfRoot_y_mul hroot
          rw [decodedPoint]
          linear_combination hmul
        s_sign := hs
        x_sign := isNegative_abs _
        t_sign := ht
        y_ne_zero := hy }
  · intro h
    have hsquare : (inverseSqrt (radicand s)).isSquare = true :=
      (sqrtRatio_isSquare_iff 1 (radicand s)).mpr h.exists_root
    have hroot : radicand s * ((inverseSqrt (radicand s)).root *
        (inverseSqrt (radicand s)).root) = 1 :=
      mul_root_of_isSquare (u := 1) (v := radicand s) hsquare
    have hpoint : decodedPoint s = P :=
      IsRepresentative.unique (onCurve_pointOfRoot hroot) (isNegative_abs _)
        (pointOfRoot_y_mul hroot) h
    rw [hpoint]
    exact ⟨⟨⟨hsquare, h.t_sign⟩, h.y_ne_zero⟩, rfl⟩

/-! ## Reading a string -/

theorem isCanonical_iff (b : Bytes 32) :
    isCanonical b = true <-> b.toNat < fieldPrime ∧ (ofBytes b).isNegative = false := by
  rw [isCanonical, Bool.and_eq_true, decide_eq_true_eq]
  constructor
  · intro h
    rcases h with ⟨hlt, heven⟩
    refine ⟨hlt, ?_⟩
    rw [isNegative, val_ofBytes_of_toNat_lt hlt, beq_iff_eq.mp heven]
    rfl
  · intro h
    rcases h with ⟨hlt, hsign⟩
    refine ⟨hlt, ?_⟩
    rw [isNegative, val_ofBytes_of_toNat_lt hlt] at hsign
    rw [beq_iff_eq]
    rcases Nat.mod_two_eq_zero_or_one b.toNat with h | h
    · exact h
    · rw [h] at hsign
      cases hsign

theorem isCanonical_toBytes {a : FieldElement} (h : a.isNegative = false) :
    isCanonical a.toBytes = true := by
  rw [isCanonical_iff, toNat_toBytes, ofBytes_toBytes]
  exact ⟨a.val_lt, h⟩

theorem toBytes_ofBytes_of_isCanonical {b : Bytes 32} (h : isCanonical b = true) :
    (ofBytes b).toBytes = b :=
  toBytes_ofBytes ((isCanonical_iff b).mp h).1

theorem decode?_eq_some_iff (b : Bytes 32) (P : AffinePoint) :
    decode? b = some P <-> isCanonical b = true ∧ IsRepresentative P (ofBytes b) := by
  rw [decode?, Option.ite_none_right_eq_some]
  constructor
  · intro hboth
    rcases hboth with ⟨hcanonical, h⟩
    exact ⟨hcanonical,
      (ofFieldElement?_eq_some_iff ((isCanonical_iff b).mp hcanonical).2 P).mp h⟩
  · intro hboth
    rcases hboth with ⟨hcanonical, h⟩
    exact ⟨hcanonical, (ofFieldElement?_eq_some_iff h.s_sign P).mpr h⟩

theorem decode?_toBytes {P : AffinePoint} {s : FieldElement} (h : IsRepresentative P s) :
    decode? s.toBytes = some P := by
  rw [decode?_eq_some_iff, ofBytes_toBytes]
  exact ⟨isCanonical_toBytes h.s_sign, h⟩

end Ristretto
end Edwards25519
