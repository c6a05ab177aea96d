import Mathlib
import Edwards25519.Curve.Group
import Edwards25519.Proofs.Curve.Group

/-!
# Multiples in extended coordinates

Sums in extended coordinates stand for sums of points, so the multiple computed
by doubling and adding is the multiple in the group of the curve.
-/

namespace Edwards25519

open FieldElement

namespace ExtendedPoint

structure Represents (E : ExtendedPoint) (P : CurvePoint) : Prop where
  z_ne_zero : E.z ≠ 0
  x_eq : E.x = P.toAffine.x * E.z
  y_eq : E.y = P.toAffine.y * E.z
  t_eq : E.t = P.toAffine.x * P.toAffine.y * E.z

theorem represents_identity :
    identity.Represents 0 where
  z_ne_zero := one_ne_zero
  x_eq := by simp [identity]
  y_eq := by simp [identity]
  t_eq := by simp [identity]

theorem represents_ofAffine (P : CurvePoint) :
    (ofAffine P.toAffine).Represents P where
  z_ne_zero := one_ne_zero
  x_eq := by simp [ofAffine]
  y_eq := by simp [ofAffine]
  t_eq := by simp [ofAffine]

theorem Represents.toAffine_eq {E : ExtendedPoint} {P : CurvePoint}
    (h : E.Represents P) :
    E.toAffine = P.toAffine := by
  apply AffinePoint.ext
  · rw [toAffine, h.x_eq, inverse_eq_inv, mul_assoc, mul_inv_cancel₀ h.z_ne_zero, mul_one]
  · rw [toAffine, h.y_eq, inverse_eq_inv, mul_assoc, mul_inv_cancel₀ h.z_ne_zero, mul_one]

theorem Represents.add {E F : ExtendedPoint} {P Q : CurvePoint}
    (hE : E.Represents P) (hF : F.Represents Q) :
    (E.add F).Represents (P + Q) := by
  have hplus := AffinePoint.one_add_denominatorProduct_ne_zero P.onCurve Q.onCurve
  have hminus := AffinePoint.one_sub_denominatorProduct_ne_zero P.onCurve Q.onCurve
  have hx := AffinePoint.add_x_mul P.onCurve Q.onCurve
  have hy := AffinePoint.add_y_mul P.onCurve Q.onCurve
  -- Both factors of the new denominator are twice `E.z F.z` times one of the old ones.
  have hfirst : E.z * F.z + E.z * F.z - (d + d) * E.t * F.t =
      2 * (E.z * F.z) * (1 - AffinePoint.denominatorProduct P.toAffine Q.toAffine) := by
    rw [hE.t_eq, hF.t_eq, AffinePoint.denominatorProduct]
    ring
  have hsecond : E.z * F.z + E.z * F.z + (d + d) * E.t * F.t =
      2 * (E.z * F.z) * (1 + AffinePoint.denominatorProduct P.toAffine Q.toAffine) := by
    rw [hE.t_eq, hF.t_eq, AffinePoint.denominatorProduct]
    ring
  have hdiff : (E.y + E.x) * (F.y + F.x) - (E.y - E.x) * (F.y - F.x) =
      2 * (E.z * F.z) *
        (P.toAffine.x * Q.toAffine.y + P.toAffine.y * Q.toAffine.x) := by
    rw [hE.x_eq, hF.x_eq, hE.y_eq, hF.y_eq]
    ring
  have hsum : (E.y + E.x) * (F.y + F.x) + (E.y - E.x) * (F.y - F.x) =
      2 * (E.z * F.z) *
        (P.toAffine.y * Q.toAffine.y + P.toAffine.x * Q.toAffine.x) := by
    rw [hE.x_eq, hF.x_eq, hE.y_eq, hF.y_eq]
    ring
  have hz : (2 : FieldElement) * (E.z * F.z) ≠ 0 :=
    mul_ne_zero two_ne_zero (mul_ne_zero hE.z_ne_zero hF.z_ne_zero)
  constructor
  · simp only [ExtendedPoint.add, hfirst, hsecond]
    exact mul_ne_zero (mul_ne_zero hz hminus) (mul_ne_zero hz hplus)
  · simp only [ExtendedPoint.add, hfirst, hsecond, hdiff, CurvePoint.toAffine_add, ← hx]
    ring
  · simp only [ExtendedPoint.add, hfirst, hsecond, hsum, CurvePoint.toAffine_add, ← hy]
    ring
  · simp only [ExtendedPoint.add, hfirst, hsecond, hdiff, hsum, CurvePoint.toAffine_add, ← hx,
      ← hy]
    ring

end ExtendedPoint

namespace AffinePoint

theorem multiple_eq_nsmul (n : Nat) (P : CurvePoint) :
    multiple n P.toAffine = (n • P).toAffine := by
  have h := binaryPower_related
    (R := fun (E : ExtendedPoint) (g : Multiplicative CurvePoint) => E.Represents g.toAdd)
    ExtendedPoint.represents_identity
    (fun _ _ _ _ hE hF => hE.add hF)
    (g := Multiplicative.ofAdd P)
    (ExtendedPoint.represents_ofAffine P) n
  exact h.toAffine_eq

theorem clearCofactor_eq_nsmul (P : CurvePoint) :
    clearCofactor P.toAffine = (8 • P).toAffine :=
  multiple_eq_nsmul 8 P

end AffinePoint

end Edwards25519
