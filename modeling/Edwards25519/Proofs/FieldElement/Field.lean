import Mathlib
import Edwards25519.FieldElement
import Edwards25519.Proofs.Primality
import Edwards25519.Proofs.Residue.Ring

/-!
# The field of the curve

The characteristic is prime, so the power that computes the inverse inverts
every element but zero, and the power that computes the character decides which
elements are squares.
-/

namespace Edwards25519
namespace FieldElement

instance : Fact fieldPrime.Prime := ⟨fieldPrime_prime⟩

theorem mul_inverse (a : FieldElement) (ha : a ≠ 0) :
    a * inverse a = 1 :=
  Residue.mul_power_sub_two ha

theorem inverse_zero :
    inverse 0 = 0 := by
  have hexp : fieldPrime - 2 ≠ 0 := by decide
  rw [inverse, Residue.power_eq_pow]
  exact zero_pow hexp

instance : Inv FieldElement := ⟨inverse⟩

instance : Nontrivial FieldElement := ⟨0, 1, by decide +kernel⟩

instance : Field FieldElement where
  inv := inverse
  div a b := a / b
  div_eq_mul_inv _ _ := rfl
  mul_inv_cancel := mul_inverse
  inv_zero := inverse_zero
  nnqsmul := _
  nnqsmul_def := fun _ _ => rfl
  qsmul := _
  qsmul_def := fun _ _ => rfl

theorem inverse_eq_inv (a : FieldElement) :
    inverse a = a⁻¹ :=
  rfl

def equivFin : FieldElement ≃ Fin fieldPrime where
  toFun a := ⟨a.val, a.val_lt⟩
  invFun n := { val := n.val, val_lt := n.isLt }
  left_inv _ := rfl
  right_inv _ := rfl

instance : Fintype FieldElement := Fintype.ofEquiv (Fin fieldPrime) equivFin.symm

theorem card_eq :
    Fintype.card FieldElement = fieldPrime := by
  rw [Fintype.card_congr equivFin, Fintype.card_fin]

/-! ## Squares -/

theorem two_ne_zero :
    (2 : FieldElement) ≠ 0 := by
  decide +kernel

theorem ringChar_ne_two :
    ringChar FieldElement ≠ 2 := by
  intro h
  apply two_ne_zero
  have hcast : ((ringChar FieldElement : Nat) : FieldElement) = 0 :=
    ringChar.Nat.cast_ringChar
  rw [h] at hcast
  exact_mod_cast hcast

theorem character_eq_one_iff (a : FieldElement) (ha : a ≠ 0) :
    character a = 1 <-> IsSquare a := by
  rw [FiniteField.isSquare_iff ringChar_ne_two ha, card_eq]
  rfl

theorem isSquare_of_character {a : FieldElement} (h : character a = 1) :
    IsSquare a := by
  by_cases ha : a = 0
  · rw [ha]
    exact IsSquare.zero
  · exact (character_eq_one_iff a ha).mp h

theorem not_isSquare_of_character {a : FieldElement} (h : character a = -1) :
    ¬ IsSquare a := by
  intro hsquare
  have ha : a ≠ 0 := by
    intro heq
    subst heq
    have hexp : (fieldPrime - 1) / 2 ≠ 0 := by decide
    rw [character, Residue.power_eq_pow, zero_pow hexp] at h
    exact one_ne_zero (neg_eq_zero.mp h.symm)
  rw [(character_eq_one_iff a ha).mpr hsquare] at h
  apply two_ne_zero
  linear_combination h

theorem character_eq_one_or_neg_one (a : FieldElement) (ha : a ≠ 0) :
    character a = 1 ∨ character a = -1 := by
  have h := FiniteField.pow_dichotomy ringChar_ne_two ha
  rw [card_eq] at h
  exact h

/-!
## The quadratic character

The character is multiplicative and is minus one exactly for the elements that are
no squares. So the product of two elements that are no squares is a square. Two is
no square, since the prime is five modulo eight.
-/

theorem character_mul (a b : FieldElement) :
    character (a * b) = character a * character b :=
  mul_pow a b ((fieldPrime - 1) / 2)

theorem character_eq_neg_one_iff (a : FieldElement) :
    character a = -1 <-> ¬ IsSquare a := by
  constructor
  · exact not_isSquare_of_character
  · intro h
    have ha : a ≠ 0 := by
      intro heq
      rw [heq] at h
      exact h IsSquare.zero
    exact (character_eq_one_or_neg_one a ha).resolve_left
      (fun hone => h ((character_eq_one_iff a ha).mp hone))

theorem isSquare_mul_of_nonsquares {a b : FieldElement} (ha : ¬ IsSquare a)
    (hb : ¬ IsSquare b) :
    IsSquare (a * b) := by
  apply isSquare_of_character
  rw [character_mul, (character_eq_neg_one_iff a).mpr ha, (character_eq_neg_one_iff b).mpr hb,
    neg_mul_neg, one_mul]

theorem not_isSquare_two :
    ¬ IsSquare (2 : FieldElement) := by
  have hmod : fieldPrime % 8 = 5 := by decide
  rw [FiniteField.isSquare_two_iff, card_eq, hmod]
  decide

end FieldElement
end Edwards25519
