import Mathlib
import Edwards25519.Proofs.FieldElement.Field

/-!
# Signs of field elements

The prime is odd, so of a nonzero element and its negation exactly one has an
odd representative. A square therefore has one root that is not negative.
-/

namespace Edwards25519
namespace FieldElement

theorem val_eq_zero_iff (a : FieldElement) :
    a.val = 0 <-> a = 0 := by
  rw [← Residue.val_inj, Residue.val_zero]

@[simp] theorem isNegative_zero :
    isNegative 0 = false := by
  rw [isNegative, Residue.val_zero]
  rfl

theorem isNegative_neg (a : FieldElement) (ha : a ≠ 0) :
    (-a).isNegative = !a.isNegative := by
  have hpos : a.val ≠ 0 := by
    intro h
    exact ha ((val_eq_zero_iff a).mp h)
  have hlt := a.val_lt
  have hodd : fieldPrime % 2 = 1 := by decide
  have hval : (-a).val = fieldPrime - a.val := by
    rw [Residue.val_neg, Nat.mod_eq_of_lt (by omega)]
  simp only [isNegative, hval]
  rcases Nat.mod_two_eq_zero_or_one a.val with h | h
  · have hflip : (fieldPrime - a.val) % 2 = 1 := by omega
    rw [h, hflip]
    rfl
  · have hflip : (fieldPrime - a.val) % 2 = 0 := by omega
    rw [h, hflip]
    rfl

/-! ## Choosing a sign -/

@[simp] theorem negateIf_true (a : FieldElement) :
    negateIf true a = -a :=
  rfl

@[simp] theorem negateIf_false (a : FieldElement) :
    negateIf false a = a :=
  rfl

@[simp] theorem negateIf_mul_self (c : Bool) (a : FieldElement) :
    negateIf c a * negateIf c a = a * a := by
  cases c with
  | false => rfl
  | true => exact neg_mul_neg a a

@[simp] theorem abs_mul_self (a : FieldElement) :
    a.abs * a.abs = a * a :=
  negateIf_mul_self _ a

@[simp] theorem isNegative_abs (a : FieldElement) :
    a.abs.isNegative = false := by
  unfold abs
  cases h : a.isNegative with
  | false =>
      rw [negateIf_false]
      exact h
  | true =>
      have hne : a ≠ 0 := by
        intro hzero
        rw [hzero, isNegative_zero] at h
        cases h
      rw [negateIf_true, isNegative_neg a hne, h]
      rfl

@[simp] theorem abs_zero :
    abs 0 = 0 := by
  rw [abs, isNegative_zero, negateIf_false]

theorem eq_of_mul_self_eq {a b : FieldElement} (hsquare : a * a = b * b)
    (hsign : a.isNegative = b.isNegative) :
    a = b := by
  rcases mul_self_eq_mul_self_iff.mp hsquare with heq | hneg
  · exact heq
  · by_cases hb : b = 0
    · rw [hneg, hb, neg_zero]
    · rw [hneg, isNegative_neg b hb] at hsign
      cases hc : b.isNegative with
      | false =>
          rw [hc] at hsign
          cases hsign
      | true =>
          rw [hc] at hsign
          cases hsign

theorem abs_neg (a : FieldElement) :
    (-a).abs = a.abs := by
  apply eq_of_mul_self_eq
  · rw [abs_mul_self, abs_mul_self, neg_mul_neg]
  · rw [isNegative_abs, isNegative_abs]

end FieldElement
end Edwards25519
