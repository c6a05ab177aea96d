import Mathlib
import Edwards25519.Proofs.Primality
import Edwards25519.Proofs.Residue.Ring
import Edwards25519.Proofs.Scalar.Ring

/-!
# Inverses of scalars

The group order is prime, so every scalar that is no multiple of it has an inverse.
A string is a multiple if its class is zero, whether or not its bytes are. An
inverse is the only reduced scalar with the product one, and a product is zero only
if one of its factors has no inverse.
-/

namespace Edwards25519
namespace Scalar

instance : Fact groupOrder.Prime := ⟨groupOrder_prime⟩

/-! ## Scalars and their classes -/

theorem ofResidue_injective :
    Function.Injective ofResidue := by
  intro a b h
  rw [← residue_ofResidue a, h, residue_ofResidue]

theorem isCanonical_ofResidue (r : Residue groupOrder) :
    (ofResidue r).isCanonical = true := by
  rw [isCanonical_iff, toNat_ofResidue]
  exact r.val_lt

theorem ofResidue_residue {x : Scalar} (h : x.isCanonical = true) :
    ofResidue x.residue = x := by
  rw [residue_eq_intCast, eq_comm, eq_ofResidue_iff]
  exact ⟨(isCanonical_iff x).mp h, Int.ModEq.refl _⟩

theorem ofResidue_zero :
    ofResidue 0 = zero := by
  have hzero : zero.toNat = 0 := Bytes.toNat_zero 32
  rw [← toNat_inj, toNat_ofResidue, Residue.val_zero, hzero]

theorem ofResidue_one :
    ofResidue 1 = one := by
  rw [ofResidue, Residue.val_one_of_prime, one]

theorem residue_eq_zero_iff (x : Scalar) :
    x.residue = 0 <-> groupOrder ∣ x.toNat := by
  rw [residue_eq_natCast, ← Nat.cast_zero, Residue.natCast_eq_natCast_iff,
    Nat.modEq_zero_iff_dvd]

/-! ## Products -/

theorem mul_eq_one_iff (x y : Scalar) :
    mul x y = one <-> x.residue * y.residue = 1 := by
  rw [mul_eq_ofResidue, ← ofResidue_one, ofResidue_injective.eq_iff]

theorem mul_eq_zero_iff (x y : Scalar) :
    mul x y = zero <-> groupOrder ∣ x.toNat ∨ groupOrder ∣ y.toNat := by
  rw [mul_eq_ofResidue, ← ofResidue_zero, ofResidue_injective.eq_iff, mul_eq_zero,
    residue_eq_zero_iff, residue_eq_zero_iff]

theorem eq_of_mul_eq_one {x y z : Scalar} (hy : y.isCanonical = true)
    (hz : z.isCanonical = true) (hxy : mul x y = one) (hxz : mul x z = one) :
    y = z := by
  rw [mul_eq_one_iff] at hxy hxz
  rw [mul_comm] at hxy
  rw [← ofResidue_residue hy, left_inv_eq_right_inv hxy hxz, ofResidue_residue hz]

/-! ## The inverse -/

theorem invert_eq_error_iff (x : Scalar) (e : Error) :
    invert x = .error e <-> e = .nonInvertibleScalar ∧ groupOrder ∣ x.toNat := by
  rw [← residue_eq_zero_iff, invert]
  by_cases h : x.residue = 0
  · rw [if_pos h, Except.error.injEq, eq_comm]
    exact (and_iff_left h).symm
  · rw [if_neg h]
    constructor
    · intro herror
      cases herror
    · intro hzero
      exact absurd hzero.2 h

theorem mul_ofResidue_power {x : Scalar} (h : x.residue ≠ 0) :
    mul x (ofResidue (x.residue.power (groupOrder - 2))) = one := by
  rw [mul_eq_one_iff, residue_ofResidue]
  exact Residue.mul_power_sub_two h

theorem invert_eq_ok_iff (x z : Scalar) :
    invert x = .ok z <-> z.isCanonical = true ∧ mul x z = one := by
  rw [invert]
  by_cases h : x.residue = 0
  · rw [if_pos h]
    constructor
    · intro hok
      cases hok
    · intro hz
      rw [mul_eq_one_iff, h, zero_mul] at hz
      have hval := congrArg Residue.val hz.2
      rw [Residue.val_zero, Residue.val_one] at hval
      exact absurd hval (by decide)
  · rw [if_neg h, Except.ok.injEq]
    constructor
    · intro hz
      rw [← hz]
      exact ⟨isCanonical_ofResidue _, mul_ofResidue_power h⟩
    · intro hz
      exact eq_of_mul_eq_one (isCanonical_ofResidue _) hz.1 (mul_ofResidue_power h) hz.2

/-! ## Inverting twice -/

def extend (x : Scalar) : WideScalar where
  bytes := Bytes.append x.bytes (Bytes.zero 32)

theorem reduce_extend (x : Scalar) :
    (extend x).reduce = ofResidue x.residue := by
  have hnumber : (extend x).bytes.toNat = x.toNat := Bytes.toNat_append_zero x.bytes 32
  rw [WideScalar.reduce, hnumber]
  rfl

theorem invert_of_mul_eq_one {x z : Scalar} (h : mul x z = one) :
    invert z = .ok (extend x).reduce := by
  rw [mul_eq_one_iff] at h
  rw [invert_eq_ok_iff, reduce_extend, mul_eq_one_iff, residue_ofResidue, mul_comm]
  exact ⟨isCanonical_ofResidue _, h⟩

/-- Exactly the multiples of the group order have no inverse, and every other scalar has one. -/
theorem invert_inverse_modulo_groupOrder (x y : Scalar) :
    (forall e, invert x = .error e <-> e = .nonInvertibleScalar ∧ groupOrder ∣ x.toNat) ∧
    (¬ groupOrder ∣ x.toNat ->
      exists z, invert x = .ok z ∧ z.isCanonical = true ∧ mul x z = one ∧
        (forall w : Scalar, w.isCanonical = true -> mul x w = one -> w = z) ∧
        invert z = .ok (extend x).reduce) ∧
    (mul x y = zero <->
      invert x = .error .nonInvertibleScalar ∨ invert y = .error .nonInvertibleScalar) := by
  refine ⟨invert_eq_error_iff x, ?_, ?_⟩
  · intro hdvd
    cases h : invert x with
    | error e => exact absurd ((invert_eq_error_iff x e).mp h).2 hdvd
    | ok z =>
        rcases (invert_eq_ok_iff x z).mp h with ⟨hcanonical, hmul⟩
        refine ⟨z, rfl, hcanonical, hmul, ?_, invert_of_mul_eq_one hmul⟩
        intro w hw hone
        exact eq_of_mul_eq_one hw hcanonical hone hmul
  · rw [mul_eq_zero_iff, invert_eq_error_iff, invert_eq_error_iff]
    simp only [true_and]

def unreducedTwo : Scalar where
  bytes := Bytes.ofNat 32 (groupOrder + 2)

def half : Scalar where
  bytes := Bytes.ofNat 32 ((groupOrder + 1) / 2)

/-- The greatest multiple of the group order that 32 bytes can write. -/
def greatestMultiple : Scalar where
  bytes := Bytes.ofNat 32 (15 * groupOrder)

theorem invert_inverse_modulo_groupOrder_half :
    ¬ groupOrder ∣ unreducedTwo.toNat ∧
    half.isCanonical = true ∧
    mul unreducedTwo half = one ∧
    invert unreducedTwo = .ok half ∧
    invert half = .ok (extend unreducedTwo).reduce ∧
    groupOrder ∣ greatestMultiple.toNat ∧
    invert greatestMultiple = .error .nonInvertibleScalar ∧
    mul unreducedTwo greatestMultiple = zero := by
  have htwo : unreducedTwo.toNat = groupOrder + 2 :=
    Bytes.toNat_ofNat_of_lt (by decide)
  have hhalf : half.toNat = (groupOrder + 1) / 2 :=
    Bytes.toNat_ofNat_of_lt (by decide)
  have hmultiple : greatestMultiple.toNat = 15 * groupOrder :=
    Bytes.toNat_ofNat_of_lt (by decide)
  have hdvd : groupOrder ∣ greatestMultiple.toNat := by
    rw [hmultiple]
    exact Nat.dvd_mul_left groupOrder 15
  have hndvd : ¬ groupOrder ∣ unreducedTwo.toNat := by
    rw [htwo]
    decide
  have hcanonical : half.isCanonical = true := by
    rw [isCanonical_iff, hhalf]
    decide
  have hone : mul unreducedTwo half = one := by
    have hproduct := (Residue.natCast_eq_natCast_iff (m := groupOrder)
      ((groupOrder + 2) * ((groupOrder + 1) / 2)) 1).mpr (by decide)
    rw [Nat.cast_mul, Nat.cast_one] at hproduct
    rw [mul_eq_one_iff, residue_eq_natCast, residue_eq_natCast, htwo, hhalf]
    exact hproduct
  rcases invert_inverse_modulo_groupOrder unreducedTwo greatestMultiple with ⟨-, hinverse, hzero⟩
  rcases invert_inverse_modulo_groupOrder greatestMultiple greatestMultiple with ⟨herror, -, -⟩
  have hfails := (herror .nonInvertibleScalar).mpr ⟨rfl, hdvd⟩
  rcases hinverse hndvd with ⟨z, hz, -, -, hunique, htwice⟩
  rw [← hunique half hcanonical hone] at hz htwice
  exact ⟨hndvd, hcanonical, hone, hz, htwice, hdvd, hfails, hzero.mpr (Or.inr hfails)⟩

end Scalar
end Edwards25519
