import Mathlib
import Edwards25519.Arithmetic.Residue

/-!
# The ring of residues

Residues modulo `m` are the integers modulo `m` in another dress. The operations
on representatives agree with those of `ZMod m`, so the laws of a commutative
ring carry over, and so do the powers computed by repeated squaring.
-/

namespace Edwards25519

/-!
## Combining an element with itself

The recursion over the binary digits keeps a relation between computed elements
and elements of a monoid, if the operation does.
-/

theorem powerOfDigits_related {α M : Type} [Monoid M] {op : α -> α -> α} {unit : α}
    {R : α -> M -> Prop} (hunit : R unit 1)
    (hop : forall a b s t, R a s -> R b t -> R (op a b) (s * t))
    {x : α} {g : M} (hx : R x g) (width n : Nat) (hn : n < 2 ^ width) :
    R (powerOfDigits op unit x width n) (g ^ n) := by
  induction width generalizing n with
  | zero =>
      have hzero : n = 0 := by simpa using hn
      rw [hzero, pow_zero]
      exact hunit
  | succ width ih =>
      have hhalf : n / 2 < 2 ^ width := by
        rw [pow_succ] at hn
        omega
      have hsquare := hop _ _ _ _ (ih (n / 2) hhalf) (ih (n / 2) hhalf)
      rw [← pow_add] at hsquare
      simp only [powerOfDigits]
      split
      · rename_i hodd
        have hsplit : n = n / 2 + n / 2 + 1 := by omega
        have hstep := hop _ _ _ _ hsquare hx
        rw [← pow_succ, ← hsplit] at hstep
        exact hstep
      · rename_i heven
        have hsplit : n = n / 2 + n / 2 := by omega
        rw [← hsplit] at hsquare
        exact hsquare

theorem binaryPower_related {α M : Type} [Monoid M] {op : α -> α -> α} {unit : α}
    {R : α -> M -> Prop} (hunit : R unit 1)
    (hop : forall a b s t, R a s -> R b t -> R (op a b) (s * t))
    {x : α} {g : M} (hx : R x g) (n : Nat) :
    R (binaryPower op unit x n) (g ^ n) := by
  unfold binaryPower
  exact powerOfDigits_related hunit hop hx (n.log2 + 1) n Nat.lt_log2_self

namespace Residue

variable {m : Nat}

def toZMod (a : Residue m) : ZMod m :=
  (a.val : ZMod m)

theorem toZMod_injective :
    Function.Injective (toZMod (m := m)) := by
  intro a b h
  have hmod : a.val % m = b.val % m :=
    (ZMod.natCast_eq_natCast_iff' a.val b.val m).mp h
  rw [Nat.mod_eq_of_lt a.val_lt, Nat.mod_eq_of_lt b.val_lt] at hmod
  exact ext hmod

variable [Modulus m]

/-! ## Operations seen in the integers modulo `m` -/

theorem toZMod_ofNat (n : Nat) :
    toZMod (ofNat n : Residue m) = n := by
  rw [toZMod, val_ofNat, ZMod.natCast_mod]

theorem toZMod_zero :
    toZMod (0 : Residue m) = 0 := by
  rw [← Nat.cast_zero]
  exact toZMod_ofNat 0

theorem toZMod_one :
    toZMod (1 : Residue m) = 1 := by
  rw [← Nat.cast_one]
  exact toZMod_ofNat 1

theorem toZMod_add (a b : Residue m) :
    toZMod (a + b) = toZMod a + toZMod b := by
  have h : toZMod (a + b) = ((a.val + b.val : Nat) : ZMod m) :=
    toZMod_ofNat (a.val + b.val)
  rw [h, Nat.cast_add]
  rfl

theorem toZMod_mul (a b : Residue m) :
    toZMod (a * b) = toZMod a * toZMod b := by
  have h : toZMod (a * b) = ((a.val * b.val : Nat) : ZMod m) :=
    toZMod_ofNat (a.val * b.val)
  rw [h, Nat.cast_mul]
  rfl

theorem toZMod_neg (a : Residue m) :
    toZMod (-a) = -toZMod a := by
  have h : toZMod (-a) = ((m - a.val : Nat) : ZMod m) := toZMod_ofNat (m - a.val)
  rw [h, Nat.cast_sub a.val_lt.le, ZMod.natCast_self, zero_sub]
  rfl

theorem toZMod_sub (a b : Residue m) :
    toZMod (a - b) = toZMod a - toZMod b := by
  have h : toZMod (a - b) = ((a.val + (m - b.val) : Nat) : ZMod m) :=
    toZMod_ofNat (a.val + (m - b.val))
  rw [h, Nat.cast_add, Nat.cast_sub b.val_lt.le, ZMod.natCast_self, zero_sub,
    ← sub_eq_add_neg]
  rfl

theorem toZMod_power (a : Residue m) (n : Nat) :
    toZMod (a.power n) = toZMod a ^ n := by
  apply binaryPower_related (R := fun (b : Residue m) t => toZMod b = t)
  · exact toZMod_one
  · intro b c s t hb hc
    rw [toZMod_mul, hb, hc]
  · rfl

/-! ## The ring -/

instance : NatCast (Residue m) := ⟨ofNat⟩

instance : IntCast (Residue m) := ⟨fun n => ofNat (n % m).toNat⟩

instance : SMul Nat (Residue m) := ⟨fun n a => ofNat n * a⟩

instance : SMul Int (Residue m) := ⟨fun n a => (n : Residue m) * a⟩

instance : Pow (Residue m) Nat := ⟨power⟩

theorem toZMod_intCast (n : Int) :
    toZMod (n : Residue m) = n := by
  have hpos : (m : Int) ≠ 0 := by
    have h : 0 < m := Modulus.pos
    omega
  have hcast : (((n % m).toNat : Nat) : Int) = n % m :=
    Int.toNat_of_nonneg (Int.emod_nonneg n hpos)
  have h : toZMod (n : Residue m) = (((n % m).toNat : Nat) : ZMod m) :=
    toZMod_ofNat (n % m).toNat
  rw [h, ← Int.cast_natCast, hcast, ZMod.intCast_mod]

instance : CommRing (Residue m) :=
  toZMod_injective.commRing toZMod toZMod_zero toZMod_one toZMod_add toZMod_mul
    toZMod_neg toZMod_sub
    (by
      intro n a
      rw [nsmul_eq_mul, ← toZMod_ofNat]
      exact toZMod_mul (ofNat n) a)
    (by
      intro n a
      rw [zsmul_eq_mul, ← toZMod_intCast]
      exact toZMod_mul (n : Residue m) a)
    toZMod_power toZMod_ofNat toZMod_intCast

theorem power_eq_pow (a : Residue m) (n : Nat) :
    a.power n = a ^ n :=
  rfl

theorem square_eq_mul (a : Residue m) :
    a.square = a * a :=
  rfl

/-! ## Classes of numbers -/

theorem ofNat_eq_natCast (n : Nat) :
    (ofNat n : Residue m) = n :=
  rfl

theorem natCast_eq_natCast_iff (v w : Nat) :
    (v : Residue m) = (w : Residue m) <-> v ≡ w [MOD m] := by
  rw [← toZMod_injective.eq_iff, ← ofNat_eq_natCast, ← ofNat_eq_natCast, toZMod_ofNat,
    toZMod_ofNat]
  exact ZMod.natCast_eq_natCast_iff v w m

theorem intCast_eq_intCast_iff (v w : Int) :
    (v : Residue m) = (w : Residue m) <-> v ≡ w [ZMOD m] := by
  rw [← toZMod_injective.eq_iff, toZMod_intCast, toZMod_intCast]
  exact ZMod.intCast_eq_intCast_iff v w m

theorem natCast_modulus :
    ((m : Nat) : Residue m) = 0 := by
  apply toZMod_injective
  rw [toZMod_zero, ← ZMod.natCast_self m]
  exact toZMod_ofNat m

/-!
## Residues modulo a prime

Modulo a prime a product is zero only if one of its factors is, and the power whose
exponent is two less than the prime inverts every residue but zero.
-/

variable [Fact m.Prime]

instance : NoZeroDivisors (Residue m) :=
  toZMod_injective.noZeroDivisors toZMod toZMod_zero toZMod_mul

theorem mul_power_sub_two {a : Residue m} (ha : a ≠ 0) :
    a * a.power (m - 2) = 1 := by
  have hz : a.toZMod ≠ 0 := by
    intro h
    apply ha
    apply toZMod_injective
    rw [h, toZMod_zero]
  have htwo : 2 <= m := (Fact.out : m.Prime).two_le
  have hexp : m - 2 + 1 = m - 1 := by omega
  apply toZMod_injective
  rw [toZMod_mul, toZMod_power, toZMod_one, mul_comm, ← pow_succ, hexp]
  exact ZMod.pow_card_sub_one_eq_one hz

/-! ## Representatives of units -/

theorem val_one_of_prime :
    (1 : Residue m).val = 1 := by
  rw [val_one]
  exact Nat.mod_eq_of_lt (Fact.out : m.Prime).one_lt

theorem val_neg_one_of_prime :
    (-1 : Residue m).val = m - 1 := by
  have hlt : m - 1 < m := Nat.sub_lt Modulus.pos Nat.one_pos
  rw [val_neg, val_one_of_prime, Nat.mod_eq_of_lt hlt]

end Residue

end Edwards25519
