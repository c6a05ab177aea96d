/-!
# Residues

A residue modulo `m` is held as its representative below `m`, so two residues
are equal exactly when their representatives are. The field of the curve and
the ring of scalars are both instances.
-/

namespace Edwards25519

/-!
## Powers by squaring

The `n`-fold combination of an element with itself is computed from the binary
digits of `n`, with one squaring per digit. The same recursion serves powers of
residues and multiples of curve points.
-/

/--
Combines `x` with itself as often as the lowest `width` binary digits of `n`
say, starting from `unit`.
-/
def powerOfDigits {α : Type} (op : α -> α -> α) (unit x : α) : Nat -> Nat -> α
  | 0, _ => unit
  | width + 1, n =>
      let half := powerOfDigits op unit x width (n / 2)
      let square := op half half
      if n % 2 = 1 then op square x else square

@[irreducible] def binaryPower {α : Type} (op : α -> α -> α) (unit x : α) (n : Nat) : α :=
  powerOfDigits op unit x (n.log2 + 1) n

/-! ## Residues as representatives -/

class Modulus (m : Nat) : Prop where
  pos : 0 < m

/-- A number modulo `m`, held as its representative below `m`. -/
structure Residue (m : Nat) where
  val : Nat
  val_lt : val < m
deriving DecidableEq

namespace Residue

variable {m : Nat}

theorem ext {a b : Residue m} (h : a.val = b.val) :
    a = b := by
  cases a
  cases b
  cases h
  rfl

theorem val_inj {a b : Residue m} :
    a.val = b.val <-> a = b := by
  constructor
  · exact ext
  · intro h
    rw [h]

variable [Modulus m]

def ofNat (n : Nat) : Residue m where
  val := n % m
  val_lt := Nat.mod_lt n Modulus.pos

instance : Zero (Residue m) := ⟨ofNat 0⟩

instance : One (Residue m) := ⟨ofNat 1⟩

instance : Inhabited (Residue m) := ⟨0⟩

instance : Add (Residue m) := ⟨fun a b => ofNat (a.val + b.val)⟩

instance : Mul (Residue m) := ⟨fun a b => ofNat (a.val * b.val)⟩

instance : Neg (Residue m) := ⟨fun a => ofNat (m - a.val)⟩

instance : Sub (Residue m) := ⟨fun a b => ofNat (a.val + (m - b.val))⟩

def square (a : Residue m) : Residue m :=
  a * a

def power (a : Residue m) (n : Nat) : Residue m :=
  binaryPower (· * ·) 1 a n

/-! ## Representatives of results -/

theorem val_ofNat (n : Nat) :
    (ofNat n : Residue m).val = n % m :=
  rfl

theorem val_zero :
    (0 : Residue m).val = 0 :=
  Nat.zero_mod m

theorem val_one :
    (1 : Residue m).val = 1 % m :=
  rfl

theorem val_add (a b : Residue m) :
    (a + b).val = (a.val + b.val) % m :=
  rfl

theorem val_neg (a : Residue m) :
    (-a).val = (m - a.val) % m :=
  rfl

theorem ofNat_val (a : Residue m) :
    ofNat a.val = a :=
  ext (Nat.mod_eq_of_lt a.val_lt)

-- Unification over symbolic residues would unfold the remainders.
attribute [irreducible] ofNat

end Residue

end Edwards25519
