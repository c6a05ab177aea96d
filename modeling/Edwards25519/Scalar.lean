import Edwards25519.Curve.Group
import Edwards25519.Error

/-!
# Scalars

A scalar is any string of 32 bytes, read as a number modulo the group order `L`.
Every operation takes arbitrary strings and gives the string of the number below
`L`. Sums and negations are computed in integers of 512 bits, wide enough for a
carry out of two strings and for a multiple of `L` above every string, and are
reduced at the end. Products are taken of the reduced operands.
-/

namespace Edwards25519

/-- A number modulo the group order, held as 32 bytes that need not be reduced. -/
structure Scalar where
  bytes : Bytes 32
deriving DecidableEq

structure WideScalar where
  bytes : Bytes 64
deriving DecidableEq

def Scalar.size : Nat := 32

def WideScalar.size : Nat := 64

namespace Scalar

def toNat (x : Scalar) : Nat :=
  x.bytes.toNat

def residue (x : Scalar) : Residue groupOrder :=
  Residue.ofNat x.toNat

def ofResidue (r : Residue groupOrder) : Scalar where
  bytes := Bytes.ofNat 32 r.val

def zero : Scalar where
  bytes := Bytes.zero 32

def one : Scalar where
  bytes := Bytes.ofNat 32 1

instance : Inhabited Scalar := ⟨zero⟩

def isCanonical (x : Scalar) : Bool :=
  decide (x.toNat < groupOrder)

/-- All bytes are zero; the other multiples of the group order do not count. -/
def isZero (x : Scalar) : Bool :=
  decide (x = zero)

end Scalar

/-! ## Integers of 512 bits -/

namespace WideScalar

def ofBitVec (v : BitVec 512) : WideScalar where
  bytes := Bytes.ofNat 64 v.toNat

def reduce (w : WideScalar) : Scalar :=
  Scalar.ofResidue (Residue.ofNat w.bytes.toNat)

end WideScalar

namespace Scalar

def widen (x : Scalar) : BitVec 512 :=
  BitVec.ofNat 512 x.toNat

/-- A multiple of the group order above every scalar, with a small number added. -/
def shiftedOrder (low : Nat) : BitVec 512 :=
  BitVec.ofNat 512 (groupOrder * Nat.pow 2 256 + low)

def wideSum (x y : Scalar) : BitVec 512 :=
  x.widen + y.widen

/-- A number of 512 bits congruent to a small number less the scalar. -/
def wideDifference (low : Nat) (x : Scalar) : BitVec 512 :=
  shiftedOrder low - x.widen

/-! ## Operations -/

def add (x y : Scalar) : Scalar :=
  (WideScalar.ofBitVec (wideSum x y)).reduce

def negate (x : Scalar) : Scalar :=
  (WideScalar.ofBitVec (wideDifference 0 x)).reduce

def complement (x : Scalar) : Scalar :=
  (WideScalar.ofBitVec (wideDifference 1 x)).reduce

def sub (x y : Scalar) : Scalar :=
  add x (negate y)

def mul (x y : Scalar) : Scalar :=
  ofResidue (x.residue * y.residue)

def invert (x : Scalar) : Except Error Scalar :=
  if x.residue = 0 then
    .error .nonInvertibleScalar
  else
    .ok (ofResidue (x.residue.power (groupOrder - 2)))

instance : Add Scalar := ⟨add⟩

instance : Neg Scalar := ⟨negate⟩

instance : Sub Scalar := ⟨sub⟩

instance : Mul Scalar := ⟨mul⟩

end Scalar

end Edwards25519
