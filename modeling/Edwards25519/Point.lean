import Edwards25519.Curve.Elligator
import Edwards25519.Error
import Edwards25519.Scalar

/-!
# Points as bytes

A point travels as 32 bytes that promise nothing by themselves. Sums and
differences only need operands that decode, and they answer with canonical
bytes. The maps from uniform bytes and from hashes always give a point of the
subgroup of prime order.
-/

namespace Edwards25519

/-- A compressed point, or any other 32 bytes in its place. -/
structure Point where
  bytes : Bytes 32
deriving DecidableEq

namespace Point

def size : Nat := 32

def uniformSize : Nat := 32

def hashSize : Nat := 64

def decode? (p : Point) : Option AffinePoint :=
  AffinePoint.decode? p.bytes

def encode (P : AffinePoint) : Point where
  bytes := P.encode

def identity : Point :=
  encode AffinePoint.identity

def basepoint : Point :=
  encode AffinePoint.basepoint

/-! ## Group operations -/

def add (p q : Point) : Except Error Point :=
  onDecoded decode? (fun P Q => encode (P + Q)) p q

def sub (p q : Point) : Except Error Point :=
  onDecoded decode? (fun P Q => encode (P - Q)) p q

def basepointMultiple (s : Scalar) : Point :=
  encode (AffinePoint.multiple s.residue.val AffinePoint.basepoint)

/-! ## Maps to the subgroup of prime order -/

def ofFieldElement (r : FieldElement) (negative : Bool) : Point :=
  encode (Elligator.map r negative)

def fromUniform (b : Bytes 32) : Point :=
  let input := Elligator.ofUniform b
  ofFieldElement input.1 input.2

def fromHash (b : Bytes 64) : Point :=
  let input := Elligator.ofHash b
  ofFieldElement input.1 input.2

end Point

end Edwards25519
