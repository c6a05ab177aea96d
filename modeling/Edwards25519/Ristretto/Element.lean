import Edwards25519.ByteStream
import Edwards25519.Curve.Group
import Edwards25519.Error
import Edwards25519.FieldElement

/-!
# Elements of the ristretto group

An element travels as 32 bytes, of which only the strings that decode are valid.
The group has prime order, and equal elements have equal strings.
-/

namespace Edwards25519

/-!
## Ristretto encodings

An element of the ristretto group is a class of points of the curve that differ
by points of order dividing four. Every class has one string: the field element
`s` in canonical bytes that is not negative and that the encoder computes from
any point of the class. The decoder takes exactly those strings.
-/

namespace Ristretto

open FieldElement

/-- An inverse square root of `-1 - d`. -/
def invSqrtAMinusD : FieldElement :=
  Residue.ofNat
    54469307008909316920995813868745141605393597292927456921205312896311721017578

/-! ## Decoding -/

def isCanonical (b : Bytes 32) : Bool :=
  decide (b.toNat < fieldPrime) && b.toNat % 2 == 0

def ofFieldElement? (s : FieldElement) : Option AffinePoint :=
  let square := s.square
  let u1 := 1 - square
  let u2 := 1 + square
  let u2Square := u2.square
  let v := -(d * u1.square) - u2Square
  let ratio := inverseSqrt (v * u2Square)
  let dx := ratio.root * u2
  let dy := ratio.root * dx * v
  let x := ((s + s) * dx).abs
  let y := u1 * dy
  let t := x * y
  if ratio.isSquare && !t.isNegative && decide (y ≠ 0) then
    some { x := x, y := y }
  else
    none

def decode? (b : Bytes 32) : Option AffinePoint :=
  if isCanonical b then ofFieldElement? (ofBytes b) else none

/-! ## Encoding -/

def toFieldElement (P : AffinePoint) : FieldElement :=
  let t := P.x * P.y
  let u1 := (1 + P.y) * (1 - P.y)
  let root := (inverseSqrt (u1 * t.square)).root
  let i1 := root * u1
  let i2 := root * t
  let zInverse := i1 * (i2 * t)
  let rotate := (t * zInverse).isNegative
  let x := if rotate then P.y * sqrtMinusOne else P.x
  let y := if rotate then P.x * sqrtMinusOne else P.y
  let denominator := if rotate then i1 * invSqrtAMinusD else i2
  let turned := negateIf (x * zInverse).isNegative y
  (denominator * (1 - turned)).abs

def encode (P : AffinePoint) : Bytes 32 :=
  (toFieldElement P).toBytes

/-!
## The one-way map

A field element is mapped to a point of the curve by the Elligator map for the
Jacobi quartic of the ristretto group. It does not matter which of an element
and its negation is mapped.
-/

/-- A square root of `-d - 1`. -/
def sqrtADMinusOne : FieldElement :=
  Residue.ofNat
    25063068953384623474111414158702152701244531502492656460079210482610430750235

/-- A point of the Jacobi quartic, with the denominator and the factor of its branch. -/
structure QuarticPoint where
  s : FieldElement
  c : FieldElement
  r : FieldElement
  denominator : FieldElement

def quarticPoint (r0 : FieldElement) : QuarticPoint :=
  let r := sqrtMinusOne * r0.square
  let numerator := (r + 1) * (1 - d.square)
  let denominator := (-1 - d * r) * (r + d)
  let ratio := sqrtRatio numerator denominator
  { s := if ratio.isSquare then ratio.root else -(ratio.root * r0).abs
    c := if ratio.isSquare then -1 else r
    r := r
    denominator := denominator }

def QuarticPoint.toAffine (q : QuarticPoint) : AffinePoint :=
  let square := q.s.square
  let numerator := q.c * (q.r - 1) * (d - 1).square - q.denominator
  { x := (q.s + q.s) * q.denominator / (numerator * sqrtADMinusOne)
    y := (1 - square) / (1 + square) }

def oneWayMap (r0 : FieldElement) : AffinePoint :=
  (quarticPoint r0).toAffine

/-! ## Elements as strings -/

/-- The string of an element, or any other 32 bytes in its place. -/
structure Element where
  bytes : Bytes 32
deriving DecidableEq

namespace Element

def hashSize : Nat := 64

def decode? (p : Element) : Option AffinePoint :=
  Ristretto.decode? p.bytes

def encode (P : AffinePoint) : Element where
  bytes := Ristretto.encode P

def identity : Element where
  bytes := Bytes.zero 32

def basepoint : Element :=
  encode AffinePoint.basepoint

def isValid (p : Element) : Bool :=
  p.decode?.isSome

/-! ## Group operations -/

def add (p q : Element) : Except Error Element :=
  onDecoded decode? (fun P Q => encode (P + Q)) p q

def sub (p q : Element) : Except Error Element :=
  onDecoded decode? (fun P Q => encode (P - Q)) p q

/-! ## Elements from uniform bytes -/

def pointOfHalf (b : Bytes 32) : AffinePoint :=
  oneWayMap (FieldElement.ofBytes b)

/-- Maps a hash of 64 bytes to the sum of the images of its halves. -/
def fromHash (b : Bytes 64) : Element :=
  let halves : Bytes (32 + 32) := b
  encode (pointOfHalf halves.low + pointOfHalf halves.high)

def sample (s : ByteStream) : Element × Nat :=
  (fromHash (s.draw 64), 64)

end Element
end Ristretto

end Edwards25519
