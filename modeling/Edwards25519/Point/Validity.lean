import Edwards25519.Point

/-!
# Points of small order and valid points

Eight points of the curve have an order that divides eight. Their `y` are zero,
one, minus one and two more values, and zero and one have a second spelling
from the prime upwards. A string is checked against this list without decoding
it, and without regard to its sign bit.
-/

namespace Edwards25519
namespace Point

/-- The smaller of the two values of `y` at points of order eight. -/
def orderEightLow : Nat :=
  2707385501144840649318225287225658788936804267575313519463743609750303402022

def orderEightHigh : Nat :=
  55188659117513257062467267217118295137698188065244968500265048394206261417927

/-- Every way to write the `y` of a point of small order in 255 bits. -/
def smallOrderLowBits : List Nat :=
  [0, 1, orderEightLow, orderEightHigh, fieldPrime - 1, fieldPrime, fieldPrime + 1]

def isSmallOrder (p : Point) : Bool :=
  smallOrderLowBits.contains (FieldElement.lowBits p.bytes)

def ofLowBits (y : Nat) (sign : Bool) : Point where
  bytes := Bytes.ofNat 32 (y + if sign then Nat.pow 2 255 else 0)

/--
The canonical strings of the eight points of small order: the identity, the
point of order two, those of order four and those of order eight.
-/
def smallOrderEncodings : List Point :=
  [ofLowBits 1 false, ofLowBits (fieldPrime - 1) false,
    ofLowBits 0 false, ofLowBits 0 true,
    ofLowBits orderEightLow false, ofLowBits orderEightLow true,
    ofLowBits orderEightHigh false, ofLowBits orderEightHigh true]

/-!
## Valid points

A string is a valid point if it is the canonical encoding of a point of the
subgroup of prime order other than the identity. The checks run from the
cheapest to the dearest and stop at the first failure.
-/

def hasCanonicalY (p : Point) : Bool :=
  decide (FieldElement.lowBits p.bytes < fieldPrime)

def isInSubgroup (p : Point) : Bool :=
  p.decode?.any AffinePoint.isTorsionFree

def isValid (p : Point) : Bool :=
  p.hasCanonicalY && !p.isSmallOrder && p.isInSubgroup

end Point
end Edwards25519
