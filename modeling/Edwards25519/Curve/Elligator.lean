import Edwards25519.Curve.Group

/-!
# The Elligator map

A field element `r` gives two candidates for the coordinate `u` of a point on
the Montgomery form `v ^ 2 = u ^ 3 + A u ^ 2 + u` of the curve: `-A / (1 + 2 r ^ 2)`
and `-A` minus it. The first one is taken unless it leads to no square. The
point of the curve with `y = (u - 1) / (u + 1)` and an `x` of a given sign is
then multiplied by eight.
-/

namespace Edwards25519
namespace Elligator

open FieldElement

def candidate (r : FieldElement) : FieldElement :=
  -(montgomeryA / (r.square + r.square + 1))

def montgomeryForm (u : FieldElement) : FieldElement :=
  u.square * u + u + u.square * montgomeryA

/-- The candidate at which the Montgomery form has a square. -/
def montgomeryU (r : FieldElement) : FieldElement :=
  let u := candidate r
  if (montgomeryForm u).character = -1 then
    -u - montgomeryA
  else
    u

def edwardsY (u : FieldElement) : FieldElement :=
  (u - 1) / (u + 1)

/-- The point of the curve before its small-order component is cleared. -/
def rawPoint (r : FieldElement) (negative : Bool) : AffinePoint :=
  (AffinePoint.ofY? (edwardsY (montgomeryU r)) negative).getD AffinePoint.identity

def map (r : FieldElement) (negative : Bool) : AffinePoint :=
  (rawPoint r negative).clearCofactor

/-! ## Bytes -/

def ofUniform (b : Bytes 32) : FieldElement × Bool :=
  (ofBytes b, b.topBit)

/-- The correction `19` for bit 255 of a 32-byte string, since `2 ^ 255 = 19`. -/
def topBitCorrection (b : Bytes 32) : FieldElement :=
  if b.topBit then Residue.ofNat 19 else 0

/--
The field element and the sign held by 64 bytes in big-endian order. The two
halves are folded by `2 ^ 256 = 38`, and the topmost bit is the sign.
-/
def ofHash (b : Bytes 64) : FieldElement × Bool :=
  let digits : Bytes (32 + 32) := b.reverse
  let low := digits.low
  let high := digits.high
  (ofBytes low + topBitCorrection low + Residue.ofNat 38 * ofBytes high, high.topBit)

end Elligator
end Edwards25519
