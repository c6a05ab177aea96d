import Edwards25519.FieldElement

/-!
# Points of the curve

The curve is the set of solutions of `-x ^ 2 + y ^ 2 = 1 + d x ^ 2 y ^ 2`. The
coefficient `d` is not a square, so the denominators of the addition law vanish
for no two points of the curve and the law needs no cases. A pair of
coordinates carries no proof that it solves the equation; `OnCurve` says so.
-/

namespace Edwards25519

structure AffinePoint where
  x : FieldElement
  y : FieldElement
deriving DecidableEq

namespace AffinePoint

open FieldElement

def OnCurve (P : AffinePoint) : Prop :=
  P.y.square - P.x.square = 1 + d * P.x.square * P.y.square

instance (P : AffinePoint) : Decidable (OnCurve P) :=
  inferInstanceAs (Decidable (_ = _))

def identity : AffinePoint where
  x := 0
  y := 1

instance : Inhabited AffinePoint := ⟨identity⟩

/-- The generator of the subgroup of prime order, with `y = 4 / 5` and `x` even. -/
def basepoint : AffinePoint where
  x := Residue.ofNat
    15112221349535400772501151409588531511454012693041857206046113283949847762202
  y := Residue.ofNat
    46316835694926478169428394003475163141307993866256225615783033603165251855960

def add (P Q : AffinePoint) : AffinePoint :=
  let t := d * P.x * Q.x * P.y * Q.y
  { x := (P.x * Q.y + P.y * Q.x) / (1 + t)
    y := (P.y * Q.y + P.x * Q.x) / (1 - t) }

def negate (P : AffinePoint) : AffinePoint where
  x := -P.x
  y := P.y

instance : Add AffinePoint := ⟨add⟩

instance : Neg AffinePoint := ⟨negate⟩

instance : Sub AffinePoint := ⟨fun P Q => P + -Q⟩

/-!
## Compressed points

A point is written as its `y` in the low 255 bits of 32 bytes and the parity of
its `x` in the top bit. Writing is canonical. Reading is lax: it takes values of
`y` that reach past the prime, and it takes a set top bit when `x` is zero.
-/

def ofY? (y : FieldElement) (negative : Bool) : Option AffinePoint :=
  let square := y.square
  let ratio := sqrtRatio (square - 1) (d * square + 1)
  if ratio.isSquare then
    some { x := negateIf negative ratio.root, y := y }
  else
    none

def decode? (b : Bytes 32) : Option AffinePoint :=
  ofY? (FieldElement.ofBytes b) b.topBit

def encode (P : AffinePoint) : Bytes 32 :=
  Bytes.ofNat 32 (P.y.val + if P.x.isNegative then Nat.pow 2 255 else 0)

end AffinePoint

/-!
## Extended coordinates and multiples of a point

Four coordinates `X, Y, Z, T` with `T Z = X Y` stand for the point `X / Z, Y / Z`.
Sums in these coordinates need no division, so a multiple of a point is computed
in them and brought back to a pair of coordinates at the end.
-/

/-- Coordinates of the point `x / z, y / z`, with `t` the product of `x` and `y` over `z`. -/
structure ExtendedPoint where
  x : FieldElement
  y : FieldElement
  z : FieldElement
  t : FieldElement
deriving DecidableEq

namespace ExtendedPoint

open FieldElement

def identity : ExtendedPoint where
  x := 0
  y := 1
  z := 1
  t := 0

def add (P Q : ExtendedPoint) : ExtendedPoint :=
  let a := (P.y - P.x) * (Q.y - Q.x)
  let b := (P.y + P.x) * (Q.y + Q.x)
  let c := (d + d) * P.t * Q.t
  let e := P.z * Q.z
  let zz := e + e
  { x := (b - a) * (zz - c)
    y := (zz + c) * (b + a)
    z := (zz - c) * (zz + c)
    t := (b - a) * (b + a) }

def ofAffine (P : AffinePoint) : ExtendedPoint where
  x := P.x
  y := P.y
  z := 1
  t := P.x * P.y

def toAffine (P : ExtendedPoint) : AffinePoint :=
  let w := P.z.inverse
  { x := P.x * w
    y := P.y * w }

end ExtendedPoint

namespace AffinePoint

def multiple (n : Nat) (P : AffinePoint) : AffinePoint :=
  (binaryPower ExtendedPoint.add ExtendedPoint.identity
    (ExtendedPoint.ofAffine P) n).toAffine

def clearCofactor (P : AffinePoint) : AffinePoint :=
  multiple 8 P

end AffinePoint

/-!
## The subgroup of prime order

The curve has `8 L` points for a prime `L` near `2 ^ 252`. The points that `L`
times gives the identity form the subgroup in which the group is used.
-/

/-- The prime `L` that is the order of the basepoint. -/
def groupOrder : Nat :=
  Nat.pow 2 252 + 27742317777372353535851937790883648493

instance : Modulus groupOrder := ⟨by decide⟩

namespace AffinePoint

def isTorsionFree (P : AffinePoint) : Bool :=
  decide (multiple groupOrder P = identity)

end AffinePoint

end Edwards25519
