import Edwards25519.Arithmetic.Residue
import Edwards25519.Bytes

/-!
# The field of the curve

Coordinates are residues modulo the prime `2 ^ 255 - 19`. A 32-byte string
stands for the residue of its low 255 bits; the top bit is left to the caller,
and values from the prime up to `2 ^ 255` wrap around. Inverses and the
quadratic character are powers with fixed exponents, so both send zero to zero.
-/

namespace Edwards25519

def fieldPrime : Nat :=
  Nat.pow 2 255 - 19

instance : Modulus fieldPrime := ⟨by decide⟩

abbrev FieldElement := Residue fieldPrime

namespace FieldElement

/-! ## Constants -/

/-- The coefficient `d = -121665 / 121666` of the curve. -/
def d : FieldElement :=
  Residue.ofNat
    37095705934669439343138083508754565189542113879843219016388785533085940283555

def montgomeryA : FieldElement :=
  Residue.ofNat 486662

/-- The even square root of `-1`. -/
def sqrtMinusOne : FieldElement :=
  Residue.ofNat
    19681161376707505956807079304988542015446066515923890162744021073123829784752

/-! ## Bytes -/

def lowBits (b : Bytes 32) : Nat :=
  b.toNat % Nat.pow 2 255

/-- The number written by the bits below bit 254, which is below the prime. -/
def lowPart (b : Bytes 32) : FieldElement where
  val := b.toNat % Nat.pow 2 254
  val_lt := Nat.lt_trans (Nat.mod_lt _ (by decide)) (by decide)

def highPart (b : Bytes 32) : FieldElement :=
  if b.toNat.testBit 254 then { val := Nat.pow 2 254, val_lt := by decide } else 0

/--
Reads a field element from the low 255 bits, which may reach past the prime. The
two parts are residues as they stand, so only their sum has to be reduced.
-/
def ofBytes (b : Bytes 32) : FieldElement :=
  lowPart b + highPart b

def toBytes (a : FieldElement) : Bytes 32 :=
  Bytes.ofNat 32 a.val

/-! ## Inverses, squares and signs -/

def inverse (a : FieldElement) : FieldElement :=
  a.power (fieldPrime - 2)

instance : Div FieldElement := ⟨fun a b => a * inverse b⟩

/-- Zero for zero, one for the other squares and minus one for the rest. -/
def character (a : FieldElement) : FieldElement :=
  a.power ((fieldPrime - 1) / 2)

def isNegative (a : FieldElement) : Bool :=
  a.val % 2 == 1

def negateIf (condition : Bool) (a : FieldElement) : FieldElement :=
  if condition then -a else a

def abs (a : FieldElement) : FieldElement :=
  negateIf a.isNegative a

/-!
## Square roots of ratios

The prime is five modulo eight, so a power of a square `a` is a square root of
`a` or of `-a`, and in the second case a factor `sqrtMinusOne` repairs it. The
power is taken of a ratio `u / v` without inverting `v`.
-/

structure RatioRoot where
  /-- The ratio is a square and the denominator is not zero, or the numerator is zero. -/
  isSquare : Bool
  /-- A root that is not negative, of the ratio or else of `sqrtMinusOne` times it. -/
  root : FieldElement
deriving DecidableEq

/-- The first guess `u v ^ 3 (u v ^ 7) ^ ((p - 5) / 8)` at a root of `u / v`. -/
def rootCandidate (u v : FieldElement) : FieldElement :=
  let v3 := v.square * v
  let v7 := v3.square * v
  u * v3 * (u * v7).power ((fieldPrime - 5) / 8)

/--
A root of `u / v` that is not negative. If the ratio is no square the root is
one of `sqrtMinusOne * u / v`, and a zero denominator gives the root zero.
-/
def sqrtRatio (u v : FieldElement) : RatioRoot :=
  let r := rootCandidate u v
  let check := v * r.square
  let correct := decide (check = u)
  let flipped := decide (check = -u)
  let flippedTwist := decide (check = -u * sqrtMinusOne)
  let turned := if flipped || flippedTwist then sqrtMinusOne * r else r
  { isSquare := correct || flipped
    root := turned.abs }

def inverseSqrt (v : FieldElement) : RatioRoot :=
  sqrtRatio 1 v

end FieldElement

end Edwards25519
