import Edwards25519.Bytes

/-!
# The SHA-2 hash functions

SHA-256 and SHA-512 are one algorithm at two word sizes. A message is padded to
whole blocks of sixteen words. Each block is stretched to a schedule with one
word for each round, and the rounds stir the schedule into eight registers,
whose words are the digest in the end. Words are read and written most
significant byte first.
-/

namespace Edwards25519
namespace Sha2

/-! ## Words and registers -/

structure Registers (width : Nat) where
  a : BitVec width
  b : BitVec width
  c : BitVec width
  d : BitVec width
  e : BitVec width
  f : BitVec width
  g : BitVec width
  h : BitVec width
deriving DecidableEq

structure Distances where
  first : Nat
  second : Nat
  third : Nat

def Distances.rotate {width : Nat} (m : Distances) (x : BitVec width) : BitVec width :=
  x.rotateRight m.first ^^^ x.rotateRight m.second ^^^ x.rotateRight m.third

def Distances.shift {width : Nat} (m : Distances) (x : BitVec width) : BitVec width :=
  x.rotateRight m.first ^^^ x.rotateRight m.second ^^^ (x >>> m.third)

/-- Each bit of the first word picks a bit of the second or the third. -/
def choose {width : Nat} (x y z : BitVec width) : BitVec width :=
  (x &&& y) ^^^ (~~~x &&& z)

def majority {width : Nat} (x y z : BitVec width) : BitVec width :=
  (x &&& y) ^^^ (x &&& z) ^^^ (y &&& z)

def Registers.add {width : Nat} (r s : Registers width) : Registers width where
  a := r.a + s.a
  b := r.b + s.b
  c := r.c + s.c
  d := r.d + s.d
  e := r.e + s.e
  f := r.f + s.f
  g := r.g + s.g
  h := r.h + s.h

def Registers.toList {width : Nat} (r : Registers width) : List (BitVec width) :=
  [r.a, r.b, r.c, r.d, r.e, r.f, r.g, r.h]

/-! ## The two variants -/

structure Variant where
  /-- The number of bytes in a word. -/
  wordBytes : Nat
  /-- The registers before the first block. -/
  start : Registers (8 * wordBytes)
  /-- One constant for each round. -/
  roundConstants : List (BitVec (8 * wordBytes))
  /-- How a round mixes its first register. -/
  mixA : Distances
  /-- How a round mixes its fifth register. -/
  mixE : Distances
  /-- How the schedule mixes the word fifteen places back. -/
  mixFar : Distances
  /-- How the schedule mixes the word two places back. -/
  mixNear : Distances

def sha256Variant : Variant where
  wordBytes := 4
  start :=
    { a := 0x6a09e667
      b := 0xbb67ae85
      c := 0x3c6ef372
      d := 0xa54ff53a
      e := 0x510e527f
      f := 0x9b05688c
      g := 0x1f83d9ab
      h := 0x5be0cd19 }
  roundConstants :=
    [0x428a2f98, 0x71374491, 0xb5c0fbcf, 0xe9b5dba5, 0x3956c25b, 0x59f111f1,
      0x923f82a4, 0xab1c5ed5, 0xd807aa98, 0x12835b01, 0x243185be, 0x550c7dc3,
      0x72be5d74, 0x80deb1fe, 0x9bdc06a7, 0xc19bf174, 0xe49b69c1, 0xefbe4786,
      0x0fc19dc6, 0x240ca1cc, 0x2de92c6f, 0x4a7484aa, 0x5cb0a9dc, 0x76f988da,
      0x983e5152, 0xa831c66d, 0xb00327c8, 0xbf597fc7, 0xc6e00bf3, 0xd5a79147,
      0x06ca6351, 0x14292967, 0x27b70a85, 0x2e1b2138, 0x4d2c6dfc, 0x53380d13,
      0x650a7354, 0x766a0abb, 0x81c2c92e, 0x92722c85, 0xa2bfe8a1, 0xa81a664b,
      0xc24b8b70, 0xc76c51a3, 0xd192e819, 0xd6990624, 0xf40e3585, 0x106aa070,
      0x19a4c116, 0x1e376c08, 0x2748774c, 0x34b0bcb5, 0x391c0cb3, 0x4ed8aa4a,
      0x5b9cca4f, 0x682e6ff3, 0x748f82ee, 0x78a5636f, 0x84c87814, 0x8cc70208,
      0x90befffa, 0xa4506ceb, 0xbef9a3f7, 0xc67178f2]
  mixA := ⟨2, 13, 22⟩
  mixE := ⟨6, 11, 25⟩
  mixFar := ⟨7, 18, 3⟩
  mixNear := ⟨17, 19, 10⟩

def sha512Variant : Variant where
  wordBytes := 8
  start :=
    { a := 0x6a09e667f3bcc908
      b := 0xbb67ae8584caa73b
      c := 0x3c6ef372fe94f82b
      d := 0xa54ff53a5f1d36f1
      e := 0x510e527fade682d1
      f := 0x9b05688c2b3e6c1f
      g := 0x1f83d9abfb41bd6b
      h := 0x5be0cd19137e2179 }
  roundConstants :=
    [0x428a2f98d728ae22, 0x7137449123ef65cd, 0xb5c0fbcfec4d3b2f, 0xe9b5dba58189dbbc,
      0x3956c25bf348b538, 0x59f111f1b605d019, 0x923f82a4af194f9b, 0xab1c5ed5da6d8118,
      0xd807aa98a3030242, 0x12835b0145706fbe, 0x243185be4ee4b28c, 0x550c7dc3d5ffb4e2,
      0x72be5d74f27b896f, 0x80deb1fe3b1696b1, 0x9bdc06a725c71235, 0xc19bf174cf692694,
      0xe49b69c19ef14ad2, 0xefbe4786384f25e3, 0x0fc19dc68b8cd5b5, 0x240ca1cc77ac9c65,
      0x2de92c6f592b0275, 0x4a7484aa6ea6e483, 0x5cb0a9dcbd41fbd4, 0x76f988da831153b5,
      0x983e5152ee66dfab, 0xa831c66d2db43210, 0xb00327c898fb213f, 0xbf597fc7beef0ee4,
      0xc6e00bf33da88fc2, 0xd5a79147930aa725, 0x06ca6351e003826f, 0x142929670a0e6e70,
      0x27b70a8546d22ffc, 0x2e1b21385c26c926, 0x4d2c6dfc5ac42aed, 0x53380d139d95b3df,
      0x650a73548baf63de, 0x766a0abb3c77b2a8, 0x81c2c92e47edaee6, 0x92722c851482353b,
      0xa2bfe8a14cf10364, 0xa81a664bbc423001, 0xc24b8b70d0f89791, 0xc76c51a30654be30,
      0xd192e819d6ef5218, 0xd69906245565a910, 0xf40e35855771202a, 0x106aa07032bbd1b8,
      0x19a4c116b8d2d0c8, 0x1e376c085141ab53, 0x2748774cdf8eeb99, 0x34b0bcb5e19b48a8,
      0x391c0cb3c5c95a63, 0x4ed8aa4ae3418acb, 0x5b9cca4f7763e373, 0x682e6ff3d6b2b8a3,
      0x748f82ee5defb2fc, 0x78a5636f43172f60, 0x84c87814a1f0ab72, 0x8cc702081a6439ec,
      0x90befffa23631e28, 0xa4506cebde82bde9, 0xbef9a3f7b2c67915, 0xc67178f2e372532b,
      0xca273eceea26619c, 0xd186b8c721c0c207, 0xeada7dd6cde0eb1e, 0xf57d4f7fee6ed178,
      0x06f067aa72176fba, 0x0a637dc5a2c898a6, 0x113f9804bef90dae, 0x1b710b35131c471b,
      0x28db77f523047d84, 0x32caab7b40c72493, 0x3c9ebe0a15c9bebc, 0x431d67c49c100d4c,
      0x4cc5d4becb3e42b6, 0x597f299cfc657e2a, 0x5fcb6fab3ad6faec, 0x6c44198c4a475817]
  mixA := ⟨28, 34, 39⟩
  mixE := ⟨14, 18, 41⟩
  mixFar := ⟨1, 8, 7⟩
  mixNear := ⟨19, 61, 6⟩

namespace Variant

variable (v : Variant)

abbrev Word := BitVec (8 * v.wordBytes)

def blockBytes : Nat :=
  16 * v.wordBytes

/-! ## Messages as blocks of words -/

def wordOfBytes (l : List UInt8) : v.Word :=
  BitVec.ofNat _ (natOfDigits l.reverse)

def bytesOfWord (x : v.Word) : List UInt8 :=
  (digitsOfNat v.wordBytes x.toNat).reverse

/--
Fills a message up to whole blocks: a byte with the top bit set, zero bytes, and
the length in bits as a number of two words.
-/
def pad (msg : List UInt8) : List UInt8 :=
  let used := (msg.length + 1 + 2 * v.wordBytes) % v.blockBytes
  msg ++ 0x80 :: List.replicate ((v.blockBytes - used) % v.blockBytes) 0 ++
    (digitsOfNat (2 * v.wordBytes) (8 * msg.length)).reverse

def pieces {α : Type} (size : Nat) : Nat -> List α -> List (List α)
  | 0, _ => []
  | count + 1, l => l.take size :: pieces size count (l.drop size)

def words (block : List UInt8) : List v.Word :=
  (pieces v.wordBytes 16 block).map v.wordOfBytes

/-! ## Rounds -/

/-- The next word of a schedule whose words are listed from last to first. -/
def nextWord (latest : List v.Word) : v.Word :=
  v.mixNear.shift (latest.getD 1 0) + latest.getD 6 0 +
    v.mixFar.shift (latest.getD 14 0) + latest.getD 15 0

def extendSchedule : Nat -> List v.Word -> List v.Word
  | 0, latest => latest
  | count + 1, latest => extendSchedule count (v.nextWord latest :: latest)

/-- The words of a block followed by those computed from them, one for each round. -/
def schedule (block : List v.Word) : List v.Word :=
  (v.extendSchedule (v.roundConstants.length - 16) block.reverse).reverse

def round (r : Registers (8 * v.wordBytes)) (input : v.Word) :
    Registers (8 * v.wordBytes) :=
  let t1 := r.h + v.mixE.rotate r.e + choose r.e r.f r.g + input
  let t2 := v.mixA.rotate r.a + majority r.a r.b r.c
  { a := t1 + t2
    b := r.a
    c := r.b
    d := r.c
    e := r.d + t1
    f := r.e
    g := r.f
    h := r.g }

def compress (r : Registers (8 * v.wordBytes)) (block : List UInt8) :
    Registers (8 * v.wordBytes) :=
  let inputs := List.zipWith (· + ·) v.roundConstants (v.schedule (v.words block))
  r.add (inputs.foldl v.round r)

/-! ## Digests -/

def finalRegisters (msg : List UInt8) : Registers (8 * v.wordBytes) :=
  let padded := v.pad msg
  (pieces v.blockBytes (padded.length / v.blockBytes) padded).foldl v.compress v.start

@[irreducible] def hash (msg : List UInt8) : Bytes (8 * v.wordBytes) where
  toList := (v.finalRegisters msg).toList.flatMap v.bytesOfWord
  length_toList := by
    simp [Registers.toList, bytesOfWord, length_digitsOfNat]
    omega

end Variant

end Sha2

def sha256 (msg : List UInt8) : Bytes 32 :=
  Sha2.sha256Variant.hash msg

def sha512 (msg : List UInt8) : Bytes 64 :=
  Sha2.sha512Variant.hash msg

end Edwards25519
