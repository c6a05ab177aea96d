import Edwards25519.Error
import Edwards25519.Hash.Expansion
import Edwards25519.Point

/-!
# Expanders

An expander hands out the blocks of an expansion one after the other. They all end
in one label: the suite tag and the context after a byte with their joint length, so
both have to fit in 255 bytes. The first block is the digest of the root, a counter
and the label. For the others the root is mixed with the block before.
-/

namespace Edwards25519

/-!
## Field seeds

A field seed is a number of 48 bytes in big-endian order. It is wide enough for
its residue modulo the prime of the field to be close to uniform.
-/

structure FieldSeed where
  bytes : Bytes 48
deriving DecidableEq

namespace FieldSeed

def size : Nat := 48

/-- The seed with zero bytes before it, which keeps its big-endian value. -/
def widen (seed : FieldSeed) : Bytes 64 :=
  Bytes.append (Bytes.zero 16) seed.bytes

def toPoint (seed : FieldSeed) : Point :=
  Point.fromHash seed.widen

/-- The text of a seed does not show its bytes. -/
instance : ToString FieldSeed := ⟨fun _ => "FieldSeed(..)"⟩

end FieldSeed

/-! ## Blocks one after the other -/

def maxSeeds : Nat := 2

def maxTagLength : Nat := 255

structure Expander where
  suite : List UInt8
  ctx : List UInt8
  /-- The joint length of the suite tag and the context. -/
  tagLength : UInt8
  /-- The digest that stands for the message. -/
  root : Bytes 64
  /-- The block that was handed out last, or zeros. -/
  previous : Bytes 64
  /-- The number of blocks handed out. -/
  counter : UInt8
  /-- The number of blocks to come. -/
  remaining : Nat
deriving DecidableEq

namespace Expander

/-! ## Before the first block -/

/-- Refuses requests that the format has no room for, the number of seeds first. -/
def checkRequest (num : Nat) (suite ctx : List UInt8) : Except Error Unit :=
  if maxSeeds < num then
    .error (.unsupportedSeedCount num)
  else if maxTagLength < suite.length then
    .error (.suiteTooLong suite.length)
  else if maxTagLength - suite.length < ctx.length then
    .error (.contextTooLong ctx.length (maxTagLength - suite.length))
  else
    .ok ()

def ofRequest (num : Nat) (suite ctx msg : List UInt8) : Expander :=
  let tagLength := UInt8.ofNat (suite.length + ctx.length)
  let label := tagLength :: (suite ++ ctx)
  { suite := suite
    ctx := ctx
    tagLength := tagLength
    root := MessageHash.sha512.root label msg (FieldSeed.size * num)
    previous := Bytes.zero 64
    counter := 0
    remaining := num }

def start (num : Nat) (suite ctx msg : List UInt8) : Except Error Expander :=
  (checkRequest num suite ctx).map fun _ => ofRequest num suite ctx msg

/-! ## One block after the other -/

def label (e : Expander) : List UInt8 :=
  e.tagLength :: (e.suite ++ e.ctx)

def chained (e : Expander) : Bytes 64 :=
  if e.counter = 0 then e.root else e.root.xor e.previous

def input (e : Expander) : List UInt8 :=
  e.chained.toList ++ (e.counter + 1) :: e.label

def next? (e : Expander) : Option (Bytes 64 × Expander) :=
  match e.remaining with
  | 0 => none
  | rest + 1 =>
      let block := MessageHash.sha512.hash e.input
      some (block, { e with previous := block, counter := e.counter + 1, remaining := rest })

theorem next?_eq_some_iff {e f : Expander} {block : Bytes 64} :
    e.next? = some (block, f) <->
      exists rest, e.remaining = rest + 1 ∧ block = MessageHash.sha512.hash e.input ∧
        f = { e with previous := block, counter := e.counter + 1, remaining := rest } := by
  unfold next?
  cases e.remaining with
  | zero => simp
  | succ rest =>
      constructor
      · intro h
        cases h
        exact ⟨rest, rfl, rfl, rfl⟩
      · intro h
        cases h with
        | intro rest' h =>
            cases h.1
            rw [h.2.2, h.2.1]

theorem remaining_of_next? {e f : Expander} {block : Bytes 64} (h : e.next? = some (block, f)) :
    e.remaining = f.remaining + 1 := by
  cases next?_eq_some_iff.mp h with
  | intro rest h => rw [h.1, h.2.2]

def blocks (e : Expander) : List (Bytes 64) :=
  match _ : e.next? with
  | none => []
  | some (block, rest) => block :: rest.blocks
termination_by e.remaining
decreasing_by
  rename_i h
  have hremaining := remaining_of_next? h
  omega

/-- Writes blocks to a buffer, each to the place that its number gives it. -/
def writeBlocks (stream : Bytes 128) (i : Nat) : List (Bytes 64) -> Bytes 128
  | [] => stream
  | block :: rest => writeBlocks (stream.overwrite (64 * i) block) (i + 1) rest

def stream (e : Expander) : Bytes 128 :=
  writeBlocks (Bytes.zero 128) 0 e.blocks

end Expander

/-!
## Expanding a message to field seeds

The blocks of an expander are joined and cut into seeds of 48 bytes, of which as
many are kept as were asked for.
-/

namespace FieldSeed

def ofStream (stream : Bytes 128) (i : Nat) : FieldSeed where
  bytes := Bytes.fill 48 (stream.toList.drop (size * i))

def seedsOfStream (stream : Bytes 128) : List FieldSeed :=
  (List.range (128 / size)).map (ofStream stream)

/-- Expands a message to seeds that are bound to the suite tag and the context. -/
def expand (num : Nat) (suite ctx msg : List UInt8) : Except Error (List FieldSeed) :=
  (Expander.start num suite ctx msg).map fun e => (seedsOfStream e.stream).take num

end FieldSeed

end Edwards25519
