import Edwards25519.Hash.Expansion
import Edwards25519.Ristretto.Element
import Edwards25519.Scalar

/-!
# Hashing to the ristretto group

The expansion of a message under a context is mapped to an element or reduced to a
scalar. One map is uniform in the group already, so the random oracle variant is the
same function.
-/

namespace Edwards25519

/-!
## Expanding a message under a context

A message is expanded with SHA-256 under a context of any length. A context that does
not fit in 255 bytes is replaced by its own digest. The output is written chunk by
chunk from one block that is used over again: the block is mixed with the root and
hashed together with the number of the chunk and the label, and the beginning of the
digest fills the chunk, which is shorter than a block where the output ends.
-/

namespace Ristretto

/-! ## Labels -/

/-- The bytes hashed before a context that is too long to be used as it is. -/
def oversizeMarker : List UInt8 :=
  "H2C-OVERSIZE-DST-".toUTF8.toList

def effectiveTag (ctx : List UInt8) : List UInt8 :=
  if 255 < ctx.length then
    (sha256 (oversizeMarker ++ ctx)).toList
  else
    ctx

def label (ctx : List UInt8) : List UInt8 :=
  let tag := effectiveTag ctx
  tag ++ [UInt8.ofNat tag.length]

/-! ## Writing the output -/

structure Expansion (length : Nat) where
  label : List UInt8
  /-- The digest that stands for the message. -/
  root : Bytes 32
  /-- The block of the chunk before, or zeros. -/
  block : Bytes 32
  /-- The number of chunks written. -/
  done : Nat
  out : Bytes length
deriving DecidableEq

namespace Expansion

variable {length : Nat}

def start (length : Nat) (ctx msg : List UInt8) : Expansion length where
  label := Ristretto.label ctx
  root := MessageHash.sha256.root (Ristretto.label ctx) msg length
  block := Bytes.zero 32
  done := 0
  out := Bytes.zero length

def input (e : Expansion length) : List UInt8 :=
  (e.block.xor e.root).toList ++ UInt8.ofNat (e.done + 1) :: e.label

def chunkLength (e : Expansion length) : Nat :=
  min 32 (length - 32 * e.done)

def next? (e : Expansion length) : Option (Expansion length) :=
  if 32 * e.done < length then
    let block := sha256 e.input
    let chunk := Bytes.fill e.chunkLength block.toList
    some { e with
      block := block
      done := e.done + 1
      out := e.out.overwrite (32 * e.done) chunk }
  else
    none

theorem next?_eq_some_iff {e f : Expansion length} :
    e.next? = some f <->
      32 * e.done < length ∧
        f = { e with
          block := sha256 e.input
          done := e.done + 1
          out := e.out.overwrite (32 * e.done)
            (Bytes.fill e.chunkLength (sha256 e.input).toList) } := by
  unfold next?
  split
  · rename_i h
    rw [Option.some_inj, eq_comm]
    exact (and_iff_right h).symm
  · rename_i h
    constructor
    · intro hnone
      cases hnone
    · intro hsome
      exact absurd hsome.1 h

theorem next?_eq_none_iff {e : Expansion length} :
    e.next? = none <-> length <= 32 * e.done := by
  unfold next?
  split
  · simp
    omega
  · simp
    omega

theorem done_of_next? {e f : Expansion length} (h : e.next? = some f) :
    32 * e.done < length ∧ f.done = e.done + 1 := by
  rcases next?_eq_some_iff.mp h with ⟨hlt, rfl⟩
  exact ⟨hlt, rfl⟩

def finish (e : Expansion length) : Bytes length :=
  match _ : e.next? with
  | none => e.out
  | some f => f.finish
termination_by length - 32 * e.done
decreasing_by
  rename_i h
  have hdone := done_of_next? h
  omega

end Expansion

def expandMessage (length : Nat) (ctx msg : List UInt8) : Bytes length :=
  (Expansion.start length ctx msg).finish

/-! ## Elements and scalars -/

def hashToElement (ctx msg : List UInt8) : Element :=
  Element.fromHash (expandMessage 64 ctx msg)

def hashToElementRO (ctx msg : List UInt8) : Element :=
  hashToElement ctx msg

/-- The scalar of a number of 48 bytes in big-endian order. -/
def scalarOfSeed (b : Bytes 48) : Scalar :=
  let wide : WideScalar := { bytes := Bytes.append b.reverse (Bytes.zero 16) }
  wide.reduce

def hashToScalar (ctx msg : List UInt8) : Scalar :=
  scalarOfSeed (expandMessage 48 ctx msg)

end Ristretto

end Edwards25519
