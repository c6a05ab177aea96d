import Edwards25519.Hash.Sha2

/-!
# Expanding a message

A message is expanded to any number of digests that are bound to a label. The
root is the digest of the padded message, the requested length and the label.
Each block is the digest of the root mixed with the block before it, a counter
and the label. The first block counts the zero string as its predecessor.
-/

namespace Edwards25519

structure MessageHash (digestBytes : Nat) where
  blockBytes : Nat
  hash : List UInt8 -> Bytes digestBytes

def MessageHash.sha256 : MessageHash 32 where
  blockBytes := 64
  hash := Edwards25519.sha256

def MessageHash.sha512 : MessageHash 64 where
  blockBytes := 128
  hash := Edwards25519.sha512

namespace MessageHash

variable {n : Nat} (H : MessageHash n)

def rootInput (label msg : List UInt8) (length : Nat) : List UInt8 :=
  List.replicate H.blockBytes 0 ++ msg ++ (Bytes.ofNatBE 2 length).toList ++ 0 :: label

def root (label msg : List UInt8) (length : Nat) : Bytes n :=
  H.hash (H.rootInput label msg length)

def blockInput (label : List UInt8) (root previous : Bytes n) (counter : UInt8) :
    List UInt8 :=
  (root.xor previous).toList ++ counter :: label

/-- The blocks after a given number of blocks, of which the last is known. -/
def blocksAfter (label : List UInt8) (root : Bytes n) :
    Nat -> UInt8 -> Bytes n -> List (Bytes n)
  | 0, _, _ => []
  | count + 1, done, previous =>
      let counter := done + 1
      let block := H.hash (blockInput label root previous counter)
      block :: blocksAfter label root count counter block

end MessageHash

end Edwards25519
