/-!
# Byte strings

Messages, contexts and tags are lists of bytes. Keys, points and digests have a
length fixed by their format and are values of `Bytes n`, a list together with
the proof that it has `n` entries. A fixed-length string is read as a number in
little-endian order unless the name says otherwise, and reading and writing
numbers below `256 ^ n` are inverse to each other.
-/

namespace Edwards25519

/-! ## Numbers and lists of bytes -/

/-- The number written in base 256 by a list of digits, least significant first. -/
def natOfDigits : List UInt8 -> Nat
  | [] => 0
  | b :: rest => b.toNat + 256 * natOfDigits rest

def digitsOfNat : Nat -> Nat -> List UInt8
  | 0, _ => []
  | n + 1, v => UInt8.ofNat v :: digitsOfNat n (v / 256)

theorem length_digitsOfNat (n v : Nat) :
    (digitsOfNat n v).length = n := by
  induction n generalizing v with
  | zero => rfl
  | succ n ih => simp [digitsOfNat, ih]

theorem digitsOfNat_natOfDigits (l : List UInt8) :
    digitsOfNat l.length (natOfDigits l) = l := by
  induction l with
  | nil => rfl
  | cons b rest ih =>
      have hb : b.toNat < 256 := b.toNat_lt
      have hlow : UInt8.ofNat (b.toNat + 256 * natOfDigits rest) = b := by
        apply UInt8.toNat_inj.mp
        rw [UInt8.toNat_ofNat']
        omega
      have hhigh : (b.toNat + 256 * natOfDigits rest) / 256 = natOfDigits rest := by
        omega
      simp only [natOfDigits, List.length_cons, digitsOfNat, hlow, hhigh, ih]

/-! ## Strings of a fixed length -/

structure Bytes (n : Nat) where
  toList : List UInt8
  length_toList : toList.length = n
deriving DecidableEq

namespace Bytes

theorem ext {n : Nat} {a b : Bytes n} (h : a.toList = b.toList) :
    a = b := by
  cases a
  cases b
  cases h
  rfl

def ofList? (n : Nat) (l : List UInt8) : Option (Bytes n) :=
  if h : l.length = n then some { toList := l, length_toList := h } else none

/-- The first `n` bytes of a list, filled up with zero bytes if it is too short. -/
def fill (n : Nat) (l : List UInt8) : Bytes n where
  toList := l.take n ++ List.replicate (n - l.length) 0
  length_toList := by
    simp
    omega

def zero (n : Nat) : Bytes n where
  toList := List.replicate n 0
  length_toList := List.length_replicate

def append {m n : Nat} (a : Bytes m) (b : Bytes n) : Bytes (m + n) where
  toList := a.toList ++ b.toList
  length_toList := by
    rw [List.length_append, a.length_toList, b.length_toList]

def reverse {n : Nat} (b : Bytes n) : Bytes n where
  toList := b.toList.reverse
  length_toList := by
    rw [List.length_reverse, b.length_toList]

def xor {n : Nat} (a b : Bytes n) : Bytes n where
  toList := List.zipWith (· ^^^ ·) a.toList b.toList
  length_toList := by
    rw [List.length_zipWith, a.length_toList, b.length_toList, Nat.min_self]

def low {m n : Nat} (b : Bytes (m + n)) : Bytes m where
  toList := b.toList.take m
  length_toList := by
    rw [List.length_take, b.length_toList]
    omega

def high {m n : Nat} (b : Bytes (m + n)) : Bytes n where
  toList := b.toList.drop m
  length_toList := by
    rw [List.length_drop, b.length_toList]
    omega

/-- The string with the bytes from place `i` on replaced by those of another one. -/
def overwrite {m n : Nat} (b : Bytes n) (i : Nat) (piece : Bytes m) : Bytes n :=
  fill n (b.toList.take i ++ piece.toList ++ b.toList.drop (i + m))

/-! ## Strings as numbers -/

@[irreducible] def toNat {n : Nat} (b : Bytes n) : Nat :=
  natOfDigits b.toList

def ofNat (n v : Nat) : Bytes n where
  toList := digitsOfNat n v
  length_toList := length_digitsOfNat n v

def toNatBE {n : Nat} (b : Bytes n) : Nat :=
  b.reverse.toNat

def ofNatBE (n v : Nat) : Bytes n :=
  (ofNat n v).reverse

def topBit {n : Nat} (b : Bytes n) : Bool :=
  decide (Nat.pow 2 (8 * n - 1) <= b.toNat)

theorem ofNat_toNat {n : Nat} (b : Bytes n) :
    ofNat n b.toNat = b := by
  apply ext
  have h := digitsOfNat_natOfDigits b.toList
  rw [b.length_toList] at h
  rw [ofNat, toNat]
  exact h

theorem toNat_inj {n : Nat} {a b : Bytes n} :
    a.toNat = b.toNat <-> a = b := by
  constructor
  · intro h
    rw [← ofNat_toNat a, ← ofNat_toNat b, h]
  · intro h
    rw [h]

theorem reverse_reverse {n : Nat} (b : Bytes n) :
    b.reverse.reverse = b := by
  apply ext
  simp [reverse]

theorem append_low_high {m n : Nat} (b : Bytes (m + n)) :
    append (low b) (high b) = b := by
  apply ext
  simp [append, low, high]

theorem low_append {m n : Nat} (a : Bytes m) (b : Bytes n) :
    low (append a b) = a :=
  ext (List.take_left' a.length_toList)

theorem high_append {m n : Nat} (a : Bytes m) (b : Bytes n) :
    high (append a b) = b :=
  ext (List.drop_left' a.length_toList)

/-! ## Strings as lists -/

theorem toList_fill {n : Nat} {l : List UInt8} (h : n <= l.length) :
    (fill n l).toList = l.take n := by
  simp [fill, h]

theorem toList_overwrite {m n : Nat} (b : Bytes n) {i : Nat} (piece : Bytes m)
    (h : i + m <= n) :
    (b.overwrite i piece).toList = b.toList.take i ++ piece.toList ++ b.toList.drop (i + m) := by
  have hlength : (b.toList.take i ++ piece.toList ++ b.toList.drop (i + m)).length = n := by
    simp only [List.length_append, List.length_take, List.length_drop, b.length_toList,
      piece.length_toList]
    omega
  rw [overwrite, toList_fill (Nat.le_of_eq hlength.symm),
    List.take_of_length_le (Nat.le_of_eq hlength)]

theorem length_flatMap_toList {n : Nat} (l : List (Bytes n)) :
    (l.flatMap toList).length = n * l.length := by
  induction l with
  | nil => rfl
  | cons b rest ih =>
      rw [List.flatMap_cons, List.length_append, ih, b.length_toList, List.length_cons,
        Nat.mul_succ, Nat.add_comm]

end Bytes

end Edwards25519
