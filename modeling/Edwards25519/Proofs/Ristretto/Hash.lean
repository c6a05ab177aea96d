import Mathlib
import Edwards25519.Bytes.Range
import Edwards25519.Ristretto.Hash
import Edwards25519.Proofs.Scalar.Ring

/-!
# Hashing under a context

An expansion has the layout of its blocks for every length of which the two bytes and
the numbers of the blocks hold the value. Elements are made of 64 bytes of it, and
scalars are the number of 48 bytes modulo the group order. A context that is too long
for a tag counts as its digest.
-/

namespace Edwards25519

/-!
## The layout of an expansion under a context

The blocks of an expansion written out: each is the digest of the root, mixed with the
block before it except for the first one, of the number of the block and of the tag
with its length. The output is the beginning of all blocks joined. The run that writes
the output chunk by chunk keeps the block before in its buffer, and zeros at first,
which leave the root as it is.
-/

namespace Ristretto

/-! ## The layout -/

/-- The bytes of `H2C-OVERSIZE-DST-`. -/
def Layout.marker : List UInt8 :=
  [0x48, 0x32, 0x43, 0x2d, 0x4f, 0x56, 0x45, 0x52, 0x53, 0x49, 0x5a, 0x45, 0x2d, 0x44, 0x53, 0x54,
    0x2d]

/-- The digest that stands for a context that is too long for a tag. -/
def shortened (ctx : List UInt8) : List UInt8 :=
  (sha256 (Layout.marker ++ ctx)).toList

namespace Layout

def tag (ctx : List UInt8) : List UInt8 :=
  if ctx.length <= 255 then ctx else shortened ctx

def tagWithLength (ctx : List UInt8) : List UInt8 :=
  tag ctx ++ [UInt8.ofNat (tag ctx).length]

variable (length : Nat) (ctx msg : List UInt8)

def root : Bytes 32 :=
  sha256 (List.replicate 64 0 ++ msg ++ [UInt8.ofNat (length / 256), UInt8.ofNat length] ++ [0] ++
    tagWithLength ctx)

/-- The blocks, counted from zero, with the numbers one, two and so on in their inputs. -/
def block : Nat -> Bytes 32
  | 0 => sha256 ((root length ctx msg).toList ++ [1] ++ tagWithLength ctx)
  | i + 1 =>
      sha256 (((root length ctx msg).xor (block i)).toList ++ [UInt8.ofNat (i + 2)] ++
        tagWithLength ctx)

def before : Nat -> Bytes 32
  | 0 => Bytes.zero 32
  | i + 1 => block length ctx msg i

def blocks (count : Nat) : List UInt8 :=
  ((List.range count).map (block length ctx msg)).flatMap Bytes.toList

/-- The lengths and the number of a block are small enough for the bytes that hold them. -/
structure InRange : Prop where
  tagLength_eq : (UInt8.ofNat (tag ctx).length).toNat = (tag ctx).length
  length_eq : 256 * (UInt8.ofNat (length / 256)).toNat + (UInt8.ofNat length).toNat = length
  number_eq : forall i, 32 * i < length -> (UInt8.ofNat (i + 1)).toNat = i + 1

/-! ## Blocks joined -/

theorem length_blocks (count : Nat) :
    (blocks length ctx msg count).length = 32 * count := by
  rw [blocks, Bytes.length_flatMap_toList, List.length_map, List.length_range]

theorem blocks_succ (count : Nat) :
    blocks length ctx msg (count + 1) =
      blocks length ctx msg count ++ (block length ctx msg count).toList := by
  rw [blocks, List.range_succ, List.map_append, List.flatMap_append]
  simp [blocks]

theorem take_blocks {size m count : Nat} (hsize : size <= 32 * m) (h : m <= count) :
    (blocks length ctx msg count).take size = (blocks length ctx msg m).take size := by
  induction count, h using Nat.le_induction with
  | base => rfl
  | succ count hle ih =>
      rw [blocks_succ, List.take_append_of_le_length, ih]
      rw [length_blocks]
      omega

end Layout

/-! ## Tags -/

theorem oversizeMarker_eq :
    oversizeMarker = Layout.marker := by
  decide +kernel

theorem effectiveTag_of_short {ctx : List UInt8} (h : ctx.length <= 255) :
    effectiveTag ctx = ctx :=
  if_neg (Nat.not_lt_of_le h)

theorem effectiveTag_of_long {ctx : List UInt8} (h : 255 < ctx.length) :
    effectiveTag ctx = shortened ctx := by
  rw [effectiveTag, if_pos h, oversizeMarker_eq, shortened]

theorem length_shortened (ctx : List UInt8) :
    (shortened ctx).length = 32 :=
  Bytes.length_toList _

theorem tag_eq_effectiveTag (ctx : List UInt8) :
    Layout.tag ctx = effectiveTag ctx := by
  rw [Layout.tag]
  by_cases h : ctx.length <= 255
  · rw [if_pos h, effectiveTag_of_short h]
  · rw [if_neg h, effectiveTag_of_long (Nat.lt_of_not_le h)]

theorem label_eq_tagWithLength (ctx : List UInt8) :
    label ctx = Layout.tagWithLength ctx := by
  rw [Layout.tagWithLength, tag_eq_effectiveTag]
  rfl

theorem length_effectiveTag_le (ctx : List UInt8) :
    (effectiveTag ctx).length <= 255 := by
  rcases Nat.lt_or_ge 255 ctx.length with hlong | hshort
  · rw [effectiveTag_of_long hlong, length_shortened]
    decide
  · rw [effectiveTag_of_short hshort]
    exact hshort

theorem inRange_of_le {length : Nat} (h : length <= 8160) (ctx : List UInt8) :
    Layout.InRange length ctx where
  tagLength_eq := by
    have hlength := length_effectiveTag_le ctx
    rw [tag_eq_effectiveTag, UInt8.toNat_ofNat']
    omega
  length_eq := by
    rw [UInt8.toNat_ofNat', UInt8.toNat_ofNat']
    omega
  number_eq := by
    intro i hi
    rw [UInt8.toNat_ofNat']
    omega

/-! ## One chunk -/

namespace Expansion

variable {length : Nat}

theorem finish_of_full {e : Expansion length} (h : e.next? = none) :
    e.finish = e.out := by
  rw [finish]
  split
  · rfl
  · rename_i hsome
    rw [h] at hsome
    cases hsome

theorem finish_of_next? {e f : Expansion length} (h : e.next? = some f) :
    e.finish = f.finish := by
  rw [finish]
  split
  · rename_i hnone
    rw [h] at hnone
    cases hnone
  · rename_i hsome
    rw [h] at hsome
    cases hsome
    rfl

/-- The chunk is written after those before it, and it is cut where the output ends. -/
theorem take_out_of_next? {e f : Expansion length} (h : e.next? = some f) :
    f.out.toList.take (32 * f.done) =
      e.out.toList.take (32 * e.done) ++ f.block.toList.take (length - 32 * e.done) := by
  rcases next?_eq_some_iff.mp h with ⟨hlt, rfl⟩
  have hchunk : e.chunkLength = min 32 (length - 32 * e.done) := rfl
  have hblock : (sha256 e.input).toList.length = 32 := Bytes.length_toList _
  have hout : e.out.toList.length = length := Bytes.length_toList _
  have hfill : (Bytes.fill e.chunkLength (sha256 e.input).toList).toList =
      (sha256 e.input).toList.take (length - 32 * e.done) := by
    rw [Bytes.toList_fill (by omega), hchunk, Nat.min_comm, ← List.take_take,
      List.take_of_length_le (Nat.le_of_eq hblock)]
  have hwritten : (e.out.toList.take (32 * e.done) ++
      (sha256 e.input).toList.take (length - 32 * e.done)).length =
      32 * e.done + e.chunkLength := by
    rw [List.length_append, List.length_take, List.length_take]
    omega
  have hrest : (e.out.toList.drop (32 * e.done + e.chunkLength)).take
      (32 * (e.done + 1) - (32 * e.done + e.chunkLength)) = [] := by
    rw [List.take_eq_nil_iff, List.drop_eq_nil_iff]
    omega
  change (e.out.overwrite (32 * e.done) _).toList.take (32 * (e.done + 1)) = _
  rw [Bytes.toList_overwrite _ _ (by omega), hfill, List.take_append,
    List.take_of_length_le (by rw [hwritten]; omega), hwritten, hrest, List.append_nil]

/-! ## A run -/

/-- The blocks so far are written, and the last of them is in the buffer. -/
structure Written (e : Expansion length) (ctx msg : List UInt8) : Prop where
  label_eq : e.label = Layout.tagWithLength ctx
  root_eq : e.root = Layout.root length ctx msg
  block_eq : e.block = Layout.before length ctx msg e.done
  out_eq : e.out.toList.take (32 * e.done) =
    (Layout.blocks length ctx msg e.done).take length

section Run

variable {e f : Expansion length} {ctx msg : List UInt8}

theorem written_start (length : Nat) (ctx msg : List UInt8) :
    (start length ctx msg).Written ctx msg where
  label_eq := label_eq_tagWithLength ctx
  root_eq := by
    have hroot : (start length ctx msg).root =
        sha256 (List.replicate 64 0 ++ msg ++ [UInt8.ofNat (length / 256), UInt8.ofNat length] ++
          0 :: Ristretto.label ctx) := rfl
    rw [hroot, label_eq_tagWithLength, Layout.root, List.append_assoc _ [0]]
    rfl
  block_eq := rfl
  out_eq := by
    change List.take 0 _ = List.take length []
    rw [List.take_zero, List.take_nil]

/-- Zeros in the buffer leave the root as it is, so the first block needs no case of its own. -/
theorem Written.hash_input (h : e.Written ctx msg) :
    sha256 e.input = Layout.block length ctx msg e.done := by
  rw [input, h.block_eq, h.root_eq, h.label_eq, Bytes.xor_comm]
  cases e.done with
  | zero => rw [Layout.before, Bytes.xor_zero, Layout.block, List.append_assoc]; rfl
  | succ i => rw [Layout.before, Layout.block, List.append_assoc]; rfl

theorem Written.next (h : e.Written ctx msg) (hnext : e.next? = some f) :
    f.Written ctx msg := by
  have hout := take_out_of_next? hnext
  rcases next?_eq_some_iff.mp hnext with ⟨hlt, rfl⟩
  refine ⟨h.label_eq, h.root_eq, h.hash_input, ?_⟩
  rw [hout, h.out_eq]
  change _ ++ (sha256 e.input).toList.take _ = (Layout.blocks length ctx msg (e.done + 1)).take _
  rw [Layout.blocks_succ, List.take_append, Layout.length_blocks, h.hash_input]

/-- The run ends with the beginning of all blocks joined, however many of them are looked at. -/
theorem Written.toList_finish (h : e.Written ctx msg) {count : Nat}
    (hcount : length <= 32 * count) :
    e.finish.toList = (Layout.blocks length ctx msg count).take length := by
  induction e using finish.induct with
  | case1 e hnone =>
      have hfull := next?_eq_none_iff.mp hnone
      have hout : e.out.toList.take (32 * e.done) = e.out.toList := by
        apply List.take_of_length_le
        rw [Bytes.length_toList]
        exact hfull
      rw [finish_of_full hnone, ← hout, h.out_eq]
      rcases Nat.le_total e.done count with hle | hle
      · exact (Layout.take_blocks length ctx msg hfull hle).symm
      · exact Layout.take_blocks length ctx msg hcount hle
  | case2 e f hnext ih =>
      rw [finish_of_next? hnext]
      exact ih (h.next hnext)

end Run

end Expansion

theorem toList_expandMessage {length count : Nat} (h : length <= 32 * count)
    (ctx msg : List UInt8) :
    (expandMessage length ctx msg).toList =
      (Layout.blocks length ctx msg count).take length :=
  (Expansion.written_start length ctx msg).toList_finish h

/-! ## Elements and scalars -/

/-! ## Contexts that are too long -/

theorem effectiveTag_shortened (ctx : List UInt8) :
    effectiveTag (shortened ctx) = shortened ctx := by
  apply effectiveTag_of_short
  rw [length_shortened]
  decide

theorem expandMessage_of_long (length : Nat) {ctx : List UInt8} (h : 255 < ctx.length)
    (msg : List UInt8) :
    expandMessage length ctx msg = expandMessage length (shortened ctx) msg := by
  have hlabel : label ctx = label (shortened ctx) := by
    rw [label, label, effectiveTag_of_long h, effectiveTag_shortened]
  rw [expandMessage, expandMessage, Expansion.start, Expansion.start, hlabel]

/-! ## Scalars -/

/-- The bytes in the opposite order and the zeros after them keep the number. -/
theorem isReduced_scalarOfSeed (b : Bytes 48) :
    Scalar.IsReduced (scalarOfSeed b) b.toNatBE := by
  have hreduced := (Scalar.eq_reduce_iff (scalarOfSeed b) _).mp rfl
  rw [← Bytes.toNat_reverse, ← Bytes.toNat_append_zero b.reverse 16]
  exact hreduced

/-! ## The layout of what is hashed -/

/-- The output is the blocks of the layout, and elements and scalars are read from it. -/
theorem expandMessage_layout (length : Nat) (ctx msg : List UInt8) :
    (length <= 8160 ->
      Layout.InRange length ctx ∧
      forall count, length <= 32 * count ->
        (expandMessage length ctx msg).toList =
          (Layout.blocks length ctx msg count).take length) ∧
    hashToElement ctx msg = Element.fromHash (expandMessage 64 ctx msg) ∧
    hashToElementRO ctx msg = Element.fromHash (expandMessage 64 ctx msg) ∧
    Scalar.IsReduced (hashToScalar ctx msg) (expandMessage 48 ctx msg).toNatBE ∧
    (255 < ctx.length ->
      hashToElement ctx msg = hashToElement (shortened ctx) msg ∧
      hashToElementRO ctx msg = hashToElementRO (shortened ctx) msg ∧
      hashToScalar ctx msg = hashToScalar (shortened ctx) msg) := by
  refine ⟨?_, rfl, rfl, isReduced_scalarOfSeed _, ?_⟩
  · intro h
    exact ⟨inRange_of_le h ctx, fun count hcount => toList_expandMessage hcount ctx msg⟩
  · intro h
    have helement : hashToElement ctx msg = hashToElement (shortened ctx) msg := by
      rw [hashToElement, hashToElement, expandMessage_of_long 64 h]
    refine ⟨helement, helement, ?_⟩
    rw [hashToScalar, hashToScalar, expandMessage_of_long 48 h]

theorem expandMessage_layout_partial :
    (expandMessage 48 (List.replicate 256 97) []).toList =
      (Layout.blocks 48 (List.replicate 256 97) [] 2).take 48 ∧
    hashToScalar (List.replicate 256 97) [] =
      hashToScalar (shortened (List.replicate 256 97)) [] := by
  have hlong : (List.replicate 256 (97 : UInt8)).length = 256 := List.length_replicate
  rcases expandMessage_layout 48 (List.replicate 256 97) [] with ⟨hblocks, -, -, -, hcontext⟩
  exact ⟨(hblocks (by decide)).2 2 (by decide), (hcontext (by rw [hlong]; decide)).2.2⟩

end Ristretto

end Edwards25519
