import Mathlib
import Edwards25519.Bytes.Range
import Edwards25519.HashToCurve.Expander
import Edwards25519.Proofs.Hash.Expansion

/-!
# Runs of an expander

As long as the counter has room for the blocks to come, a step moves it on by one
without wrapping, and the blocks of a run are those of the chain in which the first
block has the zero string before it. A request that is not refused starts such a run.
-/

namespace Edwards25519
namespace Expander

/-! ## One step -/

theorem blocks_of_remaining_eq_zero {e : Expander} (h : e.remaining = 0) :
    e.blocks = [] := by
  rw [blocks]
  split
  · rfl
  · rename_i hnext
    rw [remaining_of_next? hnext] at h
    cases h

theorem blocks_of_next? {e f : Expander} {block : Bytes 64} (h : e.next? = some (block, f)) :
    e.blocks = block :: f.blocks := by
  rw [blocks]
  split
  · rename_i hnone
    rw [h] at hnone
    cases hnone
  · rename_i hsome
    rw [h] at hsome
    cases hsome
    rfl

/-- The counter has room for the blocks to come, and there is no block before the first. -/
structure Coherent (e : Expander) : Prop where
  counter_lt : e.counter.toNat + e.remaining < 256
  previous_eq : e.counter = 0 -> e.previous = Bytes.zero 64

theorem Coherent.counter_of_next? {e f : Expander} {block : Bytes 64} (h : e.Coherent)
    (hnext : e.next? = some (block, f)) :
    f.counter.toNat = e.counter.toNat + 1 := by
  have hlt := h.counter_lt
  rcases next?_eq_some_iff.mp hnext with ⟨rest, hremaining, -, rfl⟩
  rw [UInt8.toNat_add, UInt8.toNat_one]
  omega

theorem Coherent.next {e f : Expander} {block : Bytes 64} (h : e.Coherent)
    (hnext : e.next? = some (block, f)) :
    f.Coherent := by
  have hlt := h.counter_lt
  have hremaining := remaining_of_next? hnext
  have hcounter := h.counter_of_next? hnext
  refine ⟨by omega, ?_⟩
  intro hzero
  rw [hzero, UInt8.toNat_zero] at hcounter
  omega

theorem Coherent.chained_eq {e : Expander} (h : e.Coherent) :
    e.chained = e.root.xor e.previous := by
  rw [chained]
  by_cases hzero : e.counter = 0
  · rw [if_pos hzero, h.previous_eq hzero, Bytes.xor_zero]
  · rw [if_neg hzero]

/-! ## A run -/

inductive Reaches (e : Expander) : Expander -> Prop where
  | refl : Reaches e e
  | next {f g : Expander} {block : Bytes 64} :
      Reaches e f -> f.next? = some (block, g) -> Reaches e g

theorem Reaches.coherent {e f : Expander} (h : e.Reaches f) (he : e.Coherent) :
    f.Coherent := by
  induction h with
  | refl => exact he
  | next _ hnext ih => exact ih.next hnext

/-- What the counter gains is taken from the blocks to come. -/
theorem Reaches.counter_add_remaining {e f : Expander} (h : e.Reaches f) (he : e.Coherent) :
    f.counter.toNat + f.remaining = e.counter.toNat + e.remaining := by
  induction h with
  | refl => rfl
  | next hreaches hnext ih =>
      have hcounter := (hreaches.coherent he).counter_of_next? hnext
      have hremaining := remaining_of_next? hnext
      omega

theorem length_blocks (e : Expander) :
    e.blocks.length = e.remaining := by
  induction hremaining : e.remaining generalizing e with
  | zero => rw [blocks_of_remaining_eq_zero hremaining, List.length_nil]
  | succ rest ih =>
      have hnext := next?_eq_some_iff.mpr ⟨rest, hremaining, rfl, rfl⟩
      rw [blocks_of_next? hnext, List.length_cons, ih _ rfl]

/-- The first block needs no case of its own once the zero string stands before it. -/
theorem Coherent.blocks_eq {e : Expander} (h : e.Coherent) :
    e.blocks =
      MessageHash.sha512.blocksAfter e.label e.root e.remaining e.counter e.previous := by
  -- By induction on the blocks to come. A counter that came back to zero would leave the
  -- block before out of the chain, which `Coherent` excludes at every step.
  induction hremaining : e.remaining generalizing e with
  | zero =>
      rw [blocks_of_remaining_eq_zero hremaining]
      rfl
  | succ rest ih =>
      have hnext := next?_eq_some_iff.mpr ⟨rest, hremaining, rfl, rfl⟩
      have hinput : e.input =
          MessageHash.blockInput e.label e.root e.previous (e.counter + 1) := by
        rw [input, h.chained_eq, MessageHash.blockInput]
      rw [blocks_of_next? hnext, ih (h.next hnext) rfl, MessageHash.blocksAfter, hinput]
      rfl

/-! ## Writing the blocks to the buffer -/

theorem toList_writeBlocks (blocks : List (Bytes 64)) (stream : Bytes 128) (i : Nat)
    (h : 64 * (i + blocks.length) <= 128) :
    (writeBlocks stream i blocks).toList =
      stream.toList.take (64 * i) ++ blocks.flatMap Bytes.toList ++
        stream.toList.drop (64 * (i + blocks.length)) := by
  induction blocks generalizing stream i with
  | nil => simp [writeBlocks]
  | cons block rest ih =>
      -- The rest is written after this block, so what stands before it stays.
      rw [List.length_cons] at h ⊢
      have hwritten := Bytes.toList_overwrite stream (i := 64 * i) block (by omega)
      have hdone : (stream.toList.take (64 * i) ++ block.toList).length = 64 * (i + 1) := by
        rw [List.length_append, List.length_take, stream.length_toList, block.length_toList]
        omega
      have hafter : 64 * (i + 1 + rest.length) =
          (stream.toList.take (64 * i) ++ block.toList).length + 64 * rest.length := by
        rw [hdone]
        ring
      have hplace : 64 * i + 64 + 64 * rest.length = 64 * (i + (rest.length + 1)) := by ring
      have htake : (stream.overwrite (64 * i) block).toList.take (64 * (i + 1)) =
          stream.toList.take (64 * i) ++ block.toList := by
        rw [hwritten, List.take_left' hdone]
      have hdrop : (stream.overwrite (64 * i) block).toList.drop (64 * (i + 1 + rest.length)) =
          stream.toList.drop (64 * (i + (rest.length + 1))) := by
        rw [hwritten, hafter, List.drop_length_add_append, List.drop_drop, hplace]
      rw [writeBlocks, ih _ _ (by omega), htake, hdrop, List.flatMap_cons, ← List.append_assoc]

theorem toList_stream {e : Expander} (h : 64 * e.remaining <= 128) :
    e.stream.toList =
      e.blocks.flatMap Bytes.toList ++ (Bytes.zero 128).toList.drop (64 * e.remaining) := by
  rw [stream, toList_writeBlocks _ _ _ (by rw [length_blocks]; omega), length_blocks,
    Nat.mul_zero, List.take_zero, List.nil_append, Nat.zero_add]

/-! ## Requests -/

structure Fits (num : Nat) (suite ctx : List UInt8) : Prop where
  num_le : num <= maxSeeds
  length_le : suite.length + ctx.length <= maxTagLength

theorem checkRequest_eq_ok_iff (num : Nat) (suite ctx : List UInt8) :
    checkRequest num suite ctx = .ok () <-> Fits num suite ctx := by
  unfold checkRequest
  constructor
  · intro h
    split at h
    · cases h
    · split at h
      · cases h
      · split at h
        · cases h
        · exact ⟨by omega, by omega⟩
  · intro h
    have hnum := h.num_le
    have hlength := h.length_le
    rw [if_neg (by omega), if_neg (by omega), if_neg (by omega)]

theorem start_of_fits {num : Nat} {suite ctx : List UInt8} (h : Fits num suite ctx)
    (msg : List UInt8) :
    start num suite ctx msg = .ok (ofRequest num suite ctx msg) := by
  rw [start, (checkRequest_eq_ok_iff num suite ctx).mpr h]
  rfl

theorem coherent_ofRequest {num : Nat} (h : num <= maxSeeds) (suite ctx msg : List UInt8) :
    (ofRequest num suite ctx msg).Coherent where
  counter_lt := by
    change 0 + num < 256
    exact Nat.lt_of_le_of_lt (by omega) (show maxSeeds < 256 by decide)
  previous_eq _ := rfl

theorem toNat_tagLength {num : Nat} {suite ctx : List UInt8} (h : Fits num suite ctx)
    (msg : List UInt8) :
    (ofRequest num suite ctx msg).tagLength.toNat = suite.length + ctx.length := by
  have hlength := h.length_le
  have hmax : maxTagLength < 2 ^ 8 := by decide
  refine UInt8.toNat_ofNat'.trans (Nat.mod_eq_of_lt ?_)
  omega

theorem seedLength_lt {num : Nat} (h : num <= maxSeeds) :
    FieldSeed.size * num < 256 ^ 2 := by
  change 48 * num < 256 ^ 2
  have hmax : maxSeeds = 2 := rfl
  omega

/-- The lengths, the counter and the places of a run stay within what holds them. -/
structure InRange (num : Nat) (suite ctx : List UInt8) (e : Expander) : Prop where
  tagLength_eq : e.tagLength.toNat = suite.length + ctx.length
  lengthBytes_eq : (Bytes.ofNatBE 2 (FieldSeed.size * num)).toNatBE = 48 * num
  counter_eq : forall f, e.Reaches f -> f.counter.toNat + f.remaining = num
  counter_next : forall f block g, e.Reaches f -> f.next? = some (block, g) ->
    g.counter.toNat = f.counter.toNat + 1
  block_place : forall i, i < e.blocks.length -> 64 * i + 64 <= 128
  seed_place : forall i, i < num -> 48 * i + 48 <= 64 * e.blocks.length

theorem inRange_ofRequest {num : Nat} {suite ctx : List UInt8} (h : Fits num suite ctx)
    (msg : List UInt8) :
    (ofRequest num suite ctx msg).InRange num suite ctx := by
  have hnum := h.num_le
  have hmax : maxSeeds = 2 := rfl
  have hcoherent := coherent_ofRequest hnum suite ctx msg
  have hlength : (ofRequest num suite ctx msg).blocks.length = num := length_blocks _
  refine ⟨toNat_tagLength h msg, Bytes.toNatBE_ofNatBE (seedLength_lt hnum), ?_, ?_, ?_, ?_⟩
  · intro f hf
    exact (hf.counter_add_remaining hcoherent).trans (Nat.zero_add num)
  · intro f block g hf hnext
    exact (hf.coherent hcoherent).counter_of_next? hnext
  · intro i hi
    omega
  · intro i hi
    omega

end Expander
end Edwards25519
