import Mathlib
import Edwards25519.Proofs.Hash.Expansion
import Edwards25519.Proofs.HashToCurve.Expander

/-!
# The layout of an expansion

The strings that are hashed and the places of the seeds in the digests, written out.
An expansion that the format has room for yields the seeds of the layout, and no
length, counter or index on the way leaves its range. The others are refused with
the first of three causes.
-/

namespace Edwards25519
namespace FieldSeed

/-! ## The layout -/

namespace Layout

variable (num : Nat) (suite ctx msg : List UInt8)

def tag : List UInt8 :=
  [UInt8.ofNat (suite.length + ctx.length)] ++ suite ++ ctx

def root : Bytes 64 :=
  sha512 (List.replicate 128 0 ++ msg ++
    [UInt8.ofNat (48 * num / 256), UInt8.ofNat (48 * num)] ++ [0] ++ tag suite ctx)

def firstBlock : Bytes 64 :=
  sha512 ((root num suite ctx msg).toList ++ [1] ++ tag suite ctx)

def secondBlock : Bytes 64 :=
  sha512 (((root num suite ctx msg).xor (firstBlock num suite ctx msg)).toList ++ [2] ++
    tag suite ctx)

def blocks : List (Bytes 64) :=
  [firstBlock num suite ctx msg, secondBlock num suite ctx msg].take num

def seed (i : Nat) : List UInt8 :=
  (((blocks num suite ctx msg).flatMap Bytes.toList).drop (48 * i)).take 48

end Layout

/-! ## The blocks of a request -/

section Request

variable {num : Nat} {suite ctx : List UInt8} (msg : List UInt8)

theorem label_ofRequest :
    (Expander.ofRequest num suite ctx msg).label = Layout.tag suite ctx := by
  rw [Layout.tag, List.append_assoc]
  rfl

theorem root_ofRequest :
    (Expander.ofRequest num suite ctx msg).root = Layout.root num suite ctx msg := by
  have hroot : (Expander.ofRequest num suite ctx msg).root =
      sha512 (List.replicate 128 0 ++ msg ++
        [UInt8.ofNat (48 * num / 256), UInt8.ofNat (48 * num)] ++
          0 :: (Expander.ofRequest num suite ctx msg).label) := rfl
  rw [hroot, label_ofRequest, Layout.root, List.append_assoc _ [0]]
  rfl

theorem blocksAfter_two (num : Nat) (suite ctx msg : List UInt8) :
    MessageHash.sha512.blocksAfter (Layout.tag suite ctx) (Layout.root num suite ctx msg) 2 0
        (Bytes.zero 64) =
      [Layout.firstBlock num suite ctx msg, Layout.secondBlock num suite ctx msg] := by
  have hfirst : MessageHash.sha512.hash (MessageHash.blockInput (Layout.tag suite ctx)
      (Layout.root num suite ctx msg) (Bytes.zero 64) (0 + 1)) =
      Layout.firstBlock num suite ctx msg := by
    rw [MessageHash.blockInput, Bytes.xor_zero, Layout.firstBlock, List.append_assoc]
    rfl
  have hsecond : MessageHash.sha512.hash (MessageHash.blockInput (Layout.tag suite ctx)
      (Layout.root num suite ctx msg) (Layout.firstBlock num suite ctx msg) (0 + 1 + 1)) =
      Layout.secondBlock num suite ctx msg := by
    rw [MessageHash.blockInput, Layout.secondBlock, List.append_assoc]
    rfl
  rw [MessageHash.blocksAfter, hfirst, MessageHash.blocksAfter, hsecond]
  rfl

theorem blocks_ofRequest (h : num <= maxSeeds) :
    (Expander.ofRequest num suite ctx msg).blocks = Layout.blocks num suite ctx msg := by
  have hchain : (Expander.ofRequest num suite ctx msg).blocks =
      MessageHash.sha512.blocksAfter (Expander.ofRequest num suite ctx msg).label
        (Expander.ofRequest num suite ctx msg).root num 0 (Bytes.zero 64) :=
    (Expander.coherent_ofRequest h suite ctx msg).blocks_eq
  rw [hchain, label_ofRequest, root_ofRequest, Layout.blocks, ← blocksAfter_two]
  exact (MessageHash.take_blocksAfter MessageHash.sha512 _ _ h 0 _).symm

theorem length_layoutBlocks (h : num <= maxSeeds) :
    (Layout.blocks num suite ctx msg).length = num := by
  rw [Layout.blocks, List.length_take]
  exact Nat.min_eq_left h

/-! ## The seeds of a request -/

theorem toList_ofStream (h : num <= maxSeeds) {i : Nat} (hi : i < num) :
    (ofStream (Expander.ofRequest num suite ctx msg).stream i).bytes.toList =
      Layout.seed num suite ctx msg i := by
  have hmax : maxSeeds = 2 := rfl
  have hremaining : (Expander.ofRequest num suite ctx msg).remaining = num := rfl
  have hlength : ((Layout.blocks num suite ctx msg).flatMap Bytes.toList).length = 64 * num := by
    rw [Bytes.length_flatMap_toList, length_layoutBlocks msg h]
  have hstream := Expander.toList_stream (e := Expander.ofRequest num suite ctx msg) (by omega)
  rw [blocks_ofRequest msg h] at hstream
  have hbuffer := (Expander.ofRequest num suite ctx msg).stream.length_toList
  have hseed : (ofStream (Expander.ofRequest num suite ctx msg).stream i).bytes.toList =
      ((Expander.ofRequest num suite ctx msg).stream.toList.drop (48 * i)).take 48 := by
    apply Bytes.toList_fill
    rw [List.length_drop, hbuffer]
    change 48 <= 128 - 48 * i
    omega
  rw [hseed, hstream, List.drop_append_of_le_length (by omega),
    List.take_append_of_le_length (by rw [List.length_drop]; omega), Layout.seed]

theorem expand_of_fits (h : Expander.Fits num suite ctx) :
    expand num suite ctx msg =
      .ok ((List.range num).map (ofStream (Expander.ofRequest num suite ctx msg).stream)) := by
  have hwhole : num <= 128 / size := h.num_le
  rw [expand, Expander.start_of_fits h, Except.map, seedsOfStream, ← List.map_take,
    List.take_range, Nat.min_eq_left hwhole]

theorem expand_of_checkRequest_error {e : Error}
    (h : Expander.checkRequest num suite ctx = .error e) :
    expand num suite ctx msg = .error e := by
  rw [expand, Expander.start, h]
  rfl

end Request

/-- An expansion is refused for the first of three causes, or yields the seeds of the layout. -/
theorem expand_layout (num : Nat) (suite ctx msg : List UInt8) :
    (2 < num -> expand num suite ctx msg = .error (.unsupportedSeedCount num)) ∧
    (num <= 2 -> 255 < suite.length ->
      expand num suite ctx msg = .error (.suiteTooLong suite.length)) ∧
    (num <= 2 -> suite.length <= 255 -> 255 - suite.length < ctx.length ->
      expand num suite ctx msg = .error (.contextTooLong ctx.length (255 - suite.length))) ∧
    (num <= 2 -> suite.length <= 255 -> ctx.length <= 255 - suite.length ->
      exists e seeds, Expander.start num suite ctx msg = .ok e ∧ e.InRange num suite ctx ∧
        expand num suite ctx msg = .ok seeds ∧
        seeds.map (fun seed => seed.bytes.toList) =
          (List.range num).map (Layout.seed num suite ctx msg)) := by
  refine ⟨?_, ?_, ?_, ?_⟩
  · intro hnum
    apply expand_of_checkRequest_error
    exact if_pos hnum
  · intro hnum hsuite
    apply expand_of_checkRequest_error
    exact (if_neg (Nat.not_lt_of_le hnum)).trans (if_pos hsuite)
  · intro hnum hsuite hctx
    apply expand_of_checkRequest_error
    exact (if_neg (Nat.not_lt_of_le hnum)).trans
      ((if_neg (Nat.not_lt_of_le hsuite)).trans (if_pos hctx))
  · intro hnum hsuite hctx
    have hfits : Expander.Fits num suite ctx :=
      { num_le := hnum
        length_le := by
          change suite.length + ctx.length <= 255
          omega }
    refine ⟨_, _, Expander.start_of_fits hfits msg, Expander.inRange_ofRequest hfits msg,
      expand_of_fits msg hfits, ?_⟩
    rw [List.map_map]
    apply List.map_congr_left
    intro i hi
    exact toList_ofStream msg hnum (List.mem_range.mp hi)

/-- The hypotheses hold one step past each limit, and at all limits together. -/
theorem expand_layout_limits :
    expand 3 [] [] [] = .error (.unsupportedSeedCount 3) ∧
    expand 1 (List.replicate 256 120) [] [] = .error (.suiteTooLong 256) ∧
    expand 1 (List.replicate 255 120) [99] [] = .error (.contextTooLong 1 0) ∧
    exists seeds, expand 2 (List.replicate 255 120) [] [] = .ok seeds ∧ seeds.length = 2 := by
  have hsuite : (List.replicate 256 (120 : UInt8)).length = 256 := List.length_replicate
  have htag : (List.replicate 255 (120 : UInt8)).length = 255 := List.length_replicate
  have hthree := (expand_layout 3 [] [] []).1 (by decide)
  have hlong := (expand_layout 1 (List.replicate 256 120) [] []).2.1 (by decide) (by omega)
  have hcontext := (expand_layout 1 (List.replicate 255 120) [99] []).2.2.1 (by decide)
    (by omega) (by rw [htag]; decide)
  rcases (expand_layout 2 (List.replicate 255 120) [] []).2.2.2 (by decide) (by omega)
    (Nat.zero_le _) with ⟨e, seeds, -, -, hseeds, hlayout⟩
  rw [hsuite] at hlong
  rw [htag] at hcontext
  refine ⟨hthree, hlong, hcontext, seeds, hseeds, ?_⟩
  have hlength := congrArg List.length hlayout
  rw [List.length_map, List.length_map, List.length_range] at hlength
  exact hlength

end FieldSeed
end Edwards25519
