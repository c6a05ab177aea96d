import Edwards25519.ByteStream
import Edwards25519.Scalar

/-!
# Random scalars

A scalar is drawn by rejection: 32 bytes are taken, the top three bits are
cleared, and the draw is repeated until it is below the group order and not
zero. The sampler takes the proof that some draw will be accepted, so it always
ends; a script followed by one byte for ever always accepts in the end.
-/

namespace Edwards25519
namespace Scalar

def mask (draw : Bytes 32) : Scalar where
  bytes := Bytes.ofNat 32 (draw.toNat % Nat.pow 2 253)

def accept? (draw : Bytes 32) : Option Scalar :=
  let candidate := mask draw
  if candidate.isCanonical && !candidate.isZero then
    some candidate
  else
    none

/-- A draw will be accepted from every position of the stream. -/
def Productive (s : ByteStream) : Prop :=
  forall i, exists k, (accept? ((s.drop i).block 32 k)).isSome

theorem Productive.drop {s : ByteStream} (h : Productive s) (j : Nat) :
    Productive (s.drop j) := by
  intro i
  rw [ByteStream.drop_drop]
  exact h (j + i)

/-- The first accepted draw and the number of bytes taken from the stream. -/
def sample (s : ByteStream) (h : exists k, (accept? (s.block 32 k)).isSome) :
    Scalar × Nat :=
  let found := firstAccepted (fun k => accept? (s.block 32 k)) h
  (found.2, 32 * (found.1 + 1))

theorem Productive.first {s : ByteStream} (h : Productive s) :
    exists k, (accept? (s.block 32 k)).isSome := by
  have hzero := h 0
  rw [ByteStream.drop_zero] at hzero
  exact hzero

/-! ## Several samples -/

/-- Each of the next `num` samples comes to a draw that is accepted. -/
def Yields : Nat -> ByteStream -> Prop
  | 0, _ => True
  | rest + 1, s =>
      exists h : (exists k, (accept? (s.block 32 k)).isSome),
        Yields rest (s.drop (sample s h).2)

theorem Yields.first {rest : Nat} {s : ByteStream} (h : Yields (rest + 1) s) :
    exists k, (accept? (s.block 32 k)).isSome := by
  cases h with
  | intro hfirst _ => exact hfirst

theorem Yields.rest {rest : Nat} {s : ByteStream} (h : Yields (rest + 1) s) :
    Yields rest (s.drop (sample s h.first).2) := by
  cases h with
  | intro _ hrest => exact hrest

theorem Productive.yields {s : ByteStream} (h : Productive s) (num : Nat) :
    Yields num s := by
  induction num generalizing s with
  | zero => exact True.intro
  | succ rest ih => exact ⟨h.first, ih (h.drop _)⟩

def yielded (num : Nat) (s : ByteStream) (h : Yields num s) : List Scalar :=
  match num, h with
  | 0, _ => []
  | rest + 1, h =>
      let drawn := sample s h.first
      drawn.1 :: yielded rest (s.drop drawn.2) h.rest

def generate (num : Nat) (s : ByteStream) (h : Productive s) : List Scalar :=
  yielded num s (h.yields num)

/-! ## Scripts -/

def onesDraw : Bytes 32 where
  toList := List.replicate 32 1
  length_toList := List.length_replicate

theorem accept?_onesDraw :
    (accept? onesDraw).isSome = true := by
  decide +kernel

theorem block_drop_scripted (l : List UInt8) (i k : Nat)
    (h : l.length <= i + 32 * k) :
    ((ByteStream.scripted l).drop i).block 32 k = onesDraw := by
  apply Bytes.ext
  apply List.eq_replicate_iff.mpr
  constructor
  · exact (((ByteStream.scripted l).drop i).block 32 k).length_toList
  · intro b hb
    cases List.mem_map.mp hb with
    | intro j hj =>
        rw [← hj.2]
        show (ByteStream.scripted l).byteAt (i + (32 * k + j)) = 1
        rw [ByteStream.byteAt_scripted, List.getD_eq_getElem?_getD,
          List.getElem?_eq_none (by omega)]
        rfl

/-- A script is exhausted after finitely many draws, and what follows is accepted. -/
theorem productive_scripted (l : List UInt8) :
    Productive (ByteStream.scripted l) := by
  intro i
  refine ⟨l.length, ?_⟩
  rw [block_drop_scripted l i l.length (by omega)]
  exact accept?_onesDraw

end Scalar
end Edwards25519
