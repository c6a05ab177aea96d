import Mathlib
import Edwards25519.Proofs.Scalar.Ring

/-!
# The first draw in range

A draw is accepted if the number left without its top three bits lies between zero
and the group order. A sample is the first such draw, without these bits, and takes
no byte after it. A rejected draw only moves the start of the search on. A run of
samples comes to its end exactly if the stream has as many draws in range: zeros have
none, and a stream that ends in bytes of one has one by the time the bytes before them
are used up.
-/

namespace Edwards25519
namespace Scalar

/-! ## Masked draws -/

/-- The draw without the top three bits of its last byte. -/
def clearTopBits (draw : Bytes 32) : Bytes 32 where
  toList := draw.toList.take 31 ++ (draw.toList.drop 31).map (· &&& 0x1f)
  length_toList := by
    rw [List.length_append, List.length_map, ← List.length_append, List.take_append_drop,
      draw.length_toList]

theorem toNat_and_topBits (b : UInt8) :
    (b &&& 0x1f).toNat = b.toNat % 2 ^ 5 := by
  rw [UInt8.toNat_and]
  exact Nat.and_two_pow_sub_one_eq_mod b.toNat 5

theorem natOfDigits_map_topBits (l : List UInt8) (h : l.length = 1) :
    natOfDigits (l.map (· &&& 0x1f)) = natOfDigits l % 2 ^ 5 := by
  rcases List.length_eq_one_iff.mp h with ⟨b, rfl⟩
  simp only [List.map_cons, List.map_nil, natOfDigits, Nat.mul_zero, Nat.add_zero]
  exact toNat_and_topBits b

theorem length_take_draw (draw : Bytes 32) :
    (draw.toList.take 31).length = 31 := by
  rw [List.length_take, draw.length_toList]
  rfl

theorem toNat_eq_take_add (draw : Bytes 32) :
    draw.toNat = natOfDigits (draw.toList.take 31) +
      256 ^ 31 * natOfDigits (draw.toList.drop 31) := by
  have h := natOfDigits_append (draw.toList.take 31) (draw.toList.drop 31)
  rw [List.take_append_drop, length_take_draw] at h
  rw [Bytes.toNat]
  exact h

theorem toNat_clearTopBits_eq_take_add (draw : Bytes 32) :
    (clearTopBits draw).toNat = natOfDigits (draw.toList.take 31) +
      256 ^ 31 * (natOfDigits (draw.toList.drop 31) % 2 ^ 5) := by
  have hlast : (draw.toList.drop 31).length = 1 := by
    rw [List.length_drop, draw.length_toList]
  have h := natOfDigits_append (draw.toList.take 31) ((draw.toList.drop 31).map (· &&& 0x1f))
  rw [length_take_draw, natOfDigits_map_topBits _ hlast] at h
  rw [Bytes.toNat]
  exact h

theorem toNat_clearTopBits (draw : Bytes 32) :
    (clearTopBits draw).toNat = draw.toNat % 2 ^ 253 := by
  have hlow := natOfDigits_lt (draw.toList.take 31)
  have hpower : (2 : Nat) ^ 253 = 256 ^ 31 * 2 ^ 5 := by norm_num
  rw [length_take_draw] at hlow
  rw [toNat_clearTopBits_eq_take_add, toNat_eq_take_add, hpower, add_mul_mod_mul hlow]

theorem mask_eq (draw : Bytes 32) :
    mask draw = { bytes := clearTopBits draw } := by
  rw [mask, ← Bytes.ofNat_toNat (clearTopBits draw), toNat_clearTopBits]
  rfl

/-! ## Accepted draws -/

/-- The number of the draw after `k` others, without its top three bits. -/
def maskedNumber (s : ByteStream) (k : Nat) : Nat :=
  (clearTopBits (s.block 32 k)).toNat

def IsSampled (v : Nat) : Prop :=
  0 < v ∧ v < groupOrder

instance (v : Nat) : Decidable (IsSampled v) :=
  inferInstanceAs (Decidable (_ ∧ _))

theorem accept?_eq_some_iff_isSampled (draw : Bytes 32) (x : Scalar) :
    accept? draw = some x <->
      x = { bytes := clearTopBits draw } ∧ IsSampled (clearTopBits draw).toNat := by
  rw [accept?_eq_some_iff, mask_eq]
  constructor
  · intro h
    rcases h with ⟨rfl, hrange⟩
    exact ⟨rfl, hrange⟩
  · intro h
    rcases h with ⟨rfl, hrange⟩
    exact ⟨rfl, hrange⟩

theorem accept?_of_isSampled {draw : Bytes 32} (h : IsSampled (clearTopBits draw).toNat) :
    accept? draw = some { bytes := clearTopBits draw } :=
  (accept?_eq_some_iff_isSampled draw _).mpr ⟨rfl, h⟩

theorem accept?_eq_none_iff (draw : Bytes 32) :
    accept? draw = none <-> ¬ IsSampled (clearTopBits draw).toNat := by
  constructor
  · intro hnone hrange
    rw [accept?_of_isSampled hrange] at hnone
    cases hnone
  · intro hrange
    cases h : accept? draw with
    | none => rfl
    | some x => exact absurd ((accept?_eq_some_iff_isSampled draw x).mp h).2 hrange

/-! ## The first accepted draw -/

structure IsFirstSampled (s : ByteStream) (k : Nat) : Prop where
  isSampled : IsSampled (maskedNumber s k)
  before : forall j, j < k -> ¬ IsSampled (maskedNumber s j)

instance (s : ByteStream) (k : Nat) : Decidable (IsFirstSampled s k) :=
  decidable_of_iff
    (IsSampled (maskedNumber s k) ∧ forall j, j < k -> ¬ IsSampled (maskedNumber s j))
    ⟨fun h => ⟨h.1, h.2⟩, fun h => ⟨h.isSampled, h.before⟩⟩

variable {s : ByteStream} {k : Nat}

theorem IsFirstSampled.productive (hk : IsFirstSampled s k) :
    exists j, (accept? (s.block 32 j)).isSome :=
  ⟨k, Option.isSome_of_eq_some (accept?_of_isSampled hk.isSampled)⟩

theorem sample_of_isFirstSampled (hk : IsFirstSampled s k)
    (h : exists j, (accept? (s.block 32 j)).isSome) :
    sample s h = ({ bytes := clearTopBits (s.block 32 k) }, 32 * (k + 1)) := by
  have hbefore : forall j, j < k -> accept? (s.block 32 j) = none := by
    intro j hj
    exact (accept?_eq_none_iff _).mpr (hk.before j hj)
  rw [sample, firstAccepted_eq (fun j => accept? (s.block 32 j)) h
    (accept?_of_isSampled hk.isSampled) hbefore]

theorem exists_isFirstSampled_le (hk : IsSampled (maskedNumber s k)) :
    exists j, j <= k ∧ IsFirstSampled s j := by
  have hexists : exists j, IsSampled (maskedNumber s j) := ⟨k, hk⟩
  exact ⟨Nat.find hexists, Nat.find_min' hexists hk, Nat.find_spec hexists,
    fun j hj => Nat.find_min hexists hj⟩

theorem exists_isFirstSampled (h : exists j, (accept? (s.block 32 j)).isSome) :
    exists j, IsFirstSampled s j := by
  rcases h with ⟨k, hk⟩
  rcases Option.isSome_iff_exists.mp hk with ⟨x, hx⟩
  rcases exists_isFirstSampled_le ((accept?_eq_some_iff_isSampled _ x).mp hx).2 with ⟨j, -, hj⟩
  exact ⟨j, hj⟩

/-! ## One round of the search -/

theorem block_drop_mul (s : ByteStream) (n j k : Nat) :
    (s.drop (n * j)).block n k = s.block n (j + k) := by
  rw [ByteStream.block, ByteStream.block, ByteStream.drop_drop, Nat.mul_add]

theorem block_drop (s : ByteStream) (n k : Nat) :
    (s.drop n).block n k = s.block n (k + 1) := by
  have h := block_drop_mul s n 1 k
  rw [Nat.mul_one, Nat.add_comm] at h
  exact h

theorem IsFirstSampled.of_drop (hfirst : ¬ IsSampled (maskedNumber s 0))
    (hk : IsFirstSampled (s.drop 32) k) :
    IsFirstSampled s (k + 1) := by
  have hmasked : forall j, maskedNumber (s.drop 32) j = maskedNumber s (j + 1) := by
    intro j
    rw [maskedNumber, maskedNumber, block_drop]
  constructor
  · rw [← hmasked]
    exact hk.isSampled
  · intro j hj
    cases j with
    | zero => exact hfirst
    | succ j =>
        rw [← hmasked]
        exact hk.before j (Nat.lt_of_succ_lt_succ hj)

/-- After a rejected draw the sample is that of the rest of the stream. -/
theorem sample_of_rejected (hfirst : ¬ IsSampled (maskedNumber s 0))
    (h : exists j, (accept? (s.block 32 j)).isSome)
    (h' : exists j, (accept? ((s.drop 32).block 32 j)).isSome) :
    sample s h = ((sample (s.drop 32) h').1, 32 + (sample (s.drop 32) h').2) := by
  rcases exists_isFirstSampled h' with ⟨k, hk⟩
  rw [sample_of_isFirstSampled hk h', sample_of_isFirstSampled (hk.of_drop hfirst) h, block_drop,
    Nat.mul_succ 32 (k + 1), Nat.add_comm 32]

/-! ## Runs of samples -/

def sampledCount (s : ByteStream) (n : Nat) : Nat :=
  Nat.count (fun k => IsSampled (maskedNumber s k)) n

theorem exists_isSampled_of_sampledCount_pos {n : Nat} (h : 0 < sampledCount s n) :
    exists k, k < n ∧ IsSampled (maskedNumber s k) := by
  by_contra hnone
  have hrejected : forall k, k < n -> ¬ IsSampled (maskedNumber s k) := by
    intro k hk hsampled
    exact hnone ⟨k, hk, hsampled⟩
  rw [sampledCount, Nat.count_of_forall_not hrejected] at h
  exact Nat.lt_irrefl 0 h

/-- The draws after the first one in range are those of the stream that its sample leaves. -/
theorem sampledCount_of_isFirstSampled (hk : IsFirstSampled s k) (m : Nat) :
    sampledCount s (k + 1 + m) = 1 + sampledCount (s.drop (32 * (k + 1))) m := by
  have hfirst : Nat.count (fun j => IsSampled (maskedNumber s j)) (k + 1) = 1 := by
    rw [Nat.count_succ, Nat.count_of_forall_not hk.before, if_pos hk.isSampled]
  have hmasked : forall j, maskedNumber (s.drop (32 * (k + 1))) j = maskedNumber s (k + 1 + j) := by
    intro j
    rw [maskedNumber, maskedNumber, block_drop_mul]
  simp only [sampledCount, Nat.count_add, hfirst, hmasked]

theorem yields_succ_iff (hk : IsFirstSampled s k) (rest : Nat) :
    Yields (rest + 1) s <-> Yields rest (s.drop (32 * (k + 1))) := by
  have hdrawn : (sample s hk.productive).2 = 32 * (k + 1) := by
    rw [sample_of_isFirstSampled hk]
  constructor
  · intro h
    have hrest := h.rest
    rw [hdrawn] at hrest
    exact hrest
  · intro h
    refine ⟨hk.productive, ?_⟩
    rw [hdrawn]
    exact h

/-- A run comes to its end exactly if the stream has as many draws in range as it takes. -/
theorem yields_iff_le_sampledCount (num : Nat) (s : ByteStream) :
    Yields num s <-> exists n, num <= sampledCount s n := by
  induction num generalizing s with
  | zero => exact ⟨fun _ => ⟨0, Nat.zero_le _⟩, fun _ => True.intro⟩
  | succ rest ih =>
      constructor
      · intro h
        rcases exists_isFirstSampled h.first with ⟨k, hk⟩
        rcases (ih _).mp ((yields_succ_iff hk rest).mp h) with ⟨m, hm⟩
        refine ⟨k + 1 + m, ?_⟩
        rw [sampledCount_of_isFirstSampled hk]
        omega
      · intro h
        rcases h with ⟨n, hn⟩
        rcases exists_isSampled_of_sampledCount_pos (Nat.lt_of_lt_of_le rest.succ_pos hn) with
          ⟨i, hi, hsampled⟩
        rcases exists_isFirstSampled_le hsampled with ⟨k, hle, hk⟩
        have hlt : k + 1 <= n := Nat.lt_of_le_of_lt hle hi
        rcases Nat.exists_eq_add_of_le hlt with ⟨m, rfl⟩
        rw [sampledCount_of_isFirstSampled hk] at hn
        rw [yields_succ_iff hk, ih]
        exact ⟨m, by omega⟩

/-! ## Streams without a draw in range -/

theorem maskedNumber_zeros (k : Nat) :
    maskedNumber ByteStream.zeros k = 0 := by
  have hblock : ByteStream.zeros.block 32 k = Bytes.zero 32 := by
    apply Bytes.ext
    exact List.map_const'
  rw [maskedNumber, hblock, toNat_clearTopBits, Bytes.toNat_zero, Nat.zero_mod]

theorem accept?_zeros (k : Nat) :
    accept? (ByteStream.zeros.block 32 k) = none := by
  rw [accept?_eq_none_iff]
  intro h
  exact Nat.ne_of_gt h.1 (maskedNumber_zeros k)

theorem not_yields_zeros (rest : Nat) :
    ¬ Yields (rest + 1) ByteStream.zeros := by
  intro h
  rcases h.first with ⟨k, hk⟩
  rw [accept?_zeros] at hk
  cases hk

/-! ## Streams that end in ones -/

theorem eq_scripted {l : List UInt8} (h : forall i, s.byteAt i = l.getD i 1) :
    s = ByteStream.scripted l := by
  cases s with
  | mk byteAt =>
      congr
      funext i
      exact (h i).trans (ByteStream.byteAt_scripted l i).symm

theorem isSampled_of_ones {l : List UInt8} (h : forall i, s.byteAt i = l.getD i 1)
    (hk : l.length <= 32 * k) :
    IsSampled (maskedNumber s k) := by
  have hblock : s.block 32 k = onesDraw := by
    have hdrop := block_drop_scripted l 0 k (by omega)
    rw [ByteStream.drop_zero] at hdrop
    rw [eq_scripted h, hdrop]
  rcases Option.isSome_iff_exists.mp accept?_onesDraw with ⟨x, hx⟩
  rw [maskedNumber, hblock]
  exact ((accept?_eq_some_iff_isSampled onesDraw x).mp hx).2

/-- The sample is the first draw in range, whatever came before it, and ones bring one about. -/
theorem sample_first_draw (s : ByteStream) (l : List UInt8) :
    (forall k, IsFirstSampled s k ->
      exists h, sample s h = ({ bytes := clearTopBits (s.block 32 k) }, 32 * (k + 1))) ∧
    (forall h, (sample s h).1.isCanonical = true ∧ (sample s h).1.isZero = false ∧
      exists k, IsFirstSampled s k) ∧
    (¬ IsSampled (maskedNumber s 0) -> forall h h',
      sample s h = ((sample (s.drop 32) h').1, 32 + (sample (s.drop 32) h').2)) ∧
    ((forall i, s.byteAt i = l.getD i 1) ->
      exists k, k <= (l.length + 31) / 32 ∧ IsFirstSampled s k) := by
  refine ⟨?_, ?_, sample_of_rejected, ?_⟩
  · intro k hk
    exact ⟨hk.productive, sample_of_isFirstSampled hk hk.productive⟩
  · intro h
    rcases sample_range s h with ⟨hpos, hlt⟩
    refine ⟨(isCanonical_iff _).mpr hlt, ?_, exists_isFirstSampled h⟩
    rw [Bool.eq_false_iff, ne_eq, isZero_iff]
    exact Nat.ne_of_gt hpos
  · intro hones
    exact exists_isFirstSampled_le (isSampled_of_ones hones (by omega))

/-- A draw above the order, one that is zero once it is masked, and the start of a third. -/
def twoRejected : List UInt8 :=
  List.replicate 32 0xff ++ List.replicate 31 0 ++ [0xe0] ++ List.replicate 5 7

/-- The hypotheses hold where the accepted draw begins in the script and ends after it. -/
theorem sample_first_draw_twoRejected :
    IsFirstSampled (ByteStream.scripted twoRejected) 2 ∧
    ¬ IsSampled (maskedNumber (ByteStream.scripted twoRejected) 0) ∧
    (exists h, sample (ByteStream.scripted twoRejected) h =
      ({ bytes := clearTopBits ((ByteStream.scripted twoRejected).block 32 2) }, 96)) ∧
    (exists h h', sample (ByteStream.scripted twoRejected) h =
      ((sample ((ByteStream.scripted twoRejected).drop 32) h').1,
        32 + (sample ((ByteStream.scripted twoRejected).drop 32) h').2)) ∧
    (exists k, k <= (twoRejected.length + 31) / 32 ∧
      IsFirstSampled (ByteStream.scripted twoRejected) k) := by
  have hfirst : IsFirstSampled (ByteStream.scripted twoRejected) 2 := by decide +kernel
  have hrejected := hfirst.before 0 (by decide)
  have hproductive := productive_scripted twoRejected
  rcases sample_first_draw (ByteStream.scripted twoRejected) twoRejected with
    ⟨hsample, -, hround, hones⟩
  refine ⟨hfirst, hrejected, hsample 2 hfirst, ?_, hones (ByteStream.byteAt_scripted twoRejected)⟩
  exact ⟨hproductive.first, (hproductive.drop 32).first, hround hrejected _ _⟩

end Scalar
end Edwards25519
