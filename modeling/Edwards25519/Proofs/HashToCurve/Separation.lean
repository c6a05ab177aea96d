import Mathlib
import Edwards25519.Proofs.HashToCurve.Layout

/-!
# Separation of expansions

An expansion depends on the suite tag and the context only through the two of them
joined. Beyond that, equal first seeds come from equal requests, unless two of the
strings that are hashed for them collide. The root input alone would not do: where it
ends in the tag and where the message ends can be shifted against each other. The
input of the first block has the tag after a part of fixed length.
-/

namespace Edwards25519
namespace FieldSeed

/-- The strings that are hashed when a request is expanded. -/
inductive Hashes (num : Nat) (suite ctx msg : List UInt8) : List UInt8 -> Prop where
  | root : Hashes num suite ctx msg
      (MessageHash.sha512.rootInput (Expander.ofRequest num suite ctx msg).label msg (size * num))
  | block {f g : Expander} {block : Bytes 64} :
      (Expander.ofRequest num suite ctx msg).Reaches f -> f.next? = some (block, g) ->
      Hashes num suite ctx msg f.input

variable {num num' : Nat} {suite ctx msg suite' ctx' msg' : List UInt8}
variable {seeds seeds' : List FieldSeed}

theorem fits_of_expand (h : expand num suite ctx msg = .ok seeds) :
    Expander.Fits num suite ctx := by
  rw [← Expander.checkRequest_eq_ok_iff]
  cases hcheck : Expander.checkRequest num suite ctx with
  | error e =>
      rw [expand_of_checkRequest_error msg hcheck] at h
      cases h
  | ok _ => rfl

/-! ## Equal requests -/

theorem tag_eq_of_append_eq (h : suite ++ ctx = suite' ++ ctx') :
    Layout.tag suite ctx = Layout.tag suite' ctx' := by
  have hlength := congrArg List.length h
  rw [List.length_append, List.length_append] at hlength
  rw [Layout.tag, Layout.tag, List.append_assoc, List.append_assoc, hlength, h]

theorem stream_eq_of_append_eq (hnum : num <= maxSeeds) (h : suite ++ ctx = suite' ++ ctx') :
    (Expander.ofRequest num suite ctx msg).stream =
      (Expander.ofRequest num suite' ctx' msg).stream := by
  have hblocks : Layout.blocks num suite ctx msg = Layout.blocks num suite' ctx' msg := by
    simp only [Layout.blocks, Layout.secondBlock, Layout.firstBlock, Layout.root,
      tag_eq_of_append_eq h]
  rw [Expander.stream, Expander.stream, blocks_ofRequest msg hnum, blocks_ofRequest msg hnum,
    hblocks]

theorem seeds_eq_of_append_eq (h : expand num suite ctx msg = .ok seeds)
    (h' : expand num suite' ctx' msg = .ok seeds') (hjoined : suite ++ ctx = suite' ++ ctx') :
    seeds = seeds' := by
  have hfits := fits_of_expand h
  rw [expand_of_fits msg hfits, stream_eq_of_append_eq hfits.num_le hjoined] at h
  rw [expand_of_fits msg (fits_of_expand h'), h] at h'
  exact Except.ok.inj h'

/-! ## Equal first seeds -/

theorem next?_ofRequest (hpos : 0 < num) (suite ctx msg : List UInt8) :
    exists f, (Expander.ofRequest num suite ctx msg).next? =
      some (MessageHash.sha512.hash (Expander.ofRequest num suite ctx msg).input, f) := by
  refine ⟨_, Expander.next?_eq_some_iff.mpr ⟨num - 1, ?_, rfl, rfl⟩⟩
  exact (Nat.succ_pred_eq_of_pos hpos).symm

theorem input_ofRequest :
    (Expander.ofRequest num suite ctx msg).input =
      MessageHash.sha512.firstInput (Expander.ofRequest num suite ctx msg).label msg
        (size * num) := by
  rw [MessageHash.firstInput, MessageHash.blockInput, Bytes.xor_zero]
  rfl

theorem toList_first_seed (h : expand num suite ctx msg = .ok seeds) {seed : FieldSeed}
    (hseed : seeds[0]? = some seed) :
    0 < num ∧ seed.bytes.toList =
      (MessageHash.sha512.hash (Expander.ofRequest num suite ctx msg).input).toList.take 48 := by
  have hfits := fits_of_expand h
  rw [expand_of_fits msg hfits] at h
  cases h
  rw [List.getElem?_map] at hseed
  rcases Option.map_eq_some_iff.mp hseed with ⟨i, hi, rfl⟩
  rcases List.getElem?_eq_some_iff.mp hi with ⟨hpos, rfl⟩
  rw [List.length_range] at hpos
  rcases next?_ofRequest hpos suite ctx msg with ⟨f, hnext⟩
  have hblocks : Layout.blocks num suite ctx msg =
      MessageHash.sha512.hash (Expander.ofRequest num suite ctx msg).input :: f.blocks := by
    rw [← blocks_ofRequest msg hfits.num_le, Expander.blocks_of_next? hnext]
  refine ⟨hpos, ?_⟩
  rw [List.getElem_range, toList_ofStream msg hfits.num_le hpos, Layout.seed, hblocks]
  rw [List.flatMap_cons, Nat.mul_zero, List.drop_zero]
  apply List.take_append_of_le_length
  rw [Bytes.length_toList]
  decide

theorem label_inj
    (h : (Expander.ofRequest num suite ctx msg).label =
      (Expander.ofRequest num' suite' ctx' msg').label) :
    suite ++ ctx = suite' ++ ctx' :=
  (List.cons_eq_cons.mp h).2

/--
Equal requests have equal seeds, and equal first seeds come from equal requests or a
collision.
-/
theorem expand_separates (h : expand num suite ctx msg = .ok seeds)
    (h' : expand num' suite' ctx' msg' = .ok seeds') :
    (num = num' -> msg = msg' -> suite ++ ctx = suite' ++ ctx' -> seeds = seeds') ∧
    (forall seed, seeds[0]? = some seed -> seeds'[0]? = some seed ->
      (num = num' ∧ msg = msg' ∧ suite ++ ctx = suite' ++ ctx') ∨
      exists s t, (Hashes num suite ctx msg s ∨ Hashes num' suite' ctx' msg' s) ∧
        (Hashes num suite ctx msg t ∨ Hashes num' suite' ctx' msg' t) ∧
        s ≠ t ∧ (sha512 s).toList.take 48 = (sha512 t).toList.take 48) := by
  constructor
  · intro hnum hmsg hjoined
    subst hnum
    subst hmsg
    exact seeds_eq_of_append_eq h h' hjoined
  · intro seed hseed hseed'
    have hbound := Expander.seedLength_lt (fits_of_expand h).num_le
    have hbound' := Expander.seedLength_lt (fits_of_expand h').num_le
    rcases toList_first_seed h hseed with ⟨hpos, hfirst⟩
    rcases toList_first_seed h' hseed' with ⟨hpos', hfirst'⟩
    rcases next?_ofRequest hpos suite ctx msg with ⟨f, hnext⟩
    rcases next?_ofRequest hpos' suite' ctx' msg' with ⟨f', hnext'⟩
    have hblock := Hashes.block .refl hnext
    have hblock' := Hashes.block .refl hnext'
    rw [hfirst, input_ofRequest, input_ofRequest] at hfirst'
    rw [input_ofRequest] at hblock hblock'
    rcases MessageHash.eq_or_collide_of_first_block MessageHash.sha512 hbound hbound'
      hfirst' with heq | hcollide | hcollide
    · left
      rcases heq with ⟨hlabel, hmsg, hlength⟩
      have hsize : 0 < size := by decide
      exact ⟨Nat.eq_of_mul_eq_mul_left hsize hlength, hmsg, label_inj hlabel⟩
    · right
      exact ⟨_, _, Or.inl .root, Or.inr .root, hcollide.ne, hcollide.take_eq⟩
    · right
      exact ⟨_, _, Or.inl hblock, Or.inr hblock', hcollide.ne, hcollide.take_eq⟩

/-- The hypotheses hold where the suite tag takes over a byte of the context. -/
theorem expand_separates_shifted :
    exists suite ctx suite' ctx' seeds seed, suite ≠ suite' ∧
      expand 1 suite ctx [] = .ok seeds ∧ expand 1 suite' ctx' [] = .ok seeds ∧
      seeds[0]? = some seed ∧
      (suite ++ ctx = suite' ++ ctx' ∨
        exists s t, (Hashes 1 suite ctx [] s ∨ Hashes 1 suite' ctx' [] s) ∧
          (Hashes 1 suite ctx [] t ∨ Hashes 1 suite' ctx' [] t) ∧
          s ≠ t ∧ (sha512 s).toList.take 48 = (sha512 t).toList.take 48) := by
  have hfits : Expander.Fits 1 [97] [98] := ⟨by decide, by decide⟩
  have hfits' : Expander.Fits 1 [97, 98] [] := ⟨by decide, by decide⟩
  have h := expand_of_fits [] hfits
  have h' := expand_of_fits [] hfits'
  rcases expand_separates h h' with ⟨hequal, hfirst⟩
  have hseeds := hequal rfl rfl rfl
  rw [← hseeds] at h' hfirst
  refine ⟨[97], [98], [97, 98], [], _, _, by decide, h, h', rfl, ?_⟩
  rcases hfirst _ rfl rfl with ⟨-, -, hjoined⟩ | hcollide
  · exact Or.inl hjoined
  · exact Or.inr hcollide

end FieldSeed
end Edwards25519
