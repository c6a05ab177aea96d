import Mathlib
import Edwards25519.Proofs.Hash.Expansion
import Edwards25519.Proofs.Ristretto.Hash

/-!
# Separation of expansions under a context

The first 32 bytes of an output are one whole digest. Where they agree, the two runs
have the length, the message and the effective tag in common, or two of the strings
hashed in them collide. The length is among what is hashed, so the expansions for
elements and for scalars are separated as well. The effective tag gives the context
back, except that a context that is too long shares it with its own digest.
-/

namespace Edwards25519
namespace Ristretto

/-! ## The strings that are hashed -/

inductive Expansion.Reaches {length : Nat} (e : Expansion length) : Expansion length -> Prop where
  | refl : Reaches e e
  | next {f g : Expansion length} : Reaches e f -> f.next? = some g -> Reaches e g

/-- The strings that are hashed when a message is expanded. -/
inductive Hashes (length : Nat) (ctx msg : List UInt8) : List UInt8 -> Prop where
  | context : 255 < ctx.length -> Hashes length ctx msg (oversizeMarker ++ ctx)
  | root : Hashes length ctx msg (MessageHash.sha256.rootInput (label ctx) msg length)
  | block {e f : Expansion length} :
      (Expansion.start length ctx msg).Reaches e -> e.next? = some f ->
      Hashes length ctx msg e.input

variable {length length' : Nat} {ctx msg ctx' msg' : List UInt8}

theorem input_start (length : Nat) (ctx msg : List UInt8) :
    (Expansion.start length ctx msg).input =
      MessageHash.sha256.firstInput (label ctx) msg length := by
  rw [Expansion.input, Bytes.xor_comm]
  rfl

theorem hashes_first (hpos : 0 < length) (ctx msg : List UInt8) :
    Hashes length ctx msg (MessageHash.sha256.firstInput (label ctx) msg length) := by
  rw [← input_start]
  exact .block .refl (Expansion.next?_eq_some_iff.mpr ⟨hpos, rfl⟩)

/-! ## Equal outputs -/

theorem take_expandMessage (h : 32 <= length) (ctx msg : List UInt8) :
    (expandMessage length ctx msg).toList.take 32 =
      (sha256 (MessageHash.sha256.firstInput (label ctx) msg length)).toList.take 32 := by
  have hcount : length <= 32 * length := Nat.le_mul_of_pos_left length (by decide)
  have hone : 1 <= length := Nat.le_trans (by decide) h
  rw [toList_expandMessage hcount, List.take_take, Nat.min_eq_left h,
    Layout.take_blocks length ctx msg (Nat.le_refl 32) hone, Layout.blocks_succ, ← input_start,
    (Expansion.written_start length ctx msg).hash_input]
  rfl

/-- The last byte of a label is the length of the tag, and the tag is what is before it. -/
theorem effectiveTag_eq_of_label_eq (h : label ctx = label ctx') :
    effectiveTag ctx = effectiveTag ctx' :=
  (List.append_inj' h rfl).1

theorem sha256_eq_of_collide {s t : List UInt8} (h : MessageHash.sha256.Collide 32 s t) :
    sha256 s = sha256 t := by
  have htake := h.take_eq
  rw [List.take_of_length_le (Nat.le_of_eq (Bytes.length_toList _)),
    List.take_of_length_le (Nat.le_of_eq (Bytes.length_toList _))] at htake
  exact Bytes.ext htake

theorem eq_or_collide_of_take_eq (hlength : 32 <= length) (hlength' : 32 <= length')
    (hbound : length < 256 ^ 2) (hbound' : length' < 256 ^ 2)
    (h : (expandMessage length ctx msg).toList.take 32 =
      (expandMessage length' ctx' msg').toList.take 32) :
    (length = length' ∧ msg = msg' ∧ effectiveTag ctx = effectiveTag ctx') ∨
      exists s t, Hashes length ctx msg s ∧ Hashes length' ctx' msg' t ∧
        s ≠ t ∧ sha256 s = sha256 t := by
  rw [take_expandMessage hlength, take_expandMessage hlength'] at h
  rcases MessageHash.eq_or_collide_of_first_block MessageHash.sha256 hbound hbound' h with
    heq | hcollide | hcollide
  · left
    rcases heq with ⟨hlabel, hmsg, heq⟩
    exact ⟨heq, hmsg, effectiveTag_eq_of_label_eq hlabel⟩
  · right
    exact ⟨_, _, .root, .root, hcollide.ne, sha256_eq_of_collide hcollide⟩
  · right
    exact ⟨_, _, hashes_first (Nat.lt_of_lt_of_le (by decide) hlength) ctx msg,
      hashes_first (Nat.lt_of_lt_of_le (by decide) hlength') ctx' msg',
      hcollide.ne, sha256_eq_of_collide hcollide⟩

/-! ## Equal tags -/

theorem eq_or_shortened_of_effectiveTag_eq (h : effectiveTag ctx = effectiveTag ctx') :
    ctx = ctx' ∨
      (255 < ctx.length ∧ ctx' = shortened ctx) ∨
      (255 < ctx'.length ∧ ctx = shortened ctx') ∨
      (255 < ctx.length ∧ 255 < ctx'.length ∧
        oversizeMarker ++ ctx ≠ oversizeMarker ++ ctx' ∧
        sha256 (oversizeMarker ++ ctx) = sha256 (oversizeMarker ++ ctx')) := by
  rcases Nat.lt_or_ge 255 ctx.length with hlong | hshort
  · rcases Nat.lt_or_ge 255 ctx'.length with hlong' | hshort'
    · rw [effectiveTag_of_long hlong, effectiveTag_of_long hlong'] at h
      by_cases heq : ctx = ctx'
      · exact Or.inl heq
      · have hne : oversizeMarker ++ ctx ≠ oversizeMarker ++ ctx' := by
          intro hjoined
          exact heq (List.append_cancel_left hjoined)
        have hdigest : sha256 (oversizeMarker ++ ctx) = sha256 (oversizeMarker ++ ctx') := by
          rw [oversizeMarker_eq]
          exact Bytes.ext h
        exact Or.inr (Or.inr (Or.inr ⟨hlong, hlong', hne, hdigest⟩))
    · rw [effectiveTag_of_long hlong, effectiveTag_of_short hshort'] at h
      exact Or.inr (Or.inl ⟨hlong, h.symm⟩)
  · rcases Nat.lt_or_ge 255 ctx'.length with hlong' | hshort'
    · rw [effectiveTag_of_short hshort, effectiveTag_of_long hlong'] at h
      exact Or.inr (Or.inr (Or.inl ⟨hlong', h⟩))
    · rw [effectiveTag_of_short hshort, effectiveTag_of_short hshort'] at h
      exact Or.inl h

/--
Equal beginnings come from equal runs or a collision, and equal tags from equal contexts,
a context and its digest, or a collision.
-/
theorem expandMessage_separates (hlength : 32 <= length) (hlength' : 32 <= length')
    (hbound : length < 65536) (hbound' : length' < 65536) (ctx msg ctx' msg' : List UInt8) :
    ((expandMessage length ctx msg).toList.take 32 =
        (expandMessage length' ctx' msg').toList.take 32 ->
      (length = length' ∧ msg = msg' ∧ effectiveTag ctx = effectiveTag ctx') ∨
      exists s t, (Hashes length ctx msg s ∨ Hashes length' ctx' msg' s) ∧
        (Hashes length ctx msg t ∨ Hashes length' ctx' msg' t) ∧
        s ≠ t ∧ sha256 s = sha256 t) ∧
    (effectiveTag ctx = effectiveTag ctx' ->
      ctx = ctx' ∨
      (255 < ctx.length ∧ ctx' = shortened ctx) ∨
      (255 < ctx'.length ∧ ctx = shortened ctx') ∨
      (255 < ctx.length ∧ 255 < ctx'.length ∧
        oversizeMarker ++ ctx ≠ oversizeMarker ++ ctx' ∧
        sha256 (oversizeMarker ++ ctx) = sha256 (oversizeMarker ++ ctx'))) := by
  refine ⟨?_, eq_or_shortened_of_effectiveTag_eq⟩
  intro h
  rcases eq_or_collide_of_take_eq hlength hlength' hbound hbound' h with heq | hcollide
  · exact Or.inl heq
  · rcases hcollide with ⟨s, t, hs, ht, hne, hdigest⟩
    exact Or.inr ⟨s, t, Or.inl hs, Or.inr ht, hne, hdigest⟩

theorem expandMessage_separates_shortened :
    exists ctx, 255 < ctx.length ∧
      (expandMessage 48 ctx []).toList.take 32 =
        (expandMessage 48 (shortened ctx) []).toList.take 32 ∧
      (effectiveTag ctx = effectiveTag (shortened ctx) ∨
        exists s t, (Hashes 48 ctx [] s ∨ Hashes 48 (shortened ctx) [] s) ∧
          (Hashes 48 ctx [] t ∨ Hashes 48 (shortened ctx) [] t) ∧ s ≠ t ∧ sha256 s = sha256 t) := by
  have hlong : 255 < (List.replicate 256 (97 : UInt8)).length := by
    rw [List.length_replicate]
    decide
  have hequal : (expandMessage 48 (List.replicate 256 97) []).toList.take 32 =
      (expandMessage 48 (shortened (List.replicate 256 97)) []).toList.take 32 := by
    rw [expandMessage_of_long 48 hlong]
  have hlength : 32 <= 48 := by decide
  have hbound : 48 < 65536 := by decide
  rcases expandMessage_separates hlength hlength hbound hbound
    (List.replicate 256 97) [] (shortened (List.replicate 256 97)) [] with ⟨hseparates, -⟩
  refine ⟨_, hlong, hequal, ?_⟩
  rcases hseparates hequal with ⟨-, -, htag⟩ | hcollide
  · exact Or.inl htag
  · exact Or.inr hcollide

end Ristretto
end Edwards25519
