import Mathlib
import Edwards25519.Bytes.Range
import Edwards25519.Hash.Expansion

/-!
# Chains of blocks

A shorter chain is the beginning of a longer one. The strings that are hashed on the
way can be taken apart again: a block input into the mixed root, the counter and the
label, and then the root input, with its label known, into the message and the length.
The first blocks of two chains are therefore different, unless the chains have
everything in common or the hash function maps two different strings to one digest.
-/

namespace Edwards25519
namespace MessageHash

variable {n : Nat} (H : MessageHash n)

theorem take_blocksAfter (label : List UInt8) (root : Bytes n) {m count : Nat}
    (h : m <= count) (done : UInt8) (previous : Bytes n) :
    (H.blocksAfter label root count done previous).take m =
      H.blocksAfter label root m done previous := by
  induction m generalizing count done previous with
  | zero => rfl
  | succ m ih =>
      cases count with
      | zero => cases h
      | succ count =>
          rw [blocksAfter, List.take_succ_cons, ih (Nat.le_of_succ_le_succ h)]
          rfl

/-! ## Taking inputs apart -/

theorem blockInput_inj {label label' : List UInt8} {root root' : Bytes n}
    {previous previous' : Bytes n} {counter counter' : UInt8}
    (h : blockInput label root previous counter = blockInput label' root' previous' counter') :
    root.xor previous = root'.xor previous' ∧ counter = counter' ∧ label = label' := by
  have hlength : (root.xor previous).toList.length = (root'.xor previous').toList.length := by
    rw [Bytes.length_toList, Bytes.length_toList]
  rcases List.append_inj h hlength with ⟨hmixed, htail⟩
  rcases List.cons_eq_cons.mp htail with ⟨hcounter, hlabel⟩
  exact ⟨Bytes.ext hmixed, hcounter, hlabel⟩

/-- With the label known, the parts after the message have fixed lengths. -/
theorem rootInput_inj {label msg msg' : List UInt8} {length length' : Nat}
    (hlength : length < 256 ^ 2) (hlength' : length' < 256 ^ 2)
    (h : H.rootInput label msg length = H.rootInput label msg' length') :
    msg = msg' ∧ length = length' := by
  have hprefix := List.append_cancel_right h
  have hsizes :
      (Bytes.ofNatBE 2 length).toList.length = (Bytes.ofNatBE 2 length').toList.length := by
    rw [Bytes.length_toList, Bytes.length_toList]
  rcases List.append_inj' hprefix hsizes with ⟨hmsg, hdigits⟩
  refine ⟨List.append_cancel_left hmsg, ?_⟩
  rw [← Bytes.toNatBE_ofNatBE hlength, ← Bytes.toNatBE_ofNatBE hlength', Bytes.ext hdigits]

/-! ## First blocks -/

/-- Two different strings whose digests agree on their first `k` bytes. -/
structure Collide (k : Nat) (s t : List UInt8) : Prop where
  ne : s ≠ t
  take_eq : (H.hash s).toList.take k = (H.hash t).toList.take k

def firstInput (label msg : List UInt8) (length : Nat) : List UInt8 :=
  blockInput label (H.root label msg length) (Bytes.zero n) 1

theorem eq_or_collide_of_first_block {label label' msg msg' : List UInt8} {length length' : Nat}
    {k : Nat} (hlength : length < 256 ^ 2) (hlength' : length' < 256 ^ 2)
    (h : (H.hash (H.firstInput label msg length)).toList.take k =
      (H.hash (H.firstInput label' msg' length')).toList.take k) :
    (label = label' ∧ msg = msg' ∧ length = length') ∨
      H.Collide k (H.rootInput label msg length) (H.rootInput label' msg' length') ∨
      H.Collide k (H.firstInput label msg length) (H.firstInput label' msg' length') := by
  -- The first block is taken apart before the root: a root input alone does not say
  -- where its message ends, and only the label of the block fixes that.
  by_cases hfirst : H.firstInput label msg length = H.firstInput label' msg' length'
  · rcases blockInput_inj hfirst with ⟨hroot, -, rfl⟩
    rw [Bytes.xor_zero, Bytes.xor_zero] at hroot
    by_cases hinput : H.rootInput label msg length = H.rootInput label msg' length'
    · exact Or.inl ⟨rfl, H.rootInput_inj hlength hlength' hinput⟩
    · right
      left
      exact ⟨hinput, congrArg (fun b => b.toList.take k) hroot⟩
  · right
    right
    exact ⟨hfirst, h⟩

end MessageHash
end Edwards25519
