import Mathlib
import Edwards25519.Bytes.Range
import Edwards25519.Scalar.Sampling

/-!
# Sampled scalars

A draw is accepted if it writes, after masking, a number from one up to the order
of the group. A sample is the first accepted draw, so every scalar of a run of
samples lies in this range, whatever the stream.
-/

namespace Edwards25519

theorem firstAccepted_spec {α : Type} (accept? : Nat -> Option α)
    (productive : exists k, (accept? k).isSome) :
    accept? (firstAccepted accept? productive).1 = some (firstAccepted accept? productive).2 ∧
      forall j, j < (firstAccepted accept? productive).1 -> accept? j = none := by
  classical
  rcases Option.isSome_iff_exists.mp (Nat.find_spec productive) with ⟨a, ha⟩
  have hbefore : forall j, j < Nat.find productive -> accept? j = none := by
    intro j hj
    exact Option.not_isSome_iff_eq_none.mp (Nat.find_min productive hj)
  rw [firstAccepted_eq accept? productive ha hbefore]
  exact ⟨ha, hbefore⟩

namespace Scalar

theorem toNat_inj {x y : Scalar} :
    x.toNat = y.toNat <-> x = y := by
  constructor
  · intro h
    cases x
    cases y
    exact congrArg Scalar.mk (Bytes.toNat_inj.mp h)
  · intro h
    rw [h]

theorem isZero_iff (x : Scalar) :
    x.isZero = true <-> x.toNat = 0 := by
  have hzero : zero.toNat = 0 := Bytes.toNat_zero 32
  rw [isZero, decide_eq_true_eq, ← toNat_inj, hzero]

theorem accept?_eq_some_iff (draw : Bytes 32) (x : Scalar) :
    accept? draw = some x <-> mask draw = x ∧ 0 < x.toNat ∧ x.toNat < groupOrder := by
  rw [accept?, Option.ite_none_right_eq_some, Option.some_inj, Bool.and_eq_true,
    Bool.not_eq_true', isCanonical, decide_eq_true_eq]
  constructor
  · intro h
    rcases h with ⟨⟨hlt, hne⟩, rfl⟩
    refine ⟨rfl, Nat.pos_of_ne_zero ?_, hlt⟩
    intro hzero
    rw [(isZero_iff _).mpr hzero] at hne
    cases hne
  · intro h
    rcases h with ⟨rfl, hpos, hlt⟩
    refine ⟨⟨hlt, ?_⟩, rfl⟩
    rw [Bool.eq_false_iff, ne_eq, isZero_iff]
    exact Nat.ne_of_gt hpos

/-! ## One sample and a run of samples -/

theorem sample_range (s : ByteStream) (h : exists k, (accept? (s.block 32 k)).isSome) :
    0 < (sample s h).1.toNat ∧ (sample s h).1.toNat < groupOrder := by
  have haccepted := (firstAccepted_spec (fun k => accept? (s.block 32 k)) h).1
  exact ((accept?_eq_some_iff _ _).mp haccepted).2

theorem length_yielded {num : Nat} {s : ByteStream} (h : Yields num s) :
    (yielded num s h).length = num := by
  induction num generalizing s with
  | zero => rfl
  | succ rest ih =>
      rw [yielded, List.length_cons, ih]

theorem yielded_range {num : Nat} {s : ByteStream} (h : Yields num s) :
    forall x, x ∈ yielded num s h -> 0 < x.toNat ∧ x.toNat < groupOrder := by
  induction num generalizing s with
  | zero =>
      intro x hx
      cases hx
  | succ rest ih =>
      intro x hx
      rw [yielded] at hx
      rcases List.mem_cons.mp hx with rfl | hrest
      · exact sample_range s h.first
      · exact ih h.rest x hrest

end Scalar
end Edwards25519
