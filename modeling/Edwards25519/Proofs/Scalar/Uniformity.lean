import Mathlib
import Edwards25519.Proofs.Scalar.FirstDraw

/-!
# Uniform samples

A draw is made of three bits that are cleared and of the number below `2 ^ 253` that is
left without them. So every such number is left by eight draws, and the numbers that are
accepted by equally many: a sample favours no scalar. Since the group order is above
`2 ^ 252`, more than half of all draws are accepted.
-/

namespace Edwards25519
namespace Scalar

/-! ## The parts of a draw -/

theorem two_pow_split :
    256 ^ 32 = 8 * 2 ^ 253 := by
  norm_num

/-- A draw as the number left without its top three bits and the number in these bits. -/
def splitDraw : Bytes 32 ≃ Fin (2 ^ 253) × Fin 8 :=
  (Bytes.equivFin 32).trans
    ((finCongr two_pow_split).trans (finProdFinEquiv.symm.trans (Equiv.prodComm _ _)))

theorem splitDraw_fst (draw : Bytes 32) :
    ((splitDraw draw).1 : Nat) = (clearTopBits draw).toNat := by
  rw [toNat_clearTopBits]
  rfl

/-- A condition on the number that is left holds for eight draws whenever it holds for a number. -/
theorem card_clearTopBits {p : Nat -> Prop} (hp : forall v, p v -> v < 2 ^ 253) :
    Nat.card {draw : Bytes 32 // p (clearTopBits draw).toNat} = 8 * Nat.card {v // p v} := by
  have hsplit : {draw : Bytes 32 // p (clearTopBits draw).toNat} ≃
      {parts : Fin (2 ^ 253) × Fin 8 // p parts.1} :=
    splitDraw.subtypeEquiv fun draw => by rw [splitDraw_fst]
  have hparts : {parts : Fin (2 ^ 253) × Fin 8 // p parts.1} ≃
      {v : Fin (2 ^ 253) // p v} × Fin 8 :=
    Equiv.prodSubtypeFstEquivSubtypeProd (p := fun v : Fin (2 ^ 253) => p v)
  have hnumbers : {v : Fin (2 ^ 253) // p v} ≃ {v // p v} :=
    (Fin.equivSubtype.subtypeEquiv fun _ => Iff.rfl).trans
      (Equiv.subtypeSubtypeEquivSubtype (hp _))
  rw [Nat.card_congr (hsplit.trans hparts), Nat.card_prod, Nat.card_congr hnumbers, Nat.card_fin,
    Nat.mul_comm]

/-! ## Counting draws -/

theorem IsSampled.lt_two_pow {v : Nat} (h : IsSampled v) :
    v < 2 ^ 253 :=
  lt_trans h.2 (by decide)

theorem card_isSampled :
    Nat.card {v // IsSampled v} = groupOrder - 1 := by
  have hcard : Nat.card (Set.Ioo 0 groupOrder) = groupOrder - 0 - 1 := by
    rw [Nat.card_eq_fintype_card, Fintype.card_Ioo, Nat.card_Ioo]
  exact hcard

theorem isSome_accept?_iff (draw : Bytes 32) :
    (accept? draw).isSome = true <-> IsSampled (clearTopBits draw).toNat := by
  rw [Option.isSome_iff_ne_none, ne_eq, accept?_eq_none_iff, not_not]

theorem card_accepted :
    Nat.card {draw : Bytes 32 // (accept? draw).isSome = true} = 8 * (groupOrder - 1) := by
  rw [Nat.card_congr (Equiv.subtypeEquivRight isSome_accept?_iff),
    card_clearTopBits fun _ => IsSampled.lt_two_pow, card_isSampled]

theorem accept?_eq_some_iff_toNat {x : Scalar} (hx : IsSampled x.toNat) (draw : Bytes 32) :
    accept? draw = some x <-> (clearTopBits draw).toNat = x.toNat := by
  rw [accept?_eq_some_iff_isSampled, eq_comm, ← toNat_inj]
  constructor
  · intro h
    exact h.1
  · intro h
    refine ⟨h, ?_⟩
    rw [h]
    exact hx

theorem card_yielding {x : Scalar} (hx : IsSampled x.toNat) :
    Nat.card {draw : Bytes 32 // accept? draw = some x} = 8 := by
  have hnumber : forall v, v = x.toNat -> v < 2 ^ 253 := by
    intro v hv
    rw [hv]
    exact hx.lt_two_pow
  rw [Nat.card_congr (Equiv.subtypeEquivRight (accept?_eq_some_iff_toNat hx)),
    card_clearTopBits hnumber, Nat.card_unique]

/-! ## One round -/

theorem accept?_eq_some_iff_sample (s : ByteStream) (x : Scalar) :
    accept? (s.block 32 0) = some x <-> exists h, sample s h = (x, 32) := by
  constructor
  · intro haccept
    rcases (accept?_eq_some_iff_isSampled _ x).mp haccept with ⟨rfl, hrange⟩
    have hfirst : IsFirstSampled s 0 :=
      { isSampled := hrange, before := fun j hj => absurd hj (Nat.not_lt_zero j) }
    exact ⟨hfirst.productive, sample_of_isFirstSampled hfirst _⟩
  · intro h
    rcases h with ⟨h, hsample⟩
    rcases exists_isFirstSampled h with ⟨k, hk⟩
    rw [sample_of_isFirstSampled hk h, Prod.mk.injEq] at hsample
    rcases hsample with ⟨rfl, htaken⟩
    have hzero : k = 0 := by omega
    rw [hzero] at hk ⊢
    exact accept?_of_isSampled hk.isSampled

/-- Eight draws yield each scalar, and more than half of all draws are accepted. -/
theorem accepted_draws_uniform (draw : Bytes 32) (x : Scalar) :
    Nat.card (Bytes 32) = 2 ^ 256 ∧
    (forall s : ByteStream, s.block 32 0 = draw ->
      (accept? draw = some x <-> exists h, sample s h = (x, 32))) ∧
    (0 < x.toNat -> x.toNat < groupOrder ->
      Nat.card {b : Bytes 32 // accept? b = some x} = 8) ∧
    (accept? draw = none <->
      (clearTopBits draw).toNat = 0 ∨ groupOrder <= (clearTopBits draw).toNat) ∧
    Nat.card {b : Bytes 32 // (accept? b).isSome = true} = 8 * (groupOrder - 1) ∧
    2 ^ 255 < 8 * (groupOrder - 1) := by
  refine ⟨?_, ?_, fun hpos hlt => card_yielding ⟨hpos, hlt⟩, ?_, card_accepted, by decide⟩
  · rw [Bytes.card_eq]
    norm_num
  · intro s hs
    rw [← hs]
    exact accept?_eq_some_iff_sample s x
  · rw [accept?_eq_none_iff, IsSampled, not_and_or, Nat.not_lt, Nat.le_zero, Nat.not_lt]

def greatest : Scalar where
  bytes := Bytes.ofNat 32 (groupOrder - 1)

/-- The draw of this scalar with all of the top three bits set. -/
def greatestDraw : Bytes 32 :=
  Bytes.ofNat 32 (groupOrder - 1 + 7 * 2 ^ 253)

theorem accepted_draws_uniform_greatest :
    0 < greatest.toNat ∧ greatest.toNat < groupOrder ∧
    Nat.card {b : Bytes 32 // accept? b = some greatest} = 8 ∧
    (ByteStream.scripted greatestDraw.toList).block 32 0 = greatestDraw ∧
    exists h, sample (ByteStream.scripted greatestDraw.toList) h = (greatest, 32) := by
  have hnumber : 0 < greatest.toNat ∧ greatest.toNat < groupOrder ∧
      (ByteStream.scripted greatestDraw.toList).block 32 0 = greatestDraw ∧
      accept? greatestDraw = some greatest := by
    decide +kernel
  rcases hnumber with ⟨hpos, hlt, hblock, haccept⟩
  rcases accepted_draws_uniform greatestDraw greatest with ⟨-, hround, hcard, -⟩
  exact ⟨hpos, hlt, hcard hpos hlt, hblock, (hround _ hblock).mp haccept⟩

end Scalar
end Edwards25519
