import Mathlib
import Edwards25519.Bytes.Range
import Edwards25519.Proofs.Curve.Even
import Edwards25519.Proofs.Ristretto.GroupLaws

/-!
# The order of the group of valid strings

Every class of even points contains exactly one multiple of the basepoint, so the
valid strings are those of the `L` multiples below the order. Adding a string to
the neutral one again and again runs through the strings of the multiples, and
since `L` is prime it comes back to the neutral string after `L` steps and not
before.
-/

namespace Edwards25519
namespace Ristretto
namespace Element

/-! ## Multiples of the basepoint -/

def multiple (j : Nat) : Element :=
  encode (j • CurvePoint.basepoint).toAffine

theorem standsFor_multiple (j : Nat) :
    (multiple j).StandsFor (j • CurvePoint.basepoint) :=
  standsFor_encode (CurvePoint.nsmul_basepoint_mem_even j)

theorem multiple_eq_iff (j k : Nat) :
    multiple j = multiple k <-> j • CurvePoint.basepoint = k • CurvePoint.basepoint := by
  constructor
  · intro h
    apply CurvePoint.nsmul_basepoint_eq_of_class
    exact (encode_eq_iff (CurvePoint.nsmul_basepoint_mem_even j)
      (CurvePoint.nsmul_basepoint_mem_even k)).mp h
  · intro h
    rw [multiple, h, multiple]

theorem multiple_zero :
    multiple 0 = identity := by
  rw [standsFor_identity.eq_encode, multiple, zero_nsmul]

theorem multiple_eq_identity_iff (j : Nat) :
    multiple j = identity <-> groupOrder ∣ j := by
  rw [← multiple_zero, multiple_eq_iff, zero_nsmul, CurvePoint.nsmul_basepoint_eq_zero_iff]

theorem exists_multiple_of_isValid {p : Element} (h : p.isValid = true) :
    exists j, j < groupOrder ∧ p = multiple j := by
  rcases (isValid_iff p).mp h with ⟨P, hP⟩
  rcases CurvePoint.exists_nsmul_basepoint_of_mem_even hP.even with ⟨j, hj, hclass⟩
  refine ⟨j, hj, ?_⟩
  rw [hP.eq_encode, multiple, encode_eq_iff hP.even (CurvePoint.nsmul_basepoint_mem_even j)]
  exact hclass.symm

/-! ## Counting -/

def validMultiple (j : Fin groupOrder) : {p : Element // p.isValid = true} :=
  ⟨multiple j.val, (standsFor_multiple j.val).isValid⟩

theorem bijective_validMultiple :
    Function.Bijective validMultiple := by
  constructor
  · intro j k h
    have hmultiple := (multiple_eq_iff j.val k.val).mp (congrArg Subtype.val h)
    exact Fin.ext (CurvePoint.nsmul_basepoint_inj j.isLt k.isLt hmultiple)
  · intro p
    rcases exists_multiple_of_isValid p.property with ⟨j, hj, hp⟩
    exact ⟨⟨j, hj⟩, Subtype.ext hp.symm⟩

theorem card_valid :
    Nat.card {p : Element // p.isValid = true} = groupOrder := by
  rw [← Nat.card_congr (Equiv.ofBijective _ bijective_validMultiple), Nat.card_eq_fintype_card,
    Fintype.card_fin]

def equivBytes : Element ≃ Bytes 32 where
  toFun p := p.bytes
  invFun b := { bytes := b }
  left_inv _ := rfl
  right_inv _ := rfl

theorem card_eq :
    Nat.card Element = 2 ^ 256 := by
  rw [Nat.card_congr equivBytes, Bytes.card_eq]
  norm_num

/-! ## Repeated addition -/

/-- Adds the element to the neutral one as often as the number says. -/
def addTimes (p : Element) : Nat -> Except Error Element
  | 0 => .ok identity
  | n + 1 => addTimes p n >>= fun s => add s p

theorem addTimes_multiple (j n : Nat) :
    addTimes (multiple j) n = .ok (multiple (n * j)) := by
  induction n with
  | zero => rw [addTimes, Nat.zero_mul, multiple_zero]
  | succ n ih =>
      rw [addTimes, ih, ok_bind, add_of_standsFor (standsFor_multiple (n * j))
        (standsFor_multiple j), ← add_nsmul, ← Nat.succ_mul]
      rfl

theorem not_dvd_mul_of_ne_identity {j n : Nat} (hne : multiple j ≠ identity)
    (hn : ¬ groupOrder ∣ n) :
    ¬ groupOrder ∣ n * j := by
  rw [groupOrder_prime.dvd_mul, not_or]
  exact ⟨hn, fun h => hne ((multiple_eq_identity_iff j).mpr h)⟩

/-- There are `L` valid strings, and each but the neutral one has the prime order `L`. -/
theorem valid_elements_prime_order (p : Element) :
    groupOrder.Prime ∧
    identity.bytes.toList = List.replicate 32 0 ∧
    (p.isValid = true -> addTimes p groupOrder = .ok identity) ∧
    (p.isValid = true -> p ≠ identity -> forall n, 0 < n -> n < groupOrder ->
      exists s, addTimes p n = .ok s ∧ s.isValid = true ∧ s ≠ identity) ∧
    Nat.card Element = 2 ^ 256 ∧
    Nat.card {q : Element // q.isValid = true} = groupOrder := by
  refine ⟨groupOrder_prime, rfl, ?_, ?_, card_eq, card_valid⟩
  · intro h
    rcases exists_multiple_of_isValid h with ⟨j, -, rfl⟩
    rw [addTimes_multiple, (multiple_eq_identity_iff _).mpr (Nat.dvd_mul_right groupOrder j)]
  · intro h hne n hpos hlt
    rcases exists_multiple_of_isValid h with ⟨j, -, rfl⟩
    refine ⟨multiple (n * j), addTimes_multiple j n, (standsFor_multiple (n * j)).isValid, ?_⟩
    rw [ne_eq, multiple_eq_identity_iff]
    exact not_dvd_mul_of_ne_identity hne (Nat.not_dvd_of_pos_of_lt hpos hlt)

theorem valid_elements_prime_order_basepoint :
    basepoint.isValid = true ∧
    basepoint ≠ identity ∧
    addTimes basepoint groupOrder = .ok identity ∧
    exists s, addTimes basepoint (groupOrder - 1) = .ok s ∧ s.isValid = true ∧ s ≠ identity := by
  have hbase : basepoint = multiple 1 := by
    rw [multiple, one_nsmul]
    rfl
  have hvalid : basepoint.isValid = true := by
    rw [hbase]
    exact (standsFor_multiple 1).isValid
  have hne : basepoint ≠ identity := by
    rw [hbase, ne_eq, multiple_eq_identity_iff]
    decide
  rcases valid_elements_prime_order basepoint with ⟨-, -, horder, hleast, -, -⟩
  exact ⟨hvalid, hne, horder hvalid, hleast hvalid hne (groupOrder - 1) (by decide) (by decide)⟩

end Element
end Ristretto
end Edwards25519
