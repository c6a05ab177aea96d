import Mathlib
import Edwards25519.Proofs.Curve.Generators
import Edwards25519.Proofs.Point.Validity

/-!
# The strings of small order

The listed strings are the canonical strings of the eight multiples of the point of
order eight, each of them once. Adding them to a point moves it through its coset, and
exactly one of the eight steps ends in the subgroup: the one that takes back the part
of small order.
-/

namespace Edwards25519
namespace Point

/-! ## The list -/

/-- The multiples of the point of order eight in the order in which their strings are listed. -/
def smallOrderFactors : List Nat :=
  [0, 4, 2, 6, 1, 7, 3, 5]

def smallOrderString (k : Nat) : Point :=
  encode (k • CurvePoint.orderEight).toAffine

theorem smallOrderFactors_perm :
    smallOrderFactors.Perm (List.range 8) := by
  decide

theorem smallOrderEncodings_eq :
    smallOrderEncodings = smallOrderFactors.map smallOrderString := by
  simp only [smallOrderFactors, smallOrderString, List.map_cons, List.map_nil,
    ← AffinePoint.multiple_eq_nsmul]
  decide +kernel

theorem smallOrderEncodings_perm :
    smallOrderEncodings.Perm ((List.range 8).map smallOrderString) := by
  rw [smallOrderEncodings_eq]
  exact smallOrderFactors_perm.map smallOrderString

theorem mem_smallOrderEncodings_iff {t : Point} :
    t ∈ smallOrderEncodings <-> exists k, k < 8 ∧ smallOrderString k = t := by
  rw [smallOrderEncodings_perm.mem_iff, List.mem_map]
  simp only [List.mem_range]

theorem smallOrderString_inj {j k : Nat} (hj : j < 8) (hk : k < 8)
    (h : smallOrderString j = smallOrderString k) :
    j = k :=
  CurvePoint.nsmul_orderEight_inj hj hk (encode_injective h)

theorem nodup_smallOrderEncodings :
    smallOrderEncodings.Nodup := by
  rw [smallOrderEncodings_perm.nodup_iff]
  apply List.Nodup.map_on _ List.nodup_range
  intro j hj k hk h
  exact smallOrderString_inj (List.mem_range.mp hj) (List.mem_range.mp hk) h

theorem smallOrderString_zero :
    smallOrderString 0 = identity := by
  rw [smallOrderString, zero_nsmul]
  rfl

/-! ## Adding a string of the list -/

section Coset

variable {p : Point} {j k : Nat}

theorem add_smallOrderString (hp : Decodes p (CurvePoint.combine j k)) (m : Nat) :
    add p (smallOrderString m) = .ok (encode (CurvePoint.combine j (k + m)).toAffine) := by
  rw [smallOrderString, add_of_decodes hp (decodes_encode _), CurvePoint.combine_add_nsmul]

theorem add_smallOrderString_valid_iff (hp : Decodes p (CurvePoint.combine j k)) (m : Nat) :
    (exists s, add p (smallOrderString m) = .ok s ∧ (s.isValid = true ∨ s = identity)) <->
      8 ∣ k + m := by
  rw [← CurvePoint.groupOrder_nsmul_combine_eq_zero_iff j, ← isValid_or_eq_identity_iff,
    add_smallOrderString hp]
  constructor
  · intro h
    rcases h with ⟨s, hs, hvalid⟩
    cases hs
    exact hvalid
  · intro hvalid
    exact ⟨_, rfl, hvalid⟩

theorem existsUnique_smallOrder (hp : Decodes p (CurvePoint.combine j k)) (hk : k < 8) :
    ∃! t, t ∈ smallOrderEncodings ∧
      exists s, add p t = .ok s ∧ (s.isValid = true ∨ s = identity) := by
  refine ⟨smallOrderString ((8 - k) % 8), ⟨?_, ?_⟩, ?_⟩
  · exact mem_smallOrderEncodings_iff.mpr ⟨_, Nat.mod_lt _ (by decide), rfl⟩
  · rw [add_smallOrderString_valid_iff hp]
    omega
  · intro t ht
    rcases ht with ⟨hmem, hvalid⟩
    rcases mem_smallOrderEncodings_iff.mp hmem with ⟨m, hm, rfl⟩
    have hdvd := (add_smallOrderString_valid_iff hp m).mp hvalid
    have hfactor : m = (8 - k) % 8 := by omega
    rw [hfactor]

end Coset

/-- A valid string is moved out of the subgroup by every listed string but the identity. -/
theorem add_smallOrder_of_isValid {p t : Point} (hp : p.isValid = true)
    (ht : t ∈ smallOrderEncodings) (hne : t ≠ identity) :
    exists s, add p t = .ok s ∧ s.isValid = false := by
  rcases exists_of_isValid hp with ⟨P, rfl, -, horder⟩
  rcases CurvePoint.exists_eq_combine P with ⟨j, k, -, hk, rfl⟩
  rcases mem_smallOrderEncodings_iff.mp ht with ⟨m, hm, rfl⟩
  have hdecodes := decodes_encode (CurvePoint.combine j k)
  have hk8 := (CurvePoint.groupOrder_nsmul_combine_eq_zero_iff j k).mp horder
  refine ⟨_, add_smallOrderString hdecodes m, ?_⟩
  rw [Bool.eq_false_iff]
  intro hvalid
  have hdvd := (add_smallOrderString_valid_iff hdecodes m).mp
    ⟨_, add_smallOrderString hdecodes m, Or.inl hvalid⟩
  have hzero : m = 0 := by omega
  rw [hzero, smallOrderString_zero] at hne
  exact hne rfl

/-- Every string that decodes is moved into the subgroup by exactly one of the eight. -/
theorem torsion_decomposition {p : Point} {P : AffinePoint} (hp : p.decode? = some P) :
    smallOrderEncodings.length = 8 ∧ smallOrderEncodings.Nodup ∧ identity ∈ smallOrderEncodings ∧
    (forall t, t ∈ smallOrderEncodings -> exists s, add p t = .ok s) ∧
    (∃! t, t ∈ smallOrderEncodings ∧
      exists s, add p t = .ok s ∧ (s.isValid = true ∨ s = identity)) ∧
    (p.isValid = true -> forall t, t ∈ smallOrderEncodings -> t ≠ identity ->
      exists s, add p t = .ok s ∧ s.isValid = false) := by
  rcases exists_decodes hp with ⟨P, rfl, hdecodes⟩
  rcases CurvePoint.exists_eq_combine P with ⟨j, k, -, hk, rfl⟩
  refine ⟨rfl, nodup_smallOrderEncodings, ?_, ?_, existsUnique_smallOrder hdecodes hk, ?_⟩
  · exact mem_smallOrderEncodings_iff.mpr ⟨0, by decide, smallOrderString_zero⟩
  · intro t ht
    rcases mem_smallOrderEncodings_iff.mp ht with ⟨m, hm, rfl⟩
    exact ⟨_, add_smallOrderString hdecodes m⟩
  · intro hvalid t ht hne
    exact add_smallOrder_of_isValid hvalid ht hne

theorem torsion_decomposition_basepoint :
    basepoint.decode? = some AffinePoint.basepoint ∧ basepoint.isValid = true ∧
    (∃! t, t ∈ smallOrderEncodings ∧
      exists s, add basepoint t = .ok s ∧ (s.isValid = true ∨ s = identity)) ∧
    exists s, add basepoint orderTwo = .ok s ∧ s.isValid = false := by
  have hdecode : basepoint.decode? = some AffinePoint.basepoint :=
    decodes_encode CurvePoint.basepoint
  have htwo : orderTwo ∈ smallOrderEncodings ∧ orderTwo ≠ identity := by
    decide +kernel
  rcases torsion_decomposition hdecode with ⟨-, -, -, -, hunique, hmoved⟩
  exact ⟨hdecode, isValid_basepoint, hunique,
    hmoved isValid_basepoint orderTwo htwo.1 htwo.2⟩

end Point
end Edwards25519
