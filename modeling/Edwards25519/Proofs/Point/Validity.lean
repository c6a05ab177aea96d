import Mathlib
import Edwards25519.Point.Validity
import Edwards25519.Proofs.Curve.Order
import Edwards25519.Proofs.Point.GroupLaws

/-!
# The valid points

The four checks together accept exactly the canonical strings of the points of
the subgroup of prime order other than the identity.
-/

namespace Edwards25519

open FieldElement

namespace Point

/-! ## The checks one by one -/

theorem hasCanonicalY_iff (p : Point) :
    p.hasCanonicalY = true <-> lowBits p.bytes < fieldPrime := by
  rw [hasCanonicalY, decide_eq_true_eq]

theorem isSmallOrder_iff (p : Point) :
    p.isSmallOrder = true <-> lowBits p.bytes ∈ smallOrderLowBits := by
  rw [isSmallOrder, List.contains_iff_mem]

theorem isInSubgroup_iff (p : Point) :
    p.isInSubgroup = true <->
      exists P : CurvePoint, Decodes p P ∧ groupOrder • P = 0 := by
  rw [isInSubgroup, Option.any_eq_true]
  constructor
  · intro h
    rcases h with ⟨P, hdecode, horder⟩
    rcases exists_decodes hdecode with ⟨P, rfl, hp⟩
    exact ⟨P, hp, (CurvePoint.isTorsionFree_iff P).mp horder⟩
  · intro h
    rcases h with ⟨P, hp, horder⟩
    exact ⟨P.toAffine, hp, (CurvePoint.isTorsionFree_iff P).mpr horder⟩

theorem exists_multiple_of_mem_smallOrderLowBits :
    forall v, v ∈ smallOrderLowBits -> exists k : Nat,
      (Residue.ofNat v : FieldElement) = (k • CurvePoint.orderEight).toAffine.y := by
  simp only [smallOrderLowBits, List.forall_mem_cons, ← AffinePoint.multiple_eq_nsmul]
  refine ⟨⟨2, ?_⟩, ⟨0, ?_⟩, ⟨1, ?_⟩, ⟨3, ?_⟩, ⟨4, ?_⟩, ⟨2, ?_⟩, ⟨0, ?_⟩, ?_⟩
  · decide +kernel
  · decide +kernel
  · decide +kernel
  · decide +kernel
  · decide +kernel
  · decide +kernel
  · decide +kernel
  · intro v hv
    cases hv

theorem eight_nsmul_of_isSmallOrder {p : Point} {P : CurvePoint} (hp : Decodes p P)
    (h : p.isSmallOrder = true) :
    8 • P = 0 := by
  rcases exists_multiple_of_mem_smallOrderLowBits _ ((isSmallOrder_iff p).mp h) with ⟨k, hk⟩
  apply CurvePoint.eight_nsmul_of_y_eq k
  rw [← hk, ← ofBytes_eq_ofNat]
  exact ((decode?_eq_some_iff p P.toAffine).mp hp).2.1

theorem isSmallOrder_of_lowBits_eq_one {p : Point} (h : lowBits p.bytes = 1) :
    p.isSmallOrder = true := by
  rw [isSmallOrder_iff, h, smallOrderLowBits]
  exact List.mem_cons_of_mem 0 List.mem_cons_self

theorem isValid_iff (p : Point) :
    p.isValid = true <->
      p.hasCanonicalY = true ∧ p.isSmallOrder = false ∧ p.isInSubgroup = true := by
  rw [isValid, Bool.and_eq_true, Bool.and_eq_true, Bool.not_eq_true', and_assoc]

/-! ## Soundness and completeness of the checks -/

/-- No check rejects the string of a point of the subgroup other than the identity. -/
theorem checks_encode {P : CurvePoint} (hne : P ≠ 0) (horder : groupOrder • P = 0) :
    (encode P.toAffine).hasCanonicalY = true ∧ (encode P.toAffine).isSmallOrder = false ∧
      (encode P.toAffine).isInSubgroup = true := by
  refine ⟨?_, ?_, ?_⟩
  · rw [hasCanonicalY_iff]
    change lowBits P.toAffine.encode < fieldPrime
    rw [AffinePoint.lowBits_encode]
    exact P.toAffine.y.val_lt
  · rw [Bool.eq_false_iff]
    intro hsmall
    have height := eight_nsmul_of_isSmallOrder (decodes_encode P) hsmall
    exact hne (CurvePoint.eq_zero_of_coprime_nsmul height horder)
  · rw [isInSubgroup_iff]
    exact ⟨P, decodes_encode P, horder⟩

theorem ne_zero_of_checks {p : Point} {P : CurvePoint} (hp : Decodes p P)
    (hcanonical : p.hasCanonicalY = true) (hsmall : p.isSmallOrder = false) :
    P ≠ 0 := by
  intro heq
  subst heq
  rcases (decode?_eq_some_iff p _).mp hp with ⟨-, hy, -⟩
  have hmod : lowBits p.bytes % fieldPrime = 1 := by
    rw [← val_ofBytes, ← hy, CurvePoint.toAffine_zero, AffinePoint.identity_y,
      Residue.val_one]
    rfl
  rw [Nat.mod_eq_of_lt ((hasCanonicalY_iff p).mp hcanonical)] at hmod
  rw [isSmallOrder_of_lowBits_eq_one hmod] at hsmall
  cases hsmall

theorem exists_of_isValid {p : Point} (h : p.isValid = true) :
    exists P : CurvePoint, p = encode P.toAffine ∧ P ≠ 0 ∧ groupOrder • P = 0 := by
  rcases (isValid_iff p).mp h with ⟨hcanonical, hsmall, hsubgroup⟩
  rcases (isInSubgroup_iff p).mp hsubgroup with ⟨P, hp, horder⟩
  have hne := ne_zero_of_checks hp hcanonical hsmall
  refine ⟨P, ?_, hne, horder⟩
  apply ext
  apply (AffinePoint.eq_encode_iff hp).mpr
  refine ⟨(hasCanonicalY_iff p).mp hcanonical, ?_⟩
  -- A zero `x` would put the point among the eight of small order.
  intro h
  exact CurvePoint.x_ne_zero_of_groupOrder_nsmul hne horder h.1

theorem isValid_encode {P : CurvePoint} (hne : P ≠ 0) (horder : groupOrder • P = 0) :
    (encode P.toAffine).isValid = true :=
  (isValid_iff _).mpr (checks_encode hne horder)

theorem eq_of_isValid {p q : Point} (hp : p.isValid = true) (hq : q.isValid = true)
    (h : p.decode? = q.decode?) :
    p = q := by
  rcases exists_of_isValid hp with ⟨P, rfl, -, -⟩
  rcases exists_of_isValid hq with ⟨Q, rfl, -, -⟩
  have hP : (encode P.toAffine).decode? = some P.toAffine := decodes_encode P
  have hQ : (encode Q.toAffine).decode? = some Q.toAffine := decodes_encode Q
  rw [hP, hQ, Option.some_inj] at h
  rw [h]

/-! ## What is rejected -/

/--
The ways for a string to be no valid point: a `y` that is not reduced, no point
with this `y`, a sign for a zero `x`, small order (the identity among them), and
an order that `L` is not a multiple of.
-/
inductive Rejected (p : Point) : Prop where
  | notReduced (h : fieldPrime <= lowBits p.bytes)
  | notOnCurve (h : forall P : CurvePoint, ¬ Decodes p P)
  | signOfZero (P : CurvePoint) (hp : Decodes p P) (hx : P.toAffine.x = 0)
      (htop : p.bytes.topBit = true)
  | smallOrder (P : CurvePoint) (hp : Decodes p P) (height : 8 • P = 0)
  | mixedOrder (P : CurvePoint) (hp : Decodes p P) (horder : groupOrder • P ≠ 0)

theorem Rejected.isValid_eq_false {p : Point} (h : p.Rejected) :
    p.isValid = false := by
  rw [Bool.eq_false_iff]
  intro hvalid
  rcases exists_of_isValid hvalid with ⟨Q, rfl, hne, horder⟩
  have hunique : forall P : CurvePoint, Decodes (encode Q.toAffine) P -> P = Q := by
    intro P hP
    apply CurvePoint.ext
    exact Option.some_inj.mp (hP.symm.trans (decodes_encode Q))
  cases h with
  | notReduced h =>
      have hlt := (hasCanonicalY_iff _).mp ((isValid_iff _).mp hvalid).1
      exact absurd hlt (Nat.not_lt_of_le h)
  | notOnCurve h =>
      exact h Q (decodes_encode Q)
  | signOfZero P hp hx htop =>
      rw [hunique P hp] at hx
      exact CurvePoint.x_ne_zero_of_groupOrder_nsmul hne horder hx
  | smallOrder P hp height =>
      rw [hunique P hp] at height
      exact hne (CurvePoint.eq_zero_of_coprime_nsmul height horder)
  | mixedOrder P hp hmixed =>
      rw [hunique P hp] at hmixed
      exact hmixed horder

theorem rejected_of_isValid_eq_false {p : Point} (h : p.isValid = false) :
    p.Rejected := by
  by_cases hreduced : lowBits p.bytes < fieldPrime
  · by_cases hdecodes : exists P : CurvePoint, Decodes p P
    · rcases hdecodes with ⟨P, hp⟩
      by_cases hsign : P.toAffine.x = 0 ∧ p.bytes.topBit = true
      · exact .signOfZero P hp hsign.1 hsign.2
      · by_cases horder : groupOrder • P = 0
        · -- The string is canonical, so only the identity is left.
          have hencode : p = encode P.toAffine :=
            ext ((AffinePoint.eq_encode_iff hp).mpr ⟨hreduced, hsign⟩)
          by_cases hzero : P = 0
          · apply Rejected.smallOrder P hp
            rw [hzero, nsmul_zero]
          · rw [hencode, isValid_encode hzero horder] at h
            cases h
        · exact .mixedOrder P hp horder
    · exact .notOnCurve (not_exists.mp hdecodes)
  · exact .notReduced (Nat.le_of_not_lt hreduced)

theorem isValid_basepoint :
    basepoint.isValid = true := by
  have hbase : basepoint = encode CurvePoint.basepoint.toAffine := rfl
  rw [hbase]
  exact isValid_encode CurvePoint.basepoint_ne_zero CurvePoint.groupOrder_nsmul_basepoint

theorem isValid_identity :
    identity.isValid = false :=
  Rejected.isValid_eq_false (.smallOrder 0 decodes_identity (nsmul_zero 8))

theorem isValid_encode_iff {Q : CurvePoint} (horder : groupOrder • Q = 0) :
    (encode Q.toAffine).isValid = true <-> encode Q.toAffine ≠ identity := by
  constructor
  · intro hvalid heq
    rw [heq, isValid_identity] at hvalid
    cases hvalid
  · intro hne
    apply isValid_encode ?_ horder
    intro hzero
    exact hne ((encode_eq_identity_iff Q).mpr hzero)

theorem isValid_or_eq_identity_iff (Q : CurvePoint) :
    (encode Q.toAffine).isValid = true ∨ encode Q.toAffine = identity <-> groupOrder • Q = 0 := by
  constructor
  · intro h
    rcases h with hvalid | hidentity
    · rcases exists_of_isValid hvalid with ⟨P, heq, -, horder⟩
      rw [encode_injective heq]
      exact horder
    · rw [(encode_eq_identity_iff Q).mp hidentity, nsmul_zero]
  · intro horder
    rw [isValid_encode_iff horder, or_comm]
    exact em _

/-! ## Exactness -/

/-- The checks accept the canonical strings of the points of order `L`, and nothing else. -/
theorem isValid_exact (p : Point) :
    (p.isValid = true <->
      exists P : CurvePoint, p = encode P.toAffine ∧ P ≠ 0 ∧ groupOrder • P = 0) ∧
    (forall q : Point, p.isValid = true -> q.isValid = true ->
      p.decode? = q.decode? -> p = q) ∧
    (forall P : CurvePoint, p = encode P.toAffine -> P ≠ 0 -> groupOrder • P = 0 ->
      p.hasCanonicalY = true ∧ p.isSmallOrder = false ∧
        p.decode? = some P.toAffine ∧ p.isInSubgroup = true) ∧
    (p.isValid = false <-> p.Rejected) ∧
    (p = identity -> p.isValid = false) := by
  refine ⟨⟨exists_of_isValid, ?_⟩, fun q => eq_of_isValid, ?_,
    ⟨rejected_of_isValid_eq_false, Rejected.isValid_eq_false⟩, ?_⟩
  · intro h
    rcases h with ⟨P, rfl, hne, horder⟩
    exact isValid_encode hne horder
  · intro P heq hne horder
    subst heq
    rcases checks_encode hne horder with ⟨hcanonical, hsmall, hsubgroup⟩
    exact ⟨hcanonical, hsmall, decodes_encode P, hsubgroup⟩
  · intro heq
    subst heq
    exact isValid_identity

theorem isValid_exact_basepoint :
    basepoint.isValid = true ∧
    (forall q : Point, q.isValid = true -> basepoint.decode? = q.decode? -> basepoint = q) ∧
    basepoint.isSmallOrder = false ∧
    orderTwo.isValid = false ∧ identity.isValid = false := by
  have hbase := isValid_exact basepoint
  have hvalid : basepoint.isValid = true :=
    hbase.1.mpr ⟨CurvePoint.basepoint, rfl, CurvePoint.basepoint_ne_zero,
      CurvePoint.groupOrder_nsmul_basepoint⟩
  have hchecks := hbase.2.2.1 CurvePoint.basepoint rfl CurvePoint.basepoint_ne_zero
    CurvePoint.groupOrder_nsmul_basepoint
  have hsmall : 8 • ((4 : Nat) • CurvePoint.orderEight) = 0 := by
    rw [nsmul_left_comm, CurvePoint.eight_nsmul_orderEight, nsmul_zero]
  have htwo : Decodes orderTwo (4 • CurvePoint.orderEight) := by
    rw [Decodes, ← AffinePoint.multiple_eq_nsmul]
    decide +kernel
  exact ⟨hvalid, fun q => hbase.2.1 q hvalid, hchecks.2.1,
    (isValid_exact orderTwo).2.2.2.1.mpr (.smallOrder _ htwo hsmall),
    (isValid_exact identity).2.2.2.2 rfl⟩

end Point

end Edwards25519
