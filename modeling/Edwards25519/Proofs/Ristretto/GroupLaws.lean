import Mathlib
import Edwards25519.Ristretto.Element
import Edwards25519.Proofs.Operands
import Edwards25519.Proofs.Ristretto.Encoding

/-!
# Group laws on elements

The valid strings are the strings of the classes of even points. Sums and
differences of valid strings are those of the classes, and each class has one
string, so the laws of a commutative group hold for the bytes.
-/

namespace Edwards25519
namespace Ristretto

open FieldElement

namespace Element

theorem ext {p q : Element} (h : p.bytes = q.bytes) :
    p = q := by
  cases p
  cases q
  cases h
  rfl

/-! ## Strings and classes -/

/-- The string is that of the class of an even point. -/
structure StandsFor (p : Element) (P : CurvePoint) : Prop where
  even : P ∈ CurvePoint.even
  eq_encode : p = encode P.toAffine

theorem encode_eq_iff {P Q : CurvePoint} (hP : P ∈ CurvePoint.even)
    (hQ : Q ∈ CurvePoint.even) :
    encode P.toAffine = encode Q.toAffine <-> 4 • P = 4 • Q := by
  rw [← toFieldElement_eq_iff hP hQ]
  constructor
  · intro h
    have hbytes : (toFieldElement P.toAffine).toBytes = (toFieldElement Q.toAffine).toBytes :=
      congrArg bytes h
    rw [← ofBytes_toBytes (toFieldElement P.toAffine), hbytes, ofBytes_toBytes]
  · intro h
    apply ext
    exact congrArg toBytes h

theorem StandsFor.decode?_eq_some {p : Element} {P : CurvePoint} (h : p.StandsFor P) :
    exists Q : CurvePoint,
      p.decode? = some Q.toAffine ∧ Q ∈ CurvePoint.even ∧ 4 • Q = 4 • P := by
  rcases exists_isRepresentative h.even with ⟨Q, hclass, hQ⟩
  refine ⟨Q, ?_, hQ.mem_even, hclass⟩
  rw [h.eq_encode]
  exact decode?_toBytes hQ

theorem exists_standsFor {p : Element} {P : AffinePoint} (h : p.decode? = some P) :
    exists Q : CurvePoint, P = Q.toAffine ∧ p.StandsFor Q := by
  rcases (decode?_eq_some_iff p.bytes P).mp h with ⟨hcanonical, hP⟩
  let Q : CurvePoint := { toAffine := P, onCurve := hP.onCurve }
  have hQ : IsRepresentative Q.toAffine (ofBytes p.bytes) := hP
  rcases exists_isRepresentative hQ.mem_even with ⟨R, hclass, hR⟩
  refine ⟨Q, rfl, hQ.mem_even, ?_⟩
  apply ext
  rw [← toBytes_ofBytes_of_isCanonical hcanonical, hQ.eq_of_class hR hclass.symm]
  rfl

theorem StandsFor.isValid {p : Element} {P : CurvePoint} (h : p.StandsFor P) :
    p.isValid = true := by
  rcases h.decode?_eq_some with ⟨Q, hdecode, -, -⟩
  rw [Element.isValid, hdecode]
  rfl

theorem isValid_iff (p : Element) :
    p.isValid = true <-> exists P, p.StandsFor P := by
  constructor
  · intro h
    rcases Option.isSome_iff_exists.mp h with ⟨P, hP⟩
    rcases exists_standsFor hP with ⟨Q, -, hQ⟩
    exact ⟨Q, hQ⟩
  · intro h
    rcases h with ⟨P, hP⟩
    exact hP.isValid

theorem standsFor_encode {P : CurvePoint} (hP : P ∈ CurvePoint.even) :
    (encode P.toAffine).StandsFor P where
  even := hP
  eq_encode := rfl

theorem standsFor_identity :
    identity.StandsFor 0 where
  even := CurvePoint.even.zero_mem
  eq_encode := by
    have hzero : toFieldElement (0 : CurvePoint).toAffine = 0 := by
      apply toFieldElement_of_x_mul_y_eq_zero
      rw [CurvePoint.toAffine_zero, AffinePoint.identity_x, zero_mul]
    apply ext
    change Bytes.zero 32 = (toFieldElement (0 : CurvePoint).toAffine).toBytes
    rw [hzero, toBytes, Residue.val_zero]
    rfl

/-! ## Operations on valid strings -/

section Laws

variable {p q : Element} {P Q : CurvePoint}

theorem add_of_standsFor (hp : p.StandsFor P) (hq : q.StandsFor Q) :
    add p q = .ok (encode (P + Q).toAffine) := by
  rcases hp.decode?_eq_some with ⟨P', hp', hP', hclassP⟩
  rcases hq.decode?_eq_some with ⟨Q', hq', hQ', hclassQ⟩
  have hsum : encode (P' + Q').toAffine = encode (P + Q).toAffine := by
    rw [encode_eq_iff (CurvePoint.even.add_mem hP' hQ')
      (CurvePoint.even.add_mem hp.even hq.even), nsmul_add, nsmul_add, hclassP, hclassQ]
  rw [← hsum]
  exact onDecoded_of_some hp' hq'

theorem sub_of_standsFor (hp : p.StandsFor P) (hq : q.StandsFor Q) :
    sub p q = .ok (encode (P - Q).toAffine) := by
  rcases hp.decode?_eq_some with ⟨P', hp', hP', hclassP⟩
  rcases hq.decode?_eq_some with ⟨Q', hq', hQ', hclassQ⟩
  have hdiff : encode (P' - Q').toAffine = encode (P - Q).toAffine := by
    rw [encode_eq_iff (CurvePoint.even.sub_mem hP' hQ')
      (CurvePoint.even.sub_mem hp.even hq.even), nsmul_sub, nsmul_sub, hclassP, hclassQ]
  rw [← hdiff, CurvePoint.toAffine_sub]
  exact onDecoded_of_some hp' hq'

theorem followsGroup :
    FollowsGroup StandsFor (fun P => encode P.toAffine) add sub where
  add_eq := add_of_standsFor
  sub_eq := sub_of_standsFor
  encode_zero := standsFor_encode CurvePoint.even.zero_mem
  encode_add := fun hp hq => standsFor_encode (CurvePoint.even.add_mem hp.even hq.even)
  encode_sub := fun hp hq => standsFor_encode (CurvePoint.even.sub_mem hp.even hq.even)

theorem add_identity_of_standsFor (hp : p.StandsFor P) :
    add p identity = .ok p := by
  rw [standsFor_identity.eq_encode, followsGroup.add_zero hp, ← hp.eq_encode]

theorem sub_self_of_standsFor (hp : p.StandsFor P) :
    sub p p = .ok identity := by
  rw [standsFor_identity.eq_encode, followsGroup.sub_self hp]

theorem add_sub_cancel_of_standsFor (hp : p.StandsFor P) (hq : q.StandsFor Q) :
    (add p q >>= fun s => sub s q) = .ok p := by
  rw [followsGroup.add_sub_cancel hp hq, ← hp.eq_encode]

theorem sub_eq_identity_iff_of_standsFor (hp : p.StandsFor P) (hq : q.StandsFor Q) :
    sub p q = .ok identity <-> p = q := by
  constructor
  · intro h
    rw [sub_of_standsFor hp hq, Except.ok.injEq, standsFor_identity.eq_encode,
      encode_eq_iff (CurvePoint.even.sub_mem hp.even hq.even) CurvePoint.even.zero_mem,
      nsmul_sub, nsmul_zero, sub_eq_zero] at h
    rw [hp.eq_encode, hq.eq_encode, encode_eq_iff hp.even hq.even]
    exact h
  · intro heq
    subst heq
    exact sub_self_of_standsFor hp

end Laws

/-! ## The group of valid strings -/

theorem isValid_eq_false_iff (p : Element) :
    p.isValid = false <-> p.decode? = none := by
  rw [Element.isValid, Option.isSome_eq_false_iff, Option.isNone_iff_eq_none]

theorem add_eq_error_iff (p q : Element) (e : Error) :
    add p q = .error e <->
      e = .invalidPoint ∧ (p.isValid = false ∨ q.isValid = false) := by
  rw [isValid_eq_false_iff, isValid_eq_false_iff]
  exact onDecoded_eq_error_iff

theorem sub_eq_error_iff (p q : Element) (e : Error) :
    sub p q = .error e <->
      e = .invalidPoint ∧ (p.isValid = false ∨ q.isValid = false) := by
  rw [isValid_eq_false_iff, isValid_eq_false_iff]
  exact onDecoded_eq_error_iff

/-- The valid strings form a commutative group, byte for byte. -/
theorem valid_elements_commutative_group (p q r : Element) :
    identity.bytes.toList = List.replicate 32 0 ∧
    identity.isValid = true ∧
    (add p q = .error .invalidPoint <-> p.isValid = false ∨ q.isValid = false) ∧
    (sub p q = .error .invalidPoint <-> p.isValid = false ∨ q.isValid = false) ∧
    (p.isValid = true -> q.isValid = true -> r.isValid = true ->
      (exists s, add p q = .ok s ∧ s.isValid = true) ∧
      (exists s, sub p q = .ok s ∧ s.isValid = true) ∧
      add p q = add q p ∧
      (exists s, (add p q >>= fun t => add t r) = .ok s ∧
        (add q r >>= fun t => add p t) = .ok s) ∧
      add p identity = .ok p ∧
      sub p p = .ok identity ∧
      (add p q >>= fun s => sub s q) = .ok p ∧
      (sub p q = .ok identity <-> p = q)) := by
  refine ⟨rfl, standsFor_identity.isValid, ?_, ?_, ?_⟩
  · rw [add_eq_error_iff]
    exact and_iff_right rfl
  · rw [sub_eq_error_iff]
    exact and_iff_right rfl
  · intro hpvalid hqvalid hrvalid
    rcases (isValid_iff p).mp hpvalid with ⟨P, hp⟩
    rcases (isValid_iff q).mp hqvalid with ⟨Q, hq⟩
    rcases (isValid_iff r).mp hrvalid with ⟨R, hr⟩
    refine ⟨⟨_, add_of_standsFor hp hq, ?_⟩, ⟨_, sub_of_standsFor hp hq, ?_⟩,
      followsGroup.add_comm hp hq, followsGroup.add_assoc hp hq hr,
      add_identity_of_standsFor hp, sub_self_of_standsFor hp,
      add_sub_cancel_of_standsFor hp hq,
      sub_eq_identity_iff_of_standsFor hp hq⟩
    · exact (standsFor_encode (CurvePoint.even.add_mem hp.even hq.even)).isValid
    · exact (standsFor_encode (CurvePoint.even.sub_mem hp.even hq.even)).isValid

theorem valid_elements_commutative_group_basepoint :
    basepoint.isValid = true ∧
    (encode (AffinePoint.basepoint + AffinePoint.basepoint)).isValid = true ∧
    add basepoint identity = .ok basepoint ∧
    sub basepoint (encode (AffinePoint.basepoint + AffinePoint.basepoint)) ≠ .ok identity := by
  have hp : basepoint.isValid = true := by decide +kernel
  have hq : (encode (AffinePoint.basepoint + AffinePoint.basepoint)).isValid = true := by
    decide +kernel
  have hne : basepoint ≠ encode (AffinePoint.basepoint + AffinePoint.basepoint) := by
    decide +kernel
  rcases valid_elements_commutative_group basepoint
    (encode (AffinePoint.basepoint + AffinePoint.basepoint)) identity with
    ⟨-, hidentity, -, -, hlaws⟩
  rcases hlaws hp hq hidentity with ⟨-, -, -, -, hneutral, -, -, hsub⟩
  exact ⟨hp, hq, hneutral, fun h => hne (hsub.mp h)⟩

end Element
end Ristretto
end Edwards25519
