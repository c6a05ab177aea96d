import Mathlib
import Edwards25519.Point
import Edwards25519.Proofs.Curve.Encoding
import Edwards25519.Proofs.Operands

/-!
# Group laws on strings

Sums and differences of strings are sums and differences of the points they
decode to, written canonically. On the strings that decode they therefore obey
the laws of a commutative group, up to the choice between several strings for
one point.
-/

namespace Edwards25519

open FieldElement

namespace Point

/-! ## Strings and points of the curve -/

theorem ext {p q : Point} (h : p.bytes = q.bytes) :
    p = q := by
  cases p
  cases q
  cases h
  rfl

theorem decode?_eq_some_iff (p : Point) (P : AffinePoint) :
    p.decode? = some P <->
      P.OnCurve ∧ P.y = FieldElement.ofBytes p.bytes ∧
        (P.x = 0 ∨ P.x.isNegative = p.bytes.topBit) :=
  AffinePoint.decode?_eq_some_iff p.bytes P

theorem onCurve_of_decode? {p : Point} {P : AffinePoint} (h : p.decode? = some P) :
    P.OnCurve :=
  AffinePoint.onCurve_of_decode? h

def Decodes (p : Point) (P : CurvePoint) : Prop :=
  p.decode? = some P.toAffine

theorem exists_decodes {p : Point} {P : AffinePoint} (h : p.decode? = some P) :
    exists P' : CurvePoint, P = P'.toAffine ∧ Decodes p P' :=
  ⟨{ toAffine := P, onCurve := onCurve_of_decode? h }, rfl, h⟩

theorem decodes_encode (P : CurvePoint) :
    Decodes (encode P.toAffine) P :=
  AffinePoint.decode?_encode P.onCurve

theorem decodes_identity :
    Decodes identity 0 :=
  decodes_encode 0

theorem toList_identity :
    identity.bytes.toList = 1 :: List.replicate 31 0 := by
  decide +kernel

theorem encode_injective {P Q : CurvePoint} (h : encode P.toAffine = encode Q.toAffine) :
    P = Q := by
  apply CurvePoint.ext
  exact AffinePoint.encode_injective P.onCurve Q.onCurve (congrArg bytes h)

theorem encode_eq_identity_iff (P : CurvePoint) :
    encode P.toAffine = identity <-> P = 0 := by
  constructor
  · intro h
    exact encode_injective h
  · intro h
    rw [h]
    rfl

/-! ## Operations on strings that decode -/

theorem add_of_decodes {p q : Point} {P Q : CurvePoint}
    (hp : Decodes p P) (hq : Decodes q Q) :
    add p q = .ok (encode (P + Q).toAffine) :=
  onDecoded_of_some hp hq

theorem sub_of_decodes {p q : Point} {P Q : CurvePoint}
    (hp : Decodes p P) (hq : Decodes q Q) :
    sub p q = .ok (encode (P - Q).toAffine) := by
  rw [CurvePoint.toAffine_sub]
  exact onDecoded_of_some hp hq

theorem add_eq_error_iff (p q : Point) (e : Error) :
    add p q = .error e <->
      e = .invalidPoint ∧ (p.decode? = none ∨ q.decode? = none) :=
  onDecoded_eq_error_iff

theorem sub_eq_error_iff (p q : Point) (e : Error) :
    sub p q = .error e <->
      e = .invalidPoint ∧ (p.decode? = none ∨ q.decode? = none) :=
  onDecoded_eq_error_iff

theorem followsGroup :
    FollowsGroup Decodes (fun P => encode P.toAffine) add sub where
  add_eq := add_of_decodes
  sub_eq := sub_of_decodes
  encode_zero := decodes_identity
  encode_add := fun _ _ => decodes_encode _
  encode_sub := fun _ _ => decodes_encode _

/-! ## Spellings of one point -/

/-- Another string for the identity, with the prime added to its `y` and the sign bit set. -/
def identityAlias : Point where
  bytes := Bytes.ofNat 32 (fieldPrime + 1 + Nat.pow 2 255)

def orderTwo : Point where
  bytes := Bytes.ofNat 32 (fieldPrime - 1)

/-- A spelling with congruent low bits stands for the same point, and so does any sign of a zero. -/
theorem decode?_of_alias {p p' : Point} {P : AffinePoint} (h : p.decode? = some P)
    (hlow : lowBits p'.bytes % fieldPrime = lowBits p.bytes % fieldPrime)
    (htop : P.x = 0 ∨ p'.bytes.topBit = p.bytes.topBit) :
    p'.decode? = some P := by
  rcases (decode?_eq_some_iff p P).mp h with ⟨hcurve, hy, hx⟩
  refine (decode?_eq_some_iff p' P).mpr ⟨hcurve, ?_, ?_⟩
  · rw [hy, eq_comm, ofBytes_eq_iff, val_ofBytes, hlow]
  · rcases htop with hzero | heq
    · exact Or.inl hzero
    · rw [heq]
      exact hx

end Point

/-! ## The group of strings -/

/-- A point whose coordinates solve the addition formulas, with denominators that are not zero. -/
structure AffinePoint.IsSum (P Q S : AffinePoint) : Prop where
  plus_ne_zero : 1 + d * P.x * Q.x * P.y * Q.y ≠ 0
  minus_ne_zero : 1 - d * P.x * Q.x * P.y * Q.y ≠ 0
  x_eq : S.x * (1 + d * P.x * Q.x * P.y * Q.y) = P.x * Q.y + P.y * Q.x
  y_eq : S.y * (1 - d * P.x * Q.x * P.y * Q.y) = P.y * Q.y + P.x * Q.x

theorem AffinePoint.isSum_add (P Q : CurvePoint) :
    IsSum P.toAffine Q.toAffine (P + Q).toAffine where
  plus_ne_zero := one_add_denominatorProduct_ne_zero P.onCurve Q.onCurve
  minus_ne_zero := one_sub_denominatorProduct_ne_zero P.onCurve Q.onCurve
  x_eq := add_x_mul P.onCurve Q.onCurve
  y_eq := add_y_mul P.onCurve Q.onCurve

theorem AffinePoint.isSum_sub (P Q : CurvePoint) :
    IsSum P.toAffine (-Q.toAffine) (P - Q).toAffine := by
  rw [sub_eq_add_neg]
  exact isSum_add P (-Q)

/-- The one string for a point whose low bits are reduced and whose sign bit is that of `x`. -/
structure Point.IsCanonicalFor (p : Point) (P : AffinePoint) : Prop where
  onCurve : P.OnCurve
  lowBits_eq : lowBits p.bytes = P.y.val
  topBit_eq : p.bytes.topBit = P.x.isNegative
  decode_eq : p.decode? = some P

theorem Point.isCanonicalFor_encode (P : CurvePoint) :
    IsCanonicalFor (encode P.toAffine) P.toAffine where
  onCurve := P.onCurve
  lowBits_eq := AffinePoint.lowBits_encode P.toAffine
  topBit_eq := AffinePoint.topBit_encode P.toAffine
  decode_eq := decodes_encode P

namespace Point

/-- Sums and differences of strings obey the laws of a commutative group. -/
theorem add_sub_commutative_group (p q r : Point) :
    identity.bytes.toList = 1 :: List.replicate 31 0 ∧
    (add p q = .error .invalidPoint <-> p.decode? = none ∨ q.decode? = none) ∧
    (sub p q = .error .invalidPoint <-> p.decode? = none ∨ q.decode? = none) ∧
    forall P Q R, p.decode? = some P -> q.decode? = some Q -> r.decode? = some R ->
      (exists s S, add p q = .ok s ∧ P.IsSum Q S ∧ s.IsCanonicalFor S) ∧
      (exists s S, sub p q = .ok s ∧ P.IsSum (-Q) S ∧ s.IsCanonicalFor S) ∧
      add p q = add q p ∧
      (exists s, (add p q >>= fun t => add t r) = .ok s ∧
        (add q r >>= fun t => add p t) = .ok s) ∧
      sub p p = .ok identity ∧
      (add p q >>= fun s => sub s q) = add p identity ∧
      sub p q = (sub identity q >>= fun s => add p s) ∧
      (forall p' q', p'.decode? = some P -> q'.decode? = some Q ->
        add p' q' = add p q ∧ sub p' q' = sub p q) ∧
      (forall p' : Point, lowBits p'.bytes % fieldPrime = lowBits p.bytes % fieldPrime ->
        P.x = 0 ∨ p'.bytes.topBit = p.bytes.topBit -> p'.decode? = some P) := by
  refine ⟨toList_identity, ?_, ?_, ?_⟩
  · rw [add_eq_error_iff]
    exact and_iff_right rfl
  · rw [sub_eq_error_iff]
    exact and_iff_right rfl
  · intro P Q R hP hQ hR
    rcases exists_decodes hP with ⟨P, rfl, hp⟩
    rcases exists_decodes hQ with ⟨Q, rfl, hq⟩
    rcases exists_decodes hR with ⟨R, rfl, hr⟩
    refine ⟨⟨_, _, add_of_decodes hp hq, AffinePoint.isSum_add P Q, isCanonicalFor_encode _⟩,
      ⟨_, _, sub_of_decodes hp hq, AffinePoint.isSum_sub P Q, isCanonicalFor_encode _⟩,
      followsGroup.add_comm hp hq, followsGroup.add_assoc hp hq hr, followsGroup.sub_self hp,
      ?_, ?_, ?_, ?_⟩
    · rw [followsGroup.add_sub_cancel hp hq]
      exact (followsGroup.add_zero hp).symm
    · exact (followsGroup.add_zero_sub hp hq).symm
    · intro p' q' hp' hq'
      rw [add_of_decodes hp' hq', add_of_decodes hp hq, sub_of_decodes hp' hq',
        sub_of_decodes hp hq]
      exact ⟨rfl, rfl⟩
    · intro p' hlow htop
      exact decode?_of_alias hP hlow htop

theorem add_sub_commutative_group_basepoint :
    basepoint.decode? = some AffinePoint.basepoint ∧
    identityAlias.decode? = some AffinePoint.identity ∧
    orderTwo.decode? = some { x := 0, y := -1 } ∧
    (exists s, (add basepoint identityAlias >>= fun t => add t orderTwo) = .ok s ∧
      (add identityAlias orderTwo >>= fun t => add basepoint t) = .ok s) ∧
    add basepoint identity = add basepoint identityAlias := by
  have hp : basepoint.decode? = some AffinePoint.basepoint := by decide +kernel
  have hq : identityAlias.decode? = some AffinePoint.identity := by decide +kernel
  have hr : orderTwo.decode? = some { x := 0, y := -1 } := by decide +kernel
  have hidentity : identity.decode? = some AffinePoint.identity := by decide +kernel
  rcases add_sub_commutative_group basepoint identityAlias orderTwo with ⟨-, -, -, hlaws⟩
  rcases hlaws _ _ _ hp hq hr with ⟨-, -, -, hassoc, -, -, -, halias, -⟩
  exact ⟨hp, hq, hr, hassoc, (halias basepoint identity hp hidentity).1⟩

end Point

end Edwards25519
