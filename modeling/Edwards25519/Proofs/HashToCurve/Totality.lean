import Mathlib
import Edwards25519.HashToCurve.Hash
import Edwards25519.Proofs.HashToCurve.Layout
import Edwards25519.Proofs.Point.Maps

/-!
# Hashing to the curve is total

A message is hashed to the curve under every context that fits beside the tag of the
suite. The points that the seeds are mapped to are written canonically, so the sum
decodes them all, and it is eight times the sum of the points before their components
of small order were cleared.
-/

namespace Edwards25519
namespace Point

/-! ## Sums of strings -/

theorem sum_pair (p q : Point) :
    sum p [q] = add p q := by
  rw [sum, List.foldlM_cons]
  simp only [List.foldlM_nil, bind_pure]

/-- Canonical strings always have a sum, since each of them decodes. -/
theorem sum_encode (P : CurvePoint) (rest : List CurvePoint) :
    sum (encode P.toAffine) (rest.map fun Q => encode Q.toAffine) =
      .ok (encode (P + rest.sum).toAffine) := by
  rw [sum]
  induction rest generalizing P with
  | nil =>
      rw [List.sum_nil, add_zero]
      rfl
  | cons Q rest ih =>
      rw [List.map_cons, List.foldlM_cons, add_of_decodes (decodes_encode P) (decodes_encode Q)]
      rw [ok_bind, ih, List.sum_cons, add_assoc]

/-! ## Messages -/

theorem checkRequest_of_long (s : Suite) {ctx : List UInt8} (h : 222 < ctx.length) :
    Expander.checkRequest s.seeds s.tag ctx = .error (.contextTooLong ctx.length 222) := by
  have hseeds : ¬ maxSeeds < s.seeds := by
    cases s with
    | nonUniform => decide
    | randomOracle => decide
  have htag : ¬ maxTagLength < 33 := by decide
  have hroom : maxTagLength - 33 = 222 := rfl
  rw [Expander.checkRequest, if_neg hseeds, s.length_tag, if_neg htag, hroom, if_pos h]

theorem fits_of_short (s : Suite) {ctx : List UInt8} (h : ctx.length <= 222) :
    Expander.Fits s.seeds s.tag ctx where
  num_le := by
    cases s with
    | nonUniform => decide
    | randomOracle => decide
  length_le := by
    have hmax : maxTagLength = 255 := rfl
    rw [s.length_tag]
    omega

theorem ofMessage_of_long (s : Suite) {ctx : List UInt8} (h : 222 < ctx.length)
    (msg : List UInt8) :
    ofMessage s ctx msg = .error (.contextTooLong ctx.length 222) := by
  apply ofMessage_of_error
  rw [Suite.points, FieldSeed.expand_of_checkRequest_error msg (checkRequest_of_long s h)]
  rfl

theorem exists_seeds_of_short (s : Suite) {ctx : List UInt8} (h : ctx.length <= 222)
    (msg : List UInt8) :
    exists seeds, FieldSeed.expand s.seeds s.tag ctx msg = .ok seeds ∧
      seeds.length = s.seeds := by
  refine ⟨_, FieldSeed.expand_of_fits msg (fits_of_short s h), ?_⟩
  rw [List.length_map, List.length_range]

theorem points_of_expand {s : Suite} {ctx msg : List UInt8} {seeds : List FieldSeed}
    (h : FieldSeed.expand s.seeds s.tag ctx msg = .ok seeds) :
    s.points ctx msg = .ok (seeds.map FieldSeed.toPoint) := by
  rw [Suite.points, h, Except.map]

/-- The points are multiples of eight, so their sum is eight times that of the raw points. -/
theorem ofMessage_eq_encode {s : Suite} {ctx msg : List UInt8} {seed : FieldSeed}
    {rest : List FieldSeed} (h : FieldSeed.expand s.seeds s.tag ctx msg = .ok (seed :: rest)) :
    ofMessage s ctx msg =
      .ok (encode (8 • (seed.rawPoint + (rest.map FieldSeed.rawPoint).sum)).toAffine) := by
  have hrest : rest.map FieldSeed.toPoint =
      (rest.map fun e => 8 • e.rawPoint).map fun P => encode P.toAffine := by
    rw [List.map_map]
    exact List.map_congr_left fun e _ => e.toPoint_eq_encode
  have hsum : (rest.map fun e => 8 • e.rawPoint).sum = 8 • (rest.map FieldSeed.rawPoint).sum := by
    rw [List.smul_sum, List.map_map]
    rfl
  have hpoints := points_of_expand h
  rw [List.map_cons] at hpoints
  rw [ofMessage_of_points hpoints, hrest, seed.toPoint_eq_encode, sum_encode, hsum, smul_add]

structure IsSubgroupString (p : Point) (Q : CurvePoint) : Prop where
  canonical : p.IsCanonicalFor Q.toAffine
  order : groupOrder • Q = 0
  valid_or_identity : p.isValid = true ∨ p = identity

theorem isSubgroupString_encode {Q : CurvePoint} (horder : groupOrder • Q = 0) :
    IsSubgroupString (encode Q.toAffine) Q where
  canonical := isCanonicalFor_encode Q
  order := horder
  valid_or_identity := (isValid_or_eq_identity_iff Q).mpr horder

/-- Only a context that is too long fails, and the sum of the points of two seeds never does. -/
theorem ofMessage_total (ctx msg : List UInt8) :
    (222 < ctx.length -> forall s,
      ofMessage s ctx msg = .error (.contextTooLong ctx.length 222)) ∧
    (ctx.length <= 222 ->
      (exists e p, FieldSeed.expand 1 Suite.nonUniform.tag ctx msg = .ok [e] ∧
        Suite.nonUniform.points ctx msg = .ok [p] ∧
        ofMessage .nonUniform ctx msg = .ok p ∧
        IsSubgroupString p (8 • e.rawPoint)) ∧
      (exists e f p q s, FieldSeed.expand 2 Suite.randomOracle.tag ctx msg = .ok [e, f] ∧
        Suite.randomOracle.points ctx msg = .ok [p, q] ∧
        ofMessage .randomOracle ctx msg = add p q ∧
        add p q = .ok s ∧
        IsSubgroupString s (8 • (e.rawPoint + f.rawPoint)))) := by
  constructor
  · intro h s
    exact ofMessage_of_long s h msg
  · intro h
    constructor
    · rcases exists_seeds_of_short .nonUniform h msg with ⟨seeds, hseeds, hlength⟩
      rcases List.length_eq_one_iff.mp hlength with ⟨e, rfl⟩
      refine ⟨e, e.toPoint, hseeds, points_of_expand hseeds, ?_, ?_⟩
      · exact ofMessage_of_points (points_of_expand hseeds)
      · rw [e.toPoint_eq_encode]
        exact isSubgroupString_encode (CurvePoint.groupOrder_nsmul_eight_nsmul e.rawPoint)
    · rcases exists_seeds_of_short .randomOracle h msg with ⟨seeds, hseeds, hlength⟩
      rcases List.length_eq_two.mp hlength with ⟨e, f, rfl⟩
      have hadd : ofMessage .randomOracle ctx msg = add e.toPoint f.toPoint :=
        (ofMessage_of_points (points_of_expand hseeds)).trans (sum_pair e.toPoint f.toPoint)
      refine ⟨e, f, e.toPoint, f.toPoint, _, hseeds, points_of_expand hseeds, hadd, ?_,
        isSubgroupString_encode (CurvePoint.groupOrder_nsmul_eight_nsmul _)⟩
      rw [← hadd, ofMessage_eq_encode hseeds, List.map_cons, List.map_nil]
      rw [List.sum_cons, List.sum_nil, add_zero]

theorem ofMessage_total_limits :
    ofMessage .randomOracle (List.replicate 223 99) [] = .error (.contextTooLong 223 222) ∧
    exists p q s, Suite.randomOracle.points (List.replicate 222 99) [] = .ok [p, q] ∧
      add p q = .ok s ∧ (s.isValid = true ∨ s = identity) := by
  have hlong : (List.replicate 223 (99 : UInt8)).length = 223 := List.length_replicate
  have hshort : (List.replicate 222 (99 : UInt8)).length = 222 := List.length_replicate
  have herror := (ofMessage_total (List.replicate 223 99) []).1 (by rw [hlong]; decide)
    .randomOracle
  rw [hlong] at herror
  rcases (ofMessage_total (List.replicate 222 99) []).2 (by rw [hshort]) with
    ⟨-, e, f, p, q, s, -, hpoints, -, hadd, hs⟩
  exact ⟨herror, p, q, s, hpoints, hadd, hs.valid_or_identity⟩

end Point
end Edwards25519
