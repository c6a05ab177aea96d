import Edwards25519.HashToCurve.Expander

/-!
# Hashing to the curve

A message is expanded under the tag of a suite and each seed is mapped to a
point. The only requests that fail are those with a context too long for the
tag beside it.
-/

namespace Edwards25519

/-!
## Suites

A suite says how many seeds a message is expanded to and under which tag.
-/

inductive Suite where
  /-- One seed is mapped to a point, which is not uniform in the group. -/
  | nonUniform
  /-- Two seeds are mapped and the points added, which is uniform in the group. -/
  | randomOracle
deriving DecidableEq

namespace Suite

def tagText : Suite -> String
  | nonUniform => "edwards25519_XMD:SHA-512_ELL2_NU_"
  | randomOracle => "edwards25519_XMD:SHA-512_ELL2_RO_"

def tag (s : Suite) : List UInt8 :=
  s.tagText.toUTF8.toList

def seeds : Suite -> Nat
  | nonUniform => 1
  | randomOracle => 2

theorem length_tag (s : Suite) :
    s.tag.length = 33 := by
  cases s <;> decide +kernel

/-! ## Messages -/

def points (s : Suite) (ctx msg : List UInt8) : Except Error (List Point) :=
  (FieldSeed.expand s.seeds s.tag ctx msg).map fun seeds => seeds.map FieldSeed.toPoint

theorem points_ne_nil {s : Suite} {ctx msg : List UInt8} {points : List Point}
    (h : s.points ctx msg = .ok points) :
    points ≠ [] := by
  rw [Suite.points, FieldSeed.expand] at h
  cases hstart : Expander.start s.seeds s.tag ctx msg with
  | error e =>
      rw [hstart] at h
      cases h
  | ok e =>
      rw [hstart] at h
      cases h
      intro hnil
      have hlength := congrArg List.length hnil
      cases s with
      | nonUniform => cases hlength
      | randomOracle => cases hlength

end Suite

namespace Point

/-- Adds points to the first one, from the left. -/
def sum (p : Point) (rest : List Point) : Except Error Point :=
  rest.foldlM add p

def ofMessage (s : Suite) (ctx msg : List UInt8) : Except Error Point :=
  match h : s.points ctx msg with
  | .error e => .error e
  | .ok points => sum (points.head (Suite.points_ne_nil h)) points.tail

theorem ofMessage_of_error {s : Suite} {ctx msg : List UInt8} {e : Error}
    (h : s.points ctx msg = .error e) :
    ofMessage s ctx msg = .error e := by
  rw [ofMessage]
  split
  · rename_i herror
    rw [h] at herror
    cases herror
    rfl
  · rename_i hpoints
    rw [h] at hpoints
    cases hpoints

theorem ofMessage_of_points {s : Suite} {ctx msg : List UInt8} {p : Point} {rest : List Point}
    (h : s.points ctx msg = .ok (p :: rest)) :
    ofMessage s ctx msg = sum p rest := by
  rw [ofMessage]
  split
  · rename_i herror
    rw [h] at herror
    cases herror
  · rename_i hpoints
    rw [h] at hpoints
    cases hpoints
    rfl

end Point
end Edwards25519
