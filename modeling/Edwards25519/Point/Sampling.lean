import Edwards25519.Point
import Edwards25519.Scalar.Sampling

/-!
# Random points

A random point is the image of uniform bytes. Points of known order are made as
multiples of the generator by random scalars.
-/

namespace Edwards25519
namespace Point

/-- The image of the first bytes of the stream, and the number of bytes taken. -/
def sample (s : ByteStream) : Point × Nat :=
  (fromUniform (s.draw 32), 32)

def yielded (num : Nat) (s : ByteStream) (h : Scalar.Yields num s) : List Point :=
  (Scalar.yielded num s h).map basepointMultiple

def generate (num : Nat) (s : ByteStream) (h : Scalar.Productive s) : List Point :=
  yielded num s (h.yields num)

/-! ## Strings that do not decode -/

def undecodable? (y : Nat) : Option Point :=
  let p : Point := { bytes := Bytes.ofNat 32 y }
  if p.decode?.isNone then some p else none

theorem undecodable?_two :
    (undecodable? (0 + 2)).isSome = true := by
  decide +kernel

/-- The string of the least `y` from two upwards that no point of the curve has. -/
def undecodable : Point :=
  (firstAccepted (fun k => undecodable? (k + 2)) ⟨0, undecodable?_two⟩).2

end Point
end Edwards25519
