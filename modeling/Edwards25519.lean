import Edwards25519.Bytes.Range
import Edwards25519.HashToCurve.Hash
import Edwards25519.Point.Sampling
import Edwards25519.Point.Validity
import Edwards25519.Ristretto.Hash
import Edwards25519.Proofs.Primality
import Edwards25519.Proofs.FieldElement.Field
import Edwards25519.Proofs.FieldElement.Sign
import Edwards25519.Proofs.FieldElement.SquareRoot
import Edwards25519.Proofs.Curve.Group
import Edwards25519.Proofs.Curve.Multiple
import Edwards25519.Proofs.Curve.Encoding
import Edwards25519.Proofs.Operands
import Edwards25519.Proofs.Point.GroupLaws
import Edwards25519.Proofs.Curve.Order
import Edwards25519.Proofs.Curve.Generators
import Edwards25519.Proofs.Point.Validity
import Edwards25519.Proofs.Curve.Elligator
import Edwards25519.Proofs.Point.Maps
import Edwards25519.Proofs.Point.Closure
import Edwards25519.Proofs.Scalar.Sampling
import Edwards25519.Proofs.Point.Multiples
import Edwards25519.Proofs.Curve.Even
import Edwards25519.Proofs.Curve.Rotation
import Edwards25519.Proofs.Ristretto.Decoding
import Edwards25519.Proofs.Ristretto.Encoding
import Edwards25519.Proofs.Ristretto.GroupLaws
import Edwards25519.Proofs.Ristretto.RoundTrip
import Edwards25519.Proofs.Ristretto.PrimeOrder
import Edwards25519.Proofs.Curve.RoundTrip
import Edwards25519.Proofs.Scalar.Ring
import Edwards25519.Proofs.Scalar.Expression
import Edwards25519.Proofs.Hash.Expansion
import Edwards25519.Proofs.HashToCurve.Expander
import Edwards25519.Proofs.HashToCurve.Layout
import Edwards25519.Proofs.HashToCurve.Separation
import Edwards25519.Proofs.Curve.ElligatorInput
import Edwards25519.Proofs.HashToCurve.Totality
import Edwards25519.Proofs.Ristretto.Hash
import Edwards25519.Proofs.Ristretto.Separation
import Edwards25519.Proofs.Point.SmallOrder
import Edwards25519.Proofs.Point.Blocklist
import Edwards25519.Proofs.FieldElement.Operations
import Edwards25519.Proofs.Curve.Montgomery
import Edwards25519.Proofs.Scalar.Inverse
import Edwards25519.Proofs.Ristretto.OneWayMap
import Edwards25519.Proofs.Ristretto.FromHash
import Edwards25519.Proofs.Scalar.FirstDraw
import Edwards25519.Proofs.Scalar.Uniformity
import Edwards25519.Proofs.Point.Maps
import Edwards25519.Proofs.Curve.Collisions
