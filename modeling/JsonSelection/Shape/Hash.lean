import JsonSelection.Shape.Digest
import JsonSelection.Shape.Fingerprint

/-!
# Shape hashes

The shape hash of a value is the start of the digest of its fingerprint. Values
of one shape share it. That different shapes have different hashes is not
claimed: the digest is cut to `Limits.hashLength` digits.
-/

set_option autoImplicit false

namespace JsonSelection

namespace Shape

/-- The first hexadecimal digits of the digest of a fingerprint. How many is one
of the limits, and a negative number leaves out the last ones. -/
def hashOfText (limits : Limits) (fingerprint : String) : String :=
  String.ofList (Slice.before (Digest.sha256 fingerprint) limits.hashLength)

/-- The shape hash of a value. -/
def hash (limits : Limits) (value : Json) : String :=
  hashOfText limits (fingerprint limits 0 value)

end Shape

end JsonSelection
