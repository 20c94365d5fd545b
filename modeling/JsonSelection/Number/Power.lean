/-!
# Powers of two and ten

The two scales of binary64 numbers and of their decimal texts. They are
functions of their own so that large powers stay folded in proofs.
-/

set_option autoImplicit false

namespace JsonSelection

/-- Two to a power. -/
def pow2 (n : Nat) : Nat :=
  Nat.pow 2 n

/-- Ten to a power. -/
def pow10 (n : Nat) : Nat :=
  Nat.pow 10 n

end JsonSelection
