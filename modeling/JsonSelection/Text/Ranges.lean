/-!
# Character ranges

Membership of a character in a table of code point ranges. The property tables
of this folder are such tables; they are searched from the front.
-/

set_option autoImplicit false

namespace JsonSelection

namespace Text

/-- Whether a character lies in one of the ranges, whose ends belong to them. -/
def inRanges (ranges : Array (Nat × Nat)) (c : Char) : Bool :=
  ranges.any fun range => range.1 ≤ c.toNat && c.toNat ≤ range.2

end Text

end JsonSelection
