import JsonSelection.Number.Binary64

/-!
# Rounding to nearest

`Rounding.nearest` rounds a rational number to 53 significant binary places,
none of them below the last place of binary64, which is what an operation on
binary64 numbers does to its exact result. A tie goes to the even neighbour here
and in `Rounding.divide`.

- `Rounding.divide`: the nearest integer to a quotient.
- `Rounding.binaryPlace`: the place of the leading binary digit.
- `Rounding.nearestSize` and `Rounding.nearest`: the nearest number.
- `Rounding.tenths`: the nearest number of tenths.

There is no greatest exponent: a result that binary64 could not hold is rounded
all the same and does not become an infinity.
-/

set_option autoImplicit false

namespace JsonSelection

namespace Rounding

/-- The integer nearest to `numerator / denominator`, the even one on a tie. -/
def divide (numerator denominator : Nat) : Nat :=
  let quotient := numerator / denominator
  let twice := 2 * (numerator % denominator)
  if twice < denominator then quotient
  else if denominator < twice then quotient + 1
  else quotient + quotient % 2

/-- The greatest `e` with `2 ^ e ≤ numerator / denominator`, for positive parts. -/
def binaryPlace (numerator denominator : Nat) : Int :=
  -- the binary lengths of the parts give the place, or one more than it
  let estimate : Int := (numerator.log2 : Int) - denominator.log2
  if denominator * pow2 estimate.toNat ≤ numerator * pow2 (-estimate).toNat then estimate
  else estimate - 1

/-- The number of binary places after the point of the smallest binary64 numbers. -/
def lastPlace : Int := 1074

/-- The nearest quotient with 53 significant binary places, for positive parts.
A quotient that is too small for that many has fewer, and may have none. -/
def nearestSize (numerator denominator : Nat) : Rat :=
  let shift := min lastPlace (52 - binaryPlace numerator denominator)
  let significand := divide (numerator * pow2 shift.toNat) (denominator * pow2 (-shift).toNat)
  mkRat (significand * pow2 (-shift).toNat) (pow2 shift.toNat)

/-- The nearest number with 53 significant binary places, down to the last
place. The sign is set apart first, since a tie is the same on both sides of
zero. -/
def nearest (x : Rat) : Rat :=
  if x.num = 0 then 0
  else
    let size := nearestSize x.num.natAbs x.den
    if x.num < 0 then -size else size

/-- The nearest number of tenths of a number that is not negative. -/
def tenths (x : Rat) : Nat :=
  divide (10 * x.num.natAbs) x.den

end Rounding

end JsonSelection
