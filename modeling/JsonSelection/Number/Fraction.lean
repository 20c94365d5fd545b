import JsonSelection.Number.Shortest

/-!
# The simplest fraction behind a binary64 number

A share such as two thirds reaches the library as a binary64 number, which is
close to the fraction meant. `Fraction.ofFloat` gives the fraction of smallest
denominator among the reals that round to the number, and shares of samples are
compared with that fraction exactly.

The quotient of two small counts is at least as large as the number exactly when
it is at least as large as the simplest fraction, so the comparison agrees with
one of rounded quotients.
-/

set_option autoImplicit false

namespace JsonSelection

namespace Fraction

/-- The fraction of smallest denominator from `low` to `high`, for
`0 < low ≤ high`. The whole parts are split off one after the other; the fuel
bounds their number. -/
def simplestBetween : Nat → Rat → Rat → Rat
  | 0, low, _ => low
  | fuel + 1, low, high =>
      let whole := low.floor
      if (whole : Rat) = low then whole
      else if (whole + 1 : Int) ≤ high then (whole + 1 : Int)
      -- both ends have this whole part, and the inverses of the remainders change places
      else whole + (simplestBetween fuel (high - whole)⁻¹ (low - whole)⁻¹)⁻¹

/-- A number of quarters of the last binary place. The ends of a rounding
interval are whole numbers of these. -/
def quarters (n : Nat) (exponent : Int) : Rat :=
  let binary := exponent - 2
  mkRat (n * pow2 binary.toNat) (pow2 (-binary).toNat)

/-- The simplest fraction that a float stands for. A share can be no more than
one, so every share is below positive infinity; no share is below a value that
is no number. -/
def ofFloat (x : Float) : Rat :=
  match Binary64.ofFloat x with
  | .nan => 0
  | .infinite negative => if negative then 0 else 2
  | .finite negative significand exponent =>
      if significand = 0 then 0
      else
        let range := Shortest.interval significand exponent
        let size :=
          simplestBetween 4096 (quarters range.lower exponent) (quarters range.upper exponent)
        if negative then -size else size

end Fraction

end JsonSelection
