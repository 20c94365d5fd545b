import JsonSelection.Number.Binary64

/-!
# The fewest digits that read back

A decimal reads back as a given binary64 number when it lies in the interval of
reals that round to that number. `Shortest.digits` searches the decimal grids
from coarse to fine and takes the first one that has a point in the interval; of
two points the nearer one is taken, and on a tie the one with the even last
digit.

- `Shortest.interval`: the interval, in quarters of the last binary place, where
  its ends are whole numbers.
- `Shortest.onGrid?`: a point of one grid that reads back.
- `Shortest.leadingPlace`: the coarsest grid that is tried.
- `Shortest.search` and `Shortest.digits`: the decimal.

All steps are on natural numbers. `Proofs/Number/Shortest` shows that the
decimal is in the interval of its number and in that of no other one.
-/

set_option autoImplicit false

namespace JsonSelection

/-- A positive decimal `digits * 10 ^ exponent`. -/
structure Decimal where
  digits : Nat
  exponent : Int
deriving DecidableEq, Repr

namespace Shortest

/-- The interval of reals that round to `significand * 2 ^ exponent`, in
quarters of the last binary place: lower end, the number itself, upper end, and
whether the ends belong to it. Below a power of two the neighbours lie twice as
dense, so there the lower end is nearer. -/
structure Interval where
  lower : Nat
  middle : Nat
  upper : Nat
  closed : Bool

/-- The rounding interval of a positive finite number. Ends round to an even
significand. -/
def interval (significand : Nat) (exponent : Int) : Interval where
  lower := if significand = pow2 52 ∧ -1074 < exponent then 4 * significand - 1
    else 4 * significand - 2
  middle := 4 * significand
  upper := 4 * significand + 2
  closed := significand % 2 == 0

/-- Numerator and denominator that turn quarters of the last binary place into
units of `10 ^ place`. -/
def scale (exponent place : Int) : Nat × Nat :=
  let binary := exponent - 2
  (pow2 binary.toNat * pow10 (-place).toNat, pow2 (-binary).toNat * pow10 place.toNat)

/-- The grid point of `10 ^ place` that reads back, if one of the two neighbours
of the number does. -/
def onGrid? (range : Interval) (exponent place : Int) : Option Nat :=
  let (up, down) := scale exponent place
  let below := range.middle * up / down
  let belowFits :=
    if range.closed then range.lower * up ≤ below * down else range.lower * up < below * down
  let aboveFits :=
    if range.closed then (below + 1) * down ≤ range.upper * up
    else (below + 1) * down < range.upper * up
  -- the number lies nearer to the lower point if it lies below the middle between the two
  let twice := 2 * (range.middle * up)
  let half := (2 * below + 1) * down
  let belowNearer := twice < half ∨ (twice = half ∧ below % 2 = 0)
  if belowFits ∧ below ≠ 0 ∧ (¬ aboveFits ∨ belowNearer) then some below
  else if aboveFits then some (below + 1)
  else none

/-- The first grid, from the coarsest of the given count on, that has a point
which reads back. -/
def search (range : Interval) (exponent : Int) : Nat → Int → Decimal
  | 0, place => ⟨range.middle * (scale exponent place).1 / (scale exponent place).2, place⟩
  | more + 1, place =>
      match onGrid? range exponent place with
      | some point => ⟨point, place⟩
      | none => search range exponent more (place - 1)

/-- Whether `10 ^ place` is at most `significand * 2 ^ exponent`. -/
def reaches (significand : Nat) (exponent place : Int) : Bool :=
  pow2 (-exponent).toNat * pow10 place.toNat ≤ significand * pow2 exponent.toNat *
    pow10 (-place).toNat

/-- The decimal place of the leading digit of a positive number. The binary
length gives an estimate that is off by at most one. -/
def leadingPlace (significand : Nat) (exponent : Int) : Int :=
  let estimate := ((significand.log2 : Int) + exponent) * 30103 / 100000
  if reaches significand exponent (estimate + 1) then estimate + 1
  else if reaches significand exponent estimate then estimate
  else estimate - 1

/-- Drops trailing zeros; the fuel bounds their number. -/
def dropZeros : Nat → Decimal → Decimal
  | 0, d => d
  | fuel + 1, d =>
      if d.digits ≠ 0 ∧ d.digits % 10 = 0 then dropZeros fuel
        ⟨d.digits / 10, d.exponent + 1⟩ else d

/-- The shortest decimal that reads back as `significand * 2 ^ exponent`, for a
positive significand. Seventeen digits always suffice. -/
def digits (significand : Nat) (exponent : Int) : Decimal :=
  dropZeros 20 (search (interval significand exponent) exponent 17
    (leadingPlace significand exponent))

end Shortest

end JsonSelection
