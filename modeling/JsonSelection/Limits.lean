import JsonSelection.Number.Binary64

/-!
# Limits

The figures that bound sampling, inference and page sizes. Depth caps are turned
into a number of levels that remain (`Limits.levelsFrom`), on which the
recursive analyses descend.

The figures are integers of either sign, as a caller may give them. A depth cap
that is not positive leaves no level, and a sample size that is negative counts
from the end of a list.
-/

set_option autoImplicit false

namespace JsonSelection

/-- Bounds on how much of a value is looked at and how large its list pages
become. All of them can be any integer; what has to be asked of them is a
hypothesis where it is needed. -/
structure Limits where
  sampleSize : Int := 50
  costSampleSize : Int := 10
  maxDepth : Int := 8
  maxInputDepth : Int := 6
  majorityThreshold : Rat := 3 / 5
  charsPerUnit : Int := 4
  charOverhead : Int := 10
  itemBudget : Int := 200
  minListLimit : Int := 3
  maxListLimit : Int := 50
  hashLength : Int := 12

namespace Limits

/-- The number of levels between a depth and the depth cap; it is zero exactly
at the cap or past it. -/
def levelsFrom (limits : Limits) (depth : Int) : Nat :=
  (limits.maxDepth - depth).toNat

/-- The number of levels below the depth cap of request bodies. -/
def inputLevelsFrom (limits : Limits) (depth : Int) : Nat :=
  (limits.maxInputDepth - depth).toNat

theorem levelsFrom_eq_zero_iff (limits : Limits) (depth : Int) :
    limits.levelsFrom depth = 0 ↔ limits.maxDepth ≤ depth := by
  simp only [levelsFrom]; omega

theorem levelsFrom_succ (limits : Limits) (depth : Int) :
    limits.levelsFrom (depth + 1) = limits.levelsFrom depth - 1 := by
  simp only [levelsFrom]; omega

end Limits

end JsonSelection
