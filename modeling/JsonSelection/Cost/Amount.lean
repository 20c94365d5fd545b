import JsonSelection.Json.Basic
import JsonSelection.Number.Rounding

/-!
# Amounts

A cost is a whole number until it is divided; from then on it is a number with
53 significant binary places, and every operation rounds its exact result once.

The two forms are kept apart (`Amount.whole`, `Amount.rounded`) because whole
numbers never lose a place, however large they become, while a rounded amount
does. A whole number that meets a rounded one is rounded first
(`Amount.operand`). The rounded form is an exact rational number, so statements
about costs are statements of rational arithmetic (`Amount.toRat`).

No amount here is too large for binary64: the rounding has no greatest exponent.
-/

set_option autoImplicit false

namespace JsonSelection

/-- A cost: a whole number, or a rounded quotient. Costs start out whole and
become rounded when a mean is taken. -/
inductive Amount where
  | whole (n : Int)
  | rounded (x : Rat)
deriving DecidableEq

namespace Amount

/-- The amount as an exact number. -/
def toRat : Amount → Rat
  | whole n => n
  | rounded x => x

/-- The amount as an operand of rounded arithmetic. -/
def operand : Amount → Rat
  | whole n => Rounding.nearest n
  | rounded x => x

/-- The sum of two amounts. Whole amounts have a whole sum; any other sum is
rounded, so the order of several matters. -/
def add : Amount → Amount → Amount
  | whole a, whole b => whole (a + b)
  | a, b => rounded (Rounding.nearest (a.operand + b.operand))

/-- The rounded quotient of two amounts. The quotient of whole amounts is
rounded once. -/
def divide : Amount → Amount → Amount
  | whole a, whole b => rounded (Rounding.nearest ((a : Rat) / b))
  | a, b => rounded (Rounding.nearest (a.operand / b.operand))

/-- The rounded product of a whole amount and a rounded one. -/
def scale (n : Int) (x : Rat) : Amount :=
  rounded (Rounding.nearest (Rounding.nearest n * x))

/-- The amount, but at least one. What is raised to one is whole, and so is an
amount of exactly one. -/
def atLeastOne (a : Amount) : Amount :=
  if 1 < a.toRat then a else whole 1

/-- The least integer that is not below the amount. -/
def ceil (a : Amount) : Int :=
  a.toRat.ceil

/-- The greatest integer that is not above the amount. -/
def floor (a : Amount) : Int :=
  a.toRat.floor

/-- The amount as a JSON number. A rounded amount is a quotient of two numbers
that binary64 holds exactly, so their quotient is the amount itself. -/
def toJson : Amount → Json
  | whole n => .int n
  | rounded x => .float (Float.ofInt x.num / Float.ofNat x.den)

end Amount

end JsonSelection
