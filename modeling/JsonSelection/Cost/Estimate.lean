import JsonSelection.Cost.Amount
import JsonSelection.Sample

/-!
# Cost estimates and page sizes

The cost of a value is measured in units of a few characters of output. A list
costs as much as its average element, because every list is paged on its own.

## What this module delivers

- `Cost.estimate`: the cost of a value, on the number of levels left to look at.
- `Cost.ofItem`: the cost of one element of a list. A list of objects is judged
  by its merged sample, any other list by the mean of some elements.
- `Cost.pageSize`: the number of elements whose cost stays near the budget of
  one page, between the least and the greatest page size.

The one way to fail is `CostError.emptyUnit`: with units of no characters a text
has no cost. Sums are taken from the left, in the order of the elements, since
rounded addition is not associative.
-/

set_option autoImplicit false

namespace JsonSelection

/-- Why a cost cannot be given. -/
inductive CostError where
  /-- Texts are to be measured in units of no characters. -/
  | emptyUnit
deriving DecidableEq, Repr

namespace Cost

/-- The sum of the costs of some values, added from the left. It starts at a
whole zero, so no sum of whole costs is ever rounded. -/
def total (cost : Json → Except CostError Amount) (values : List Json) :
    Except CostError Amount :=
  values.foldlM (fun sum value => (cost value).map sum.add) (.whole 0)

/-- The mean cost of some values. It is asked for only where there are some. -/
def mean (cost : Json → Except CostError Amount) (values : List Json) : Except CostError Amount :=
  (total cost values).map fun sum => sum.divide (.whole values.length)

/-- The cost of a text: its length and a fixed overhead in units, rounded up.
The quotient is rounded to binary64 before it is rounded up. -/
def ofText (limits : Limits) (text : String) : Except CostError Amount :=
  if limits.charsPerUnit = 0 then .error .emptyUnit
  else
    let length : Int := text.length + limits.charOverhead
    .ok (.whole ((Amount.whole length).divide (.whole limits.charsPerUnit)).ceil)

/-- The cost of a value. A list costs as much as the mean of its first elements,
an object as much as all its entries together, and whatever lies past the last
level costs one unit. -/
def estimate (limits : Limits) : Nat → Json → Except CostError Amount
  | 0, _ => .ok (.whole 1)
  | levels + 1, value =>
      match value with
      | .arr items =>
          -- a sample of no items costs as much as an empty array
          match Slice.before items limits.costSampleSize with
          | [] => .ok (.whole 1)
          | sample => (mean (estimate limits levels) sample).map Amount.atLeastOne
      | .obj entries =>
          (total (estimate limits levels) (entries.map Prod.snd)).map Amount.atLeastOne
      | .str text => ofText limits text
      | _ => .ok (.whole 1)

/-- The cost of one element of a list: of the merged object if it holds objects,
else the mean of some elements. `levels` counts from the elements down. No
element costs less than one unit, so the quotient in `pageSize` is never
infinite. -/
def ofItem (limits : Limits) (levels : Nat) (items : List Json) : Except CostError Amount :=
  match Sample.mergeItems limits levels items with
  | some merged => (estimate limits levels (.obj merged.representative)).map Amount.atLeastOne
  | none =>
      match Slice.before items limits.costSampleSize with
      | [] => .ok (.whole 1)
      | sample => (mean (estimate limits levels) sample).map Amount.atLeastOne

/-- A number of elements moved between the least and the greatest page size. If
these are in the wrong order the least one counts. -/
def clampPage (limits : Limits) (count : Int) : Int :=
  max limits.minListLimit (min limits.maxListLimit count)

/-- The page size of a list: as many elements as the budget pays for. `levels`
counts from the elements down. -/
def pageSize (limits : Limits) (levels : Nat) (items : List Json) : Except CostError Int :=
  match items with
  | [] => .ok limits.maxListLimit
  | items =>
      (ofItem limits levels items).map fun cost =>
        clampPage limits ((Amount.whole limits.itemBudget).divide cost).floor

end Cost

end JsonSelection
