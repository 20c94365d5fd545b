import JsonSelection.Json.Basic
import JsonSelection.Slice

/-!
# Slices of a top-level array

An array can be cut to a window before it is queried. `Page.take` gives the
window together with what it leaves out: whether elements are missing, and how
many there were. Values that are not arrays are never cut.

A window without a limit has `Page.defaultLength` elements. Positions may be
negative and then count from the end, as those of `Slice` do.
-/

set_option autoImplicit false

namespace JsonSelection

namespace Page

/-- The number of elements of a window whose length is not given. -/
def defaultLength : Int := 50

/-- A value cut to a window: the data, whether elements were left out, and how
many there were, which only an array tells. -/
structure Window where
  data : Json
  truncated : Bool
  total : Option Nat

/-- Cuts an array to the elements from an offset on; other values stay whole.
Elements may be left out on either side, and then the window counts as
truncated. -/
def take (value : Json) (limit offset : Option Int) : Window :=
  match value with
  | .arr items =>
      let start := offset.getD 0
      let kept := Slice.between items start (start + limit.getD defaultLength)
      ⟨.arr kept, kept.length < items.length, some items.length⟩
  | value => ⟨value, false, none⟩

end Page

end JsonSelection
