import JsonSelection.Json.Printer

/-!
# Token budgets

The size of a result is measured in tokens of about four characters of its
compact text. A result that exceeds its budget loses elements from the end of
its main list, down to the longest prefix that fits, but one element is always
kept.

## What this module delivers

- `Budget.tokens`: the size of a value.
- `Budget.primaryKey?`: the key of the main list, which is the list under
  `items` if there is one and the first visible list otherwise.
- `Budget.longest`: the greatest length that a test admits, found by halving.
- `Budget.truncate` and `Budget.fit`: the cut result, and what became of it in
  words that a caller can show (`Budget.Status.message`).

The room for the list is what the other entries leave of the budget
(`Budget.listBudget`). The key of the list and the marks around it are in
neither part, so a truncated result can exceed its budget; by how much is the
subject of `Proofs/Budget/Fitting`.
-/

set_option autoImplicit false

namespace JsonSelection

namespace Budget

/-- The budget of a result unless one is given, in tokens. It bounds what is
shown of the data and not the words around it. -/
def default : Int := 4000

/-! ## Sizes and the main list -/

/-- The size of a value in tokens: a quarter of the characters of its compact
text, rounded up. No value is free. -/
def tokens (value : Json) : Int :=
  max 1 ((value.compact.length + 3) / 4 : Nat)

/-- Whether a key starts with an underscore. Such keys hold remarks on a result,
so a list under one of them is never the main list. -/
def isHidden (key : String) : Bool :=
  key.toList.head? == some '_'

/-- Whether a value is an array. -/
def isArray (value : Json) : Bool :=
  value.items?.isSome

/-- The key of the main list among some entries: `items` if it holds a list,
else the first key of a list that does not start with an underscore. -/
def primaryIn? (entries : Entries Json) : Option String :=
  if (Entries.find? entries "items").any isArray then some "items"
  else (List.find? (fun entry => !isHidden entry.1 && isArray entry.2) entries).map Prod.fst

/-- The key of the main list of a result. -/
def primaryKey? (value : Json) : Option String :=
  value.entries?.bind primaryIn?

/-- The elements that some entries hold under a key; there are none if no list
stands there. -/
def listAt (entries : Entries Json) (key : String) : List Json :=
  ((Entries.find? entries key).bind Json.items?).getD []

/-! ## The longest prefix that fits

A prefix that fits has only prefixes that fit, so the lengths that fit are those
up to some bound, and halving finds it. -/

/-- Halves the range from `low` to `high` until nothing is left of it. `best` is
the last length that fitted. Each step makes the range shorter by one at least,
so the length of the range is fuel enough. -/
def search (fits : Nat → Bool) : Nat → Nat → Nat → Nat → Nat
  | 0, _, _, best => best
  | fuel + 1, low, high, best =>
      if low ≤ high then
        let middle := (low + high) / 2
        if fits middle then search fits fuel (middle + 1) high middle
        else search fits fuel low (middle - 1) best
      else best

/-- The greatest length from one up to a bound that fits, for a test that holds
of all lengths up to some point; one if none fits. -/
def longest (fits : Nat → Bool) (bound : Nat) : Nat :=
  search fits (bound + 1) 1 bound 1

/-- An object with its main list cut, the length of that list and the number of
elements kept. -/
structure Cut where
  entries : Entries Json
  total : Nat
  kept : Nat

/-- What is left of the budget for the main list beside the other entries. At
least one token is always left, so that the search has a range to look at. -/
def listBudget (entries : Entries Json) (key : String) (budget : Int) : Int :=
  max 1 (budget - tokens (.obj (entries.filter fun entry => entry.1 != key)))

/-- Cuts the main list of an object to the longest prefix that fits the room
that the other entries leave. An object without a list, or with an empty one, is
left as it is, and so is a list that fits. -/
def truncate (entries : Entries Json) (budget : Int) : Cut :=
  match primaryIn? entries with
  | none => ⟨entries, 0, 0⟩
  | some key =>
      let items := listAt entries key
      let count := items.length
      if items.isEmpty then ⟨entries, 0, 0⟩
      else
        -- what the rest of the object leaves to the list, which may be less than
        -- nothing
        let room := listBudget entries key budget
        if tokens (.arr items) ≤ room then ⟨entries, count, count⟩
        else
          let kept := longest (fun n => tokens (.arr (items.take n)) ≤ room) count
          ⟨Entries.put entries key (.arr (items.take kept)), count, kept⟩

/-! ## What became of a result -/

/-- What became of a result: it is shown whole, it is too large but has no list
to cut, or its main list was cut. -/
inductive Status where
  | complete (items : Option Nat)
  | oversized (budget : Int)
  | truncated (kept total : Nat) (budget : Int)
deriving DecidableEq, Repr

namespace Status

/-- The words for a status. A result that has no list to cut is shown as a whole
even if it is too large, and the words say so. -/
def message : Status → String
  | complete none => "COMPLETE"
  | complete (some n) => "COMPLETE (" ++ toString n ++ " items)"
  | oversized budget =>
      "COMPLETE (response exceeds token budget " ++ toString budget ++ " - select fewer fields)"
  | truncated kept total budget =>
      "TRUNCATED - " ++ toString kept ++ " of " ++ toString total ++ " items (token budget " ++
        toString budget ++ "). Select fewer fields to fit more items."

end Status

/-- Fits a result into a budget and tells what became of it. Only an object can
be cut: any other value is shown as a whole, whatever its size. -/
def fit (value : Json) (budget : Int) : Status × Json :=
  match value with
  | .obj entries =>
      if tokens (.obj entries) ≤ budget then
        (.complete ((primaryIn? entries).map fun key => (listAt entries key).length), .obj entries)
      else
        let cut := truncate entries budget
        -- nothing to cut: the object has no primary list, or an empty one
        if cut.total = 0 then (.oversized budget, .obj entries)
        else (.truncated cut.kept cut.total budget, .obj cut.entries)
  | value => (.complete none, value)

end Budget

end JsonSelection
