import JsonSelection.Json.Basic
import JsonSelection.Limits
import JsonSelection.Slice

/-!
# Merging samples

Many objects of one array are merged into one representative object. Each key
takes the kind that wins among the values seen under it: the only kind, or the
most frequent one if its share reaches the majority threshold. A key without a
winner is a conflict; conflicts inside merged objects are reported by dotted
paths.

## What this module delivers

- `Sample.kindsSeen`, `Sample.votes`, `Sample.dominant?`: the vote among the
  kinds of some values.
- `Sample.verdict`: what the values under one key agree on.
- `Sample.merge`: the merged object, on the number of levels left.
- `Sample.mergeItems`: the merge of the objects among the elements of an array
  that are looked at.

Values that are `null` say nothing about a kind and are left out of every vote.
With no level left the first object stands for all, unmerged.
-/

set_option autoImplicit false

namespace JsonSelection

namespace Sample

/-! ## Elements, kinds and votes -/

/-- The elements of an array that are looked at. All analyses of an array begin
with these, so elements further on have no effect. -/
def ofItems (limits : Limits) (items : List Json) : List Json :=
  Slice.before items limits.sampleSize

/-- A list that is short enough is looked at as a whole. -/
theorem ofItems_of_length_le {limits : Limits} {items : List Json}
    (h : (items.length : Int) ≤ limits.sampleSize) : ofItems limits items = items :=
  Slice.before_of_length_le h

/-- The values that are not `null`. -/
def present (values : List Json) : List Json :=
  values.filter fun value => !value.isNull

theorem mem_present_iff (values : List Json) (value : Json) :
    value ∈ present values ↔ value ∈ values ∧ value.isNull = false := by
  simp [present]

/-- The kinds of some values in the order in which they first occur. -/
def kindsSeen (values : List Json) : List Kind :=
  (values.map Json.kind).eraseDups

/-- How many of the values are of a kind. -/
def votes (values : List Json) (kind : Kind) : Nat :=
  values.countP fun value => value.kind == kind

/-- The first of the kinds that none of the others outvotes. A kind takes the
lead only with more votes, so on a tie the one that was seen first keeps it. -/
def leader (values : List Json) (first : Kind) (others : List Kind) : Kind :=
  others.foldl (fun best kind => if votes values best < votes values kind then kind else best) first

/-- The most frequent kind, the first one seen on a tie. -/
def dominant? (values : List Json) : Option Kind :=
  match kindsSeen values with
  | [] => none
  | first :: others => some (leader values first others)

/-- The values of a kind. -/
def ofKind (values : List Json) (kind : Kind) : List Json :=
  values.filter fun value => value.kind == kind

/-- Whether the elements that are looked at are of more than one kind, `null`
apart. -/
def isMixed (limits : Limits) (items : List Json) : Bool :=
  1 < (kindsSeen (present (ofItems limits items))).length

/-! ## Verdicts -/

/-- What the values under one key agree on: nothing is known, they split, or a
kind has won. A split keeps the first value, which stands for the others. -/
inductive Verdict where
  | unobserved
  | split (first : Json)
  | won (kind : Kind)

/-- The verdict of the values under a key, `null`s left out. A kind that is the
only one wins whatever the threshold is. -/
def verdict (threshold : Rat) (values : List Json) : Verdict :=
  match values with
  | [] => .unobserved
  | value :: _ =>
      match kindsSeen values with
      | [] => .unobserved
      | [kind] => .won kind
      | first :: others =>
          let kind := leader values first others
          -- the threshold itself is enough to win
          if ((votes values kind : Rat) / (values.length : Rat)) < threshold then .split value
          else .won kind

/-! ## Merging -/

/-- A representative object and the dotted paths of its conflicts, each once.
The paths are told from the object, without the key under which it stands. -/
structure Merged where
  representative : Entries Json
  conflicts : List String

/-- The keys of some objects in the order in which they first occur. -/
def keysSeen (objects : List (Entries Json)) : List String :=
  (objects.flatMap Entries.keys).eraseDups

/-- The values that some objects hold under a key, `null`s left out. -/
def observations (objects : List (Entries Json)) (key : String) : List Json :=
  present (objects.filterMap fun entries => entries.find? key)

/-- The array that stands for some arrays: the first one that is not empty, else
the first. -/
def firstFilled (arrays : List Json) : Json :=
  match arrays.find? fun value => value.items?.any fun items => !items.isEmpty with
  | some value => value
  | none => arrays.headD .null

/-- The value that stands for the values under a key, and the conflicts at the
key and below it; `merge` merges the objects one level down. -/
def represent (threshold : Rat) (merge : List (Entries Json) → Merged) (key : String)
    (values : List Json) : Json × List String :=
  match verdict threshold values with
  | .unobserved => (.null, [])
  | .split first => (first, [key])
  | .won .object =>
      match values.filterMap Json.entries? with
      | [] => (.null, [])
      -- a lone object stands for itself and is not merged
      | [entries] => (.obj entries, [])
      | objects =>
          let merged := merge objects
          (.obj merged.representative, merged.conflicts.map fun path => key ++ "." ++ path)
  | .won .array => (firstFilled (ofKind values .array), [])
  | .won kind => ((ofKind values kind).headD .null, [])

/-- Merges objects key by key. With no level left the first object stands for
all, and no conflict is reported. -/
def merge (threshold : Rat) : Nat → List (Entries Json) → Merged
  | 0, objects => ⟨objects.headD [], []⟩
  | levels + 1, objects =>
      let chosen := (keysSeen objects).map fun key =>
        (key, represent threshold (merge threshold levels) key (observations objects key))
      { representative := chosen.map fun entry => (entry.1, entry.2.1)
        conflicts := (chosen.flatMap fun entry => entry.2.2).eraseDups }

/-- Merges the objects among the elements that are looked at, if there are any.
Elements that are no objects are left out. -/
def mergeItems (limits : Limits) (levels : Nat) (items : List Json) : Option Merged :=
  match (ofItems limits items).filterMap Json.entries? with
  | [] => none
  | objects => some (merge limits.majorityThreshold levels objects)

end Sample

end JsonSelection
