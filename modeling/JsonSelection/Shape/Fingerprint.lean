import JsonSelection.Json.Printer
import JsonSelection.Number.Binary64
import JsonSelection.Sample

/-!
# Shapes

The shape of a value keeps its keys and coarse types and forgets the values.
Keys are sorted, and an array has the shape of its merged sample, so neither the
order of keys nor the length of arrays shows.

## What this module delivers

- `Shape`: the tree of keys and coarse types.
- `Shape.ofJson`: the shape of a value, on the number of levels left.
- `Shape.text`: a shape as a text. Keys are written as JSON strings, which keeps
  different shapes apart.
- `Shape.fingerprint`: the text of the shape of a value.

A list without objects has the shape of its first element, be it `null` or not.
The merged sample of a list of objects brings no conflicts along, so conflicting
and agreeing samples may have one shape.
-/

set_option autoImplicit false

namespace JsonSelection

/-- The shape of a value: the kinds of its scalars, the keys of its objects, and
of an array one shape for all elements. -/
inductive Shape where
  | null
  | opaqueJson
  | boolean
  | integer
  | float
  | string
  | emptyList
  | list (item : Shape)
  | object (fields : List (String × Shape))

namespace Shape

/-- Entries in the order of their keys, code point by code point. Keys are
compared as they are written in the value, before any name is made of them. -/
def sortedEntries (entries : Entries Json) : Entries Json :=
  entries.mergeSort fun a b => decide (a.1 ≤ b.1)

/-- The element whose shape stands for a list: the merged object if some
elements are objects, else the first element. -/
def representative (limits : Limits) (levels : Nat) (items : List Json) : Json :=
  match Sample.mergeItems limits levels items with
  | some merged => .obj merged.representative
  | none => items.headD .null

/-- The shape of a value; whatever lies past the last level is opaque, `null`
apart. -/
def ofJson (limits : Limits) : Nat → Json → Shape
  | _, .null => null
  | 0, _ => opaqueJson
  | levels + 1, value =>
      match value with
      | .null => null
      | .bool _ => boolean
      | .int _ => integer
      -- a float without a fraction has the shape of an integer
      | .float x => if (Binary64.ofFloat x).isWhole then integer else float
      | .str _ => string
      | .arr [] => emptyList
      | .arr items =>
          if Sample.isMixed limits items then list opaqueJson
          else list (ofJson limits levels (representative limits levels items))
      | .obj entries =>
          object ((sortedEntries entries).map fun entry => (entry.1, ofJson limits levels entry.2))

mutual

/-- The text of a shape. -/
def text : Shape → String
  | null => "n"
  | opaqueJson => "J"
  | boolean => "b"
  | integer => "i"
  | float => "f"
  | string => "s"
  | emptyList => "[]"
  | list item => "[" ++ item.text ++ "]"
  | object fields => "\x7b" ++ fieldsText true fields ++ "\x7d"

/-- The texts of fields, each but the first after a comma. -/
def fieldsText (isFirst : Bool) : List (String × Shape) → String
  | [] => ""
  | (key, shape) :: rest =>
      (if isFirst then "" else ",") ++ Json.quoted key ++ ":" ++ shape.text ++ fieldsText false rest

end

/-- The text of the shape of a value at a depth. The depth counts against the
cap, so that a value further down has fewer levels. -/
def fingerprint (limits : Limits) (depth : Int) (value : Json) : String :=
  (ofJson limits (limits.levelsFrom depth) value).text

end Shape

end JsonSelection
