import JsonSelection.Cost.Estimate
import JsonSelection.FieldName
import JsonSelection.Json.Display
import JsonSelection.Schema.Type

/-!
# Inferring types

Types are read off a value. An object becomes a registered type named after its
place, a list has the type of its merged elements, and raw JSON stands wherever
no single type can: past the depth cap, for lists of mixed kinds, and for fields
whose samples conflict.

## What this module delivers

- `Inference.scalarType`: the type of a value without parts.
- `Inference.fields`: the fields of an object type, in the order of the keys and
  with distinct names.
- `Inference.objectType` and `Inference.listType`: one level of the walk, over
  an inference for what lies below.
- `Inference.inferType`: the type of a value, on the number of levels left.

A type name that is registered already stands for the type it was given first,
and the value at hand is not looked at. A new name is registered before its
fields are walked, so a type may lead back to itself.
-/

set_option autoImplicit false

namespace JsonSelection

namespace Inference

/-- A type together with the registry that holds the object types in it. The
registry is handed from one step of an inference to the next. -/
abbrev Typed := TypeRef × Registry

/-- The remark on a field whose samples conflict. -/
def conflictNote : String :=
  "Sampled values disagree on the type of this field; returned as raw JSON."

/-- The type of a value that is neither an array nor an object. A whole number
is an integer in either form, and `null` counts as a text. -/
def scalarType (value : Json) : Scalar :=
  match value with
  | .bool _ => .boolean
  | .int _ => .int
  | .float x => if (Binary64.ofFloat x).isWhole then .int else .float
  | _ => .string

/-- What follows a key and a point at the start of a dotted path. The key may
hold points itself, and then other keys begin the same path. -/
def below? (key path : String) : Option String :=
  let front := (key ++ ".").toList
  if front.isPrefixOf path.toList then some (String.ofList (path.toList.drop front.length))
    else none

/-- The conflicts below a key, as paths from there. Those at the key itself are
not among them. -/
def conflictsBelow (conflicts : List String) (key : String) : List String :=
  conflicts.filterMap (below? key)

/-- The field of an empty object, which an object type needs to have one. It
reads nothing. -/
def emptyField : Field where
  name := "_empty"
  reader := .nothing
  type := .scalar .string
  description := some "Placeholder for an empty object."

/-- The remark on a field whose name differs from its key. -/
def renameNote? (name key : String) : Option String :=
  if name = key then none else some (FieldName.keyNote key)

/-- The raw JSON field of a key whose samples conflict. The remark on it tells
the conflict, after the key if the field was renamed. -/
def conflictField (name key : String) : Field where
  name := name
  reader := .member key
  type := .json
  description :=
    match renameNote? name key with
    | some note => some (note ++ " " ++ conflictNote)
    | none => some conflictNote
  conflict := true

/-- The field of a key with a type of its own. A list field takes the arguments
of its page. -/
def typedField (name key : String) (type : TypeRef) : Field where
  name := name
  reader := .member key
  type := type
  description := renameNote? name key
  arguments := Field.pageArguments type

/-! ## One level of the walk -/

/-- Infers the type of a value below an object or a list, given a name for it
and the conflicts in it. -/
abbrev Child := Json → String → List String → Registry → Except CostError Typed

/-- The fields of an object type, one for each entry. `used` holds the names
given so far. -/
def fields (child : Child) (typeName : String) (conflicts : List String) :
    List String → Entries Json → Registry → Except CostError (List Field × Registry)
  | _, [], types => .ok ([], types)
  | used, (key, value) :: rest, types =>
      let name := FieldName.fresh used (FieldName.sanitize key)
      if conflicts.contains key then do
        let (others, types) ← fields child typeName conflicts (used ++ [name]) rest types
        return (conflictField name key :: others, types)
      else do
        let (type, types) ← child value (typeName ++ "_" ++ name)
          (conflictsBelow conflicts key) types
        let (others, types) ← fields child typeName conflicts (used ++ [name]) rest types
        return (typedField name key type :: others, types)

/-- The type of an object. A name that is registered already stands for the type
it was given first; a new name is registered before the fields are walked. -/
def objectType (child : Child) (entries : Entries Json) (typeName : String)
    (conflicts : List String) (types : Registry) : Except CostError Typed :=
  -- a name that is taken stands for the type that has it, whatever its fields
  if types.has typeName then .ok (.named typeName, types)
  else
    match entries with
    | [] => .ok (.named typeName, Entries.put types typeName ⟨typeName, [emptyField], false⟩)
    | entries => do
        -- the name is taken before the types below are named
        let reserved := Entries.put types typeName ⟨typeName, [], false⟩
        let (fields, types) ← fields child typeName conflicts [] entries reserved
        return (.named typeName, Entries.put types typeName ⟨typeName, fields, false⟩)

/-- The value whose type stands for the elements of a list, and the conflicts in
it: the merged object if some elements are objects, else the first element that
is not `null`. -/
def representative (limits : Limits) (levels : Nat) (items : List Json) : Json × List String :=
  match Sample.mergeItems limits levels items with
  | some merged => (.obj merged.representative, merged.conflicts)
  | none => ((Sample.present items).headD .null, [])

/-- The type of a list. `levels` counts from the elements down. An empty list
holds raw JSON, and a list of several kinds is raw JSON itself, so that no page
is cut from it. -/
def listType (limits : Limits) (levels : Nat) (child : Child) (items : List Json)
    (typeName : String) (types : Registry) : Except CostError Typed :=
  match items with
  | [] => .ok (.list .json (some limits.maxListLimit), types)
  | items =>
      if Sample.isMixed limits items then .ok (.json, types)
      else do
        let (item, conflicts) := representative limits levels items
        let (type, types) ← child item (typeName ++ "_Item") conflicts types
        -- the page is sized by the items themselves, not by what stands for them
        let page ← Cost.pageSize limits levels items
        return (.list type (some page), types)

/-- The type of a value. Whatever lies past the last level is raw JSON, `null`
apart. -/
def inferType (limits : Limits) : Nat → Child
  | _, .null, _, _, types => .ok (.scalar .string, types)
  | 0, _, _, _, types => .ok (.json, types)
  | levels + 1, value, typeName, conflicts, types =>
      match value with
      | .arr items => listType limits levels (inferType limits levels) items typeName types
      | .obj entries => objectType (inferType limits levels) entries typeName conflicts types
      | value => .ok (.scalar (scalarType value), types)

end Inference

end JsonSelection
