import JsonSelection.Schema.Type

/-!
# Suggested queries

Queries made from the types of a schema, meant to run as they are: the plain
fields of the root, the plain fields of each list, and all fields a few levels
deep. A suggested mutation leaves its input to be filled in.

## What this module delivers

- `Suggestion.selection`: the selection of all fields of a type, down to a
  number of levels. A field whose selection would be empty is left out.
- `Suggestion.ofScalars`, `Suggestion.ofList`, `Suggestion.ofCount`,
  `Suggestion.ofAll`, `Suggestion.ofMutation`: the kinds of suggestions.
- `Suggestion.all`: all suggestions for a schema, in that order.

A suggestion is a text; that it parses and which selections it stands for is
proved in `Proofs/Schema/Suggestions`. No more than `Suggestion.fieldsPerLevel`
fields are shown on one level.
-/

set_option autoImplicit false

namespace JsonSelection

/-- A query with a name and a description. Name and description are words for a
reader and have no other meaning. -/
structure Suggestion where
  name : String
  query : String
  description : String
deriving DecidableEq, Repr

namespace Suggestion

/-- The number of fields shown on one level. -/
def fieldsPerLevel : Nat := 8

/-- The number of element fields shown beside a count. -/
def fieldsPerItem : Nat := 6

/-- The number of levels below the root that a full query shows. -/
def fullDepth : Nat := 2

/-! ## Selections -/

/-- Texts between braces. -/
def braced (parts : List String) : String :=
  "\x7b " ++ " ".intercalate parts ++ " \x7d"

/-- The names of the fields that need no selection of their own. -/
def leafNames (type : NamedType) : List String :=
  (type.fields.filter fun field => field.type.isLeaf).map Field.name

/-- What a list or a field that is none leads to. Of a list of lists that is a
list, which no suggestion goes into. -/
def target (type : TypeRef) : TypeRef :=
  (type.nullable.element?).getD type.nullable

/-- What a selection shows of a field, if it shows the field at all; `nested`
gives the selection of an object type. -/
def part (nested : String → Option String) (field : Field) : Option String :=
  let inner := target field.type
  if inner.isLeaf then some field.name
  else
    match inner with
    | .named name => (nested name).map fun selected => field.name ++ " " ++ selected
    | _ => none

/-- The selection of the first fields of a type that can be shown, if there is
any. A field that cannot be shown takes no place among them. -/
def selectionWith (nested : String → Option String) (type : NamedType) : Option String :=
  let parts := (type.fields.filterMap (part nested)).take fieldsPerLevel
  if parts.isEmpty then none else some (braced parts)

/-- The selection of the fields of a type down to a number of levels below it,
if there is any field to select. -/
def selection (schema : Schema) : Nat → NamedType → Option String
  | 0 => selectionWith fun _ => none
  | levels + 1 => selectionWith fun name => selection schema levels (schema.typeNamed name)

/-- The object type of the elements of a list field. -/
def elementType? (schema : Schema) (field : Field) : Option NamedType :=
  match field.type.element? with
  | some (.named name) => some (schema.typeNamed name)
  | _ => none

/-! ## Kinds of suggestions -/

/-- The plain fields of the root. There is no such suggestion if it has none. -/
def ofScalars (schema : Schema) : List Suggestion :=
  let names := (leafNames schema.query).take fieldsPerLevel
  if names.isEmpty then []
  else
    [{ name := "All top-level scalar fields"
       query := braced names
       description := "Returns " ++ ", ".intercalate names }]

/-- The plain fields of the elements of a list field. A field that is no list of
objects has no such suggestion. -/
def ofList (schema : Schema) (field : Field) : Option Suggestion := do
  let element ← elementType? schema field
  let names := (leafNames element).take fieldsPerLevel
  if names.isEmpty then none
  else
    some
      { name := "List " ++ field.name ++ " with basic fields"
        query := braced [field.name ++ " " ++ braced names]
        description :=
          "Fetches " ++ ", ".intercalate names ++ " for each item in " ++ field.name }

/-- The elements of an array response beside their count. Whether the response
is an array is told by the names of the fields of the root. -/
def ofCount (schema : Schema) : Option Suggestion := do
  let items ← schema.query.field? "items"
  let _ ← schema.query.field? "_count"
  let element ← elementType? schema items
  -- fields are told by their names alone: the count may need a selection of its own
  let names := (leafNames element).take fieldsPerItem
  if names.isEmpty then none
  else
    some
      { name := "Items with count"
        query := braced ["items " ++ braced names ++ " _count"]
        description := "Array response: fetches " ++ ", ".intercalate names ++ " with total count" }

/-- All fields a few levels deep. -/
def ofAll (schema : Schema) : Option Suggestion :=
  (selection schema fullDepth schema.query).map fun query =>
    { name := "Full query (depth " ++ toString fullDepth ++ ")"
      query := query
      description :=
        "All fields up to " ++ toString fullDepth ++ " levels deep, including nested objects" }

/-- A mutation field with the fields of its result. If it takes an input, the
text has a place for it that is to be filled in. -/
def ofMutation (schema : Schema) (field : Field) : Option Suggestion :=
  match field.type.nullable with
  | .named name =>
      (selection schema 1 (schema.typeNamed name)).map fun result =>
        -- what is left to the reader to fill in is marked by dots
        let input := if field.arguments.isEmpty then "" else "(input: \x7b ... \x7d)"
        { name := "Mutation: " ++ field.name
          query := "mutation " ++ braced [field.name ++ input ++ " " ++ result]
          description := "Write operation returning " ++ result }
  | _ => none

/-- The suggestions for a schema, in a fixed order: fields of the root, lists,
the count, everything, and mutations. -/
def all (schema : Schema) : List Suggestion :=
  ofScalars schema ++ schema.query.fields.filterMap (ofList schema) ++ (ofCount schema).toList ++
    (ofAll schema).toList ++
    ((schema.mutation.map NamedType.fields).getD []).filterMap (ofMutation schema)

/-- A suggestion as a JSON object. -/
def toJson (suggestion : Suggestion) : Json :=
  .obj [("name", .str suggestion.name), ("query", .str suggestion.query),
    ("description", .str suggestion.description)]

end Suggestion

end JsonSelection
