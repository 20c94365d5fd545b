import JsonSelection.Json.Basic

/-!
# Schema types

A schema types the fields of a JSON value. Object types are kept by name in a
registry, and a type refers to them by name only, so a schema is plain data.

## What this module delivers

- `Scalar`, `TypeRef`: types, with the page size of a list in its type.
- `Reader`: how a field gets its value from its source object.
- `Field`, `Argument`: what a type exposes, and what a selection may give.
- `NamedType`, `Registry`, `Schema`: object types and what holds them.

Reference by name is faithful because a registered type is never replaced by
another one that a field refers to. A name that is not registered stands for a
type without fields (`Registry.typeNamed`), so that reading a schema never
fails; that no schema which is built refers to such a name is proved in
`Proofs/Schema/Closed`.
-/

set_option autoImplicit false

namespace JsonSelection

/-! ## Types -/

/-- The scalar types. -/
inductive Scalar where
  | string
  | int
  | float
  | boolean
deriving DecidableEq, Repr

namespace Scalar

/-- The name of a scalar type. -/
def name : Scalar → String
  | string => "String"
  | int => "Int"
  | float => "Float"
  | boolean => "Boolean"

end Scalar

/-- The type of a field: a scalar, raw JSON, a list with the page size used when
a query gives none, a type that excludes `null`, or an object type by name. -/
inductive TypeRef where
  | scalar (type : Scalar)
  | json
  | list (item : TypeRef) (page : Option Int)
  | nonNull (inner : TypeRef)
  | named (name : String)
deriving DecidableEq, Repr

namespace TypeRef

/-- The text of a type. -/
def text : TypeRef → String
  | scalar type => type.name
  | json => "JSON"
  | list item _ => "[" ++ item.text ++ "]"
  | nonNull inner => inner.text ++ "!"
  | named name => name

/-- The type inside all list and non-null wrappers. -/
def innermost : TypeRef → TypeRef
  | list item _ => item.innermost
  | nonNull inner => inner.innermost
  | type => type

/-- The type inside a non-null wrapper. -/
def nullable : TypeRef → TypeRef
  | nonNull inner => inner
  | type => type

/-- The page sizes of the lists of a type from the outside in. A list of an
input type has none. -/
def pages : TypeRef → List (Option Int)
  | list item page => page :: item.pages
  | nonNull inner => inner.pages
  | _ => []

/-- Whether the type is a scalar or raw JSON. A field of such a type has no
selection of its own. -/
def isLeaf (type : TypeRef) : Bool :=
  match type.nullable with
  | scalar _ => true
  | json => true
  | _ => false

/-- The element type of a list, freed of a non-null wrapper. Any other type has
none. -/
def element? (type : TypeRef) : Option TypeRef :=
  match type.nullable with
  | list item _ => some item.nullable
  | _ => none

/-- The object type inside all wrappers. -/
def namedInside? (type : TypeRef) : Option String :=
  match type.innermost with
  | named name => some name
  | _ => none

end TypeRef

/-! ## Fields and their readers -/

/-- An argument of a field with its type and its default. Only page arguments
have defaults, so these are integers. -/
structure Argument where
  name : String
  type : TypeRef
  default : Option Int
deriving DecidableEq, Repr

/-- How a field gets its value from its source. -/
inductive Reader where
  /-- The value under a key of an object. -/
  | member (key : String)
  /-- No value at all. -/
  | nothing
  /-- The source itself. -/
  | whole
  /-- The length of the source. -/
  | length
  /-- The text of the source. -/
  | text
deriving DecidableEq, Repr

namespace Reader

/-- The key that a field reads, if it reads one. -/
def key? : Reader → Option String
  | member key => some key
  | _ => none

end Reader

/-- One exposed field. The name is unique in its type, and the reader tells what
it stands for; `conflict` marks a key whose samples disagree. -/
structure Field where
  name : String
  reader : Reader
  type : TypeRef
  description : Option String := none
  conflict : Bool := false
  arguments : List Argument := []
deriving DecidableEq, Repr

namespace Field

/-- The argument of a given name. -/
def argument? (field : Field) (name : String) : Option Argument :=
  field.arguments.find? fun argument => argument.name == name

/-- The arguments that select a page of a list field; other fields have none.
The limit defaults to the page size of the list and the offset to its start. -/
def pageArguments : TypeRef → List Argument
  | .list _ page => [⟨"limit", .scalar .int, page⟩, ⟨"offset", .scalar .int, some 0⟩]
  | _ => []

end Field

/-! ## Object types and schemas -/

/-- An object type, or an input object type. Its name is meant to be the one
under which it is registered. -/
structure NamedType where
  name : String
  fields : List Field
  isInput : Bool := false
deriving DecidableEq, Repr

namespace NamedType

/-- The field of a given name. -/
def field? (type : NamedType) (name : String) : Option Field :=
  type.fields.find? fun field => field.name == name

/-- The names of the fields in order. -/
def fieldNames (type : NamedType) : List String :=
  type.fields.map Field.name

end NamedType

/-- The object types by name, in the order in which they were found. -/
abbrev Registry := Entries NamedType

namespace Registry

/-- The type of a given name; a name that is not registered stands for a type
without fields. -/
def typeNamed (types : Registry) (name : String) : NamedType :=
  (Entries.find? types name).getD ⟨name, [], false⟩

end Registry

/-- The schema of one operation and one response. The roots are kept beside the
registry, in which they stand as well. -/
structure Schema where
  types : Registry
  query : NamedType
  mutation : Option NamedType
  baseName : String
  method : String
  path : String

namespace Schema

/-- The object type of a given name. -/
def typeNamed (schema : Schema) (name : String) : NamedType :=
  schema.types.typeNamed name

end Schema

end JsonSelection
