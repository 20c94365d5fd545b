import JsonSelection.Schema.InputType
import JsonSelection.Text.Upper

/-!
# Building a schema

The root type of a schema follows the kind of the response: an object shows its
fields, an array its elements and their count, anything else one value. A write
method with a declared body adds a mutation whose result is the root type.

## What this module delivers

- `Schema.queryRoot`: the root type of a response with the types that it needs.
- `Schema.mutationRoot`: the mutation of a write method.
- `Schema.build`: the schema of a response to an operation, or why there is none
  (`BuildError`).

The output types are inferred first, so the input types of a mutation are named
apart from them. A build fails through its costs, or through a body declaration
that no type can be made for, and in no other way.
-/

set_option autoImplicit false

namespace JsonSelection

/-- Why no schema can be built: a cost cannot be given, or the declared body
cannot be read. -/
inductive BuildError where
  | cost (error : CostError)
  | body (error : BodyError)
deriving DecidableEq, Repr

namespace Schema

/-! ## Methods and root fields -/

/-- The methods that write. -/
def writeMethods : List String :=
  ["POST", "PUT", "DELETE", "PATCH"]

/-- Whether a method, in upper case, writes. Any other method reads, known or
not, and its declared body is passed over. -/
def isWrite (method : String) : Bool :=
  writeMethods.contains method

/-- The field of the elements of a response array. -/
def itemsField (type : TypeRef) : Field where
  name := "items"
  reader := .whole
  type := type
  description := some "Elements of the response array."
  arguments := Field.pageArguments type

/-- The field of the length of a response array. -/
def countField : Field where
  name := "_count"
  reader := .length
  type := .scalar .int
  description := some "Length of the response array before paging."

/-- The field of a response that is neither an array nor an object. -/
def scalarField : Field where
  name := "value"
  reader := .text
  type := .scalar .string

/-- The field of a response object that has no type of its own, because no level
is left for it. -/
def rawField : Field where
  name := "value"
  reader := .whole
  type := .json

/-- The root type with some fields. -/
def queryType (fields : List Field) : NamedType :=
  ⟨"Query", fields, false⟩

/-! ## Roots -/

/-- The type of the elements of a response array. The list stands one level
above its elements, which start at depth zero. -/
def itemsType (limits : Limits) (items : List Json) (baseName : String) :
    Except CostError Inference.Typed :=
  if !items.isEmpty && Sample.isMixed limits items then
    (Cost.pageSize limits (limits.levelsFrom 1) items).map fun page =>
      (.list .json (some page), [])
  else
    Inference.inferType limits (limits.levelsFrom (-1)) (.arr items) baseName [] []

/-- The root type of a response and the types that it needs. An object is typed
under the name of the operation and the root takes over its fields, so the type
stands in the registry beside the root. -/
def queryRoot (limits : Limits) (data : Json) (baseName : String) :
    Except CostError (NamedType × Registry) :=
  match data with
  | .arr items =>
      (itemsType limits items baseName).map fun (type, types) =>
        (queryType [itemsField type, countField], types)
  | .obj entries =>
      (Inference.inferType limits (limits.levelsFrom 0) (.obj entries) baseName [] []).map
        fun (type, types) =>
          match type with
          | .named name => (queryType (types.typeNamed name).fields, types)
          -- without levels the object is raw JSON as a whole
          | _ => (queryType [rawField], types)
  | _ => .ok (queryType [scalarField], [])

/-- The mutation root of a write method: one field that takes the declared body
as its input and gives the root type. -/
def mutationRoot (limits : Limits) (method baseName : String) (body : Json) (types : Registry) :
    Except BodyError (NamedType × Registry) := do
  let properties ← Body.properties body
  let (arguments, types) ←
    -- a body without properties takes no input
    if properties.isEmpty then pure ([], types)
    else do
      let (name, types) ←
        InputType.ofProperties properties (limits.inputLevelsFrom 1) (baseName ++ "_Input") types
      pure ([⟨"input", .named name, none⟩], types)
  let field : Field :=
    { name := method.toLower ++ "_" ++ baseName
      reader := .whole
      type := .named "Query"
      arguments := arguments }
  return (⟨"Mutation", [field], false⟩, types)

/-- The schema of a response to an operation, whose method may be written in any
case. -/
def build (limits : Limits) (data : Json) (method path : String) (body : Option Json) :
    Except BuildError Schema := do
  let method := Text.upper method
  let baseName := TypeName.derive method path
  let (query, types) ← (queryRoot limits data baseName).mapError BuildError.cost
  -- the root is registered over the types of the response, and the mutation over
  -- both
  let types := Entries.put types "Query" query
  match body with
  | some body =>
      if isWrite method then do
        let (mutation, types) ←
          (mutationRoot limits method baseName body types).mapError BuildError.body
        return ⟨Entries.put types "Mutation" mutation, query, some mutation,
          baseName, method, path⟩
      else return ⟨types, query, none, baseName, method, path⟩
  | none => return ⟨types, query, none, baseName, method, path⟩

end Schema

end JsonSelection
