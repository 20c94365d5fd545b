import JsonSelection.Schema.Type

/-!
# What a schema reaches

The object types that the roots of a schema lead to, in the order of a
breadth-first walk, and the paths of all fields that hold raw JSON, in the order
of a depth-first walk.

- `Schema.reachable`: each type once, in the order in which it is first met. A
  reference may lead back to a type that has been met.
- `Schema.opaquePaths`: a path for every way to a raw JSON field. No type is
  entered inside itself, so there are finitely many.

Both walks take fuel that cannot run out: `Schema.walkLength` counts every
reference once, and a path without repetition enters no more types than are
registered.
-/

set_option autoImplicit false

namespace JsonSelection

namespace NamedType

/-- The names of the object types in the fields and the arguments of a type, in
order. -/
def references (type : NamedType) : List String :=
  type.fields.flatMap fun field =>
    (field.type :: field.arguments.map Argument.type).filterMap TypeRef.namedInside?

end NamedType

namespace Schema

/-- The names of the root types. -/
def roots (schema : Schema) : List String :=
  schema.query.name :: (schema.mutation.map NamedType.name).toList

/-- Walks the pending names breadth first; `found` holds the types met so far.
The fuel bounds the number of names taken up. -/
def discover (schema : Schema) : Nat → List String → List NamedType → List NamedType
  | 0, _, found => found
  | _ + 1, [], found => found
  | fuel + 1, name :: pending, found =>
      if (found.map NamedType.name).contains name then discover schema fuel pending found
      else
        let type := schema.typeNamed name
        let found := found ++ [type]
        -- names that are pending already may be added again; they are passed over later
        let fresh := type.references.filter fun other =>
          !(found.map NamedType.name).contains other
        discover schema fuel (pending ++ fresh) found

/-- The number of names that a walk can take up: the roots, and every reference
once. -/
def walkLength (schema : Schema) : Nat :=
  schema.roots.length + (schema.types.flatMap fun entry => entry.2.references).length + 1

/-- The object types that the roots lead to, in the order in which they are met.
A type is led to by its fields and by their arguments. -/
def reachable (schema : Schema) : List NamedType :=
  schema.discover schema.walkLength schema.roots []

/-! ## Raw JSON fields -/

/-- A field name below a path. The first name of a path stands without a point. -/
def extend (path name : String) : String :=
  if path.isEmpty then name else path ++ "." ++ name

/-- The paths of raw JSON fields below a path. No type is entered inside itself,
so the number of registered types is fuel enough. -/
def opaqueBelow (schema : Schema) : Nat → String → List String → List Field → List String
  | 0, _, _, _ => []
  | fuel + 1, path, entered, fields =>
      fields.flatMap fun field =>
        let here := extend path field.name
        match field.type.innermost with
        | .json => [here]
        | .named name =>
            -- a type that is entered above is not entered again
            if entered.contains name then []
            else opaqueBelow schema fuel here (name :: entered) (schema.typeNamed name).fields
        | _ => []

/-- The paths of all raw JSON fields that the query root leads to. Lists on the
way do not show in a path. -/
def opaquePaths (schema : Schema) : List String :=
  schema.opaqueBelow (schema.types.length + 1) "" [schema.query.name] schema.query.fields

end Schema

end JsonSelection
