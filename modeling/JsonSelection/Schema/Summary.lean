import JsonSelection.Schema.Type

/-!
# Schema summaries

A summary lists every registered type with the type and the key of each of its
fields. It is the form in which a schema is shown to a reader who wants to see
what was inferred: the roots are registered and show as well, and so do types
that no root leads to.
-/

set_option autoImplicit false

namespace JsonSelection

namespace Schema

/-- The summary of a field. -/
def summarizeField (field : Field) : String × Json :=
  (field.name, .obj
    [("type", .str field.type.text),
      ("key", match field.reader.key? with
        | some key => .str key
        | none => .null)])

/-- The summary of a type. -/
def summarizeType (type : NamedType) : Json :=
  .obj [("kind", .str (if type.isInput then "input" else "object")),
    ("fields", .obj (type.fields.map summarizeField))]

/-- The summary of a schema. -/
def summary (schema : Schema) : Json :=
  .obj [("base_name", .str schema.baseName),
    ("has_mutation", .bool schema.mutation.isSome),
    ("types", .obj (schema.types.map fun entry => (entry.1, summarizeType entry.2)))]

end Schema

end JsonSelection
