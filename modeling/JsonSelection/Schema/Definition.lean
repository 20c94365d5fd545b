import JsonSelection.Schema.Reach
import JsonSelection.Text.Pieces

/-!
# Schema definitions

The text of a schema in the schema definition language: one block for each type
that the roots lead to, and one for the raw JSON scalar if a field of a written
type holds it.

## What this module delivers

- `Definition.describe`: the lines of a description, as a block string. Three
  quotes in a row are escaped, and a text that fits stands on the line of its
  fences.
- `Definition.field` and `Definition.block`: the text of a field and of a type.
- `Schema.definition`: the text of a schema, roots first.

Only a closing quote keeps a text from its one line; what a backslash at the end
does there is told in `Proofs/Schema/BlockString`.
-/

set_option autoImplicit false

namespace JsonSelection

namespace Definition

/-! ## Descriptions -/

/-- The three quotes around a block string. -/
def fence : String := "\"\"\""

/-- The description of the raw JSON scalar. -/
def opaqueDescription : String :=
  "Arbitrary JSON value (mixed types, deep nesting, or heterogeneous structures)"

/-- Puts a backslash before every three quotes in a row, taken from the left.
One or two quotes more are left as they are. -/
def escapeFences : List Char → List Char
  | '"' :: '"' :: '"' :: rest => '\\' :: '"' :: '"' :: '"' :: escapeFences rest
  | c :: rest => c :: escapeFences rest
  | [] => []

/-- Whether a body fits on the line of its fences: it has one line, and its
last character is no quote. -/
def fitsOneLine (body : List Char) : Bool :=
  !body.contains '\n' && body.getLast? != some '"'

/-- The lines of a description; an empty one has none. A text that does not fit
on the line of its fences stands on lines of its own between them. -/
def describe (text : String) (indent : String) : List String :=
  if text.isEmpty then []
  else
    let body := escapeFences text.toList
    if fitsOneLine body then [indent ++ fence ++ String.ofList body ++ fence]
    else
      (indent ++ fence) ::
        (Text.pieces '\n' body).map (fun line =>
          -- a blank line is left without the indent
          if line.isEmpty then "" else indent ++ String.ofList line) ++
        [indent ++ fence]

/-- An argument with its type and its default. -/
def argument (argument : Argument) : String :=
  argument.name ++ ": " ++ argument.type.text ++
    (match argument.default with
     | some value => " = " ++ toString value
     | none => "")

/-- The lines of a field. -/
def field (field : Field) : List String :=
  let arguments :=
    if field.arguments.isEmpty then ""
    else "(" ++ ", ".intercalate (field.arguments.map argument) ++ ")"
  describe (field.description.getD "") "  " ++
    ["  " ++ field.name ++ arguments ++ ": " ++ field.type.text]

/-- The block of an object type: a keyword and its name, its fields line by
line, and braces around them. -/
def block (type : NamedType) : String :=
  let keyword := if type.isInput then "input" else "type"
  "\n".intercalate
    ((keyword ++ " " ++ type.name ++ " \x7b") :: type.fields.flatMap field ++ ["\x7d"])

/-- The block of the raw JSON scalar. -/
def opaqueBlock : String :=
  "\n".intercalate (describe opaqueDescription "" ++ ["scalar JSON"])

/-- Whether a field of one of the types holds raw JSON. Only then does the
definition have a block for the raw JSON scalar. -/
def usesOpaque (types : List NamedType) : Bool :=
  types.any fun type => type.fields.any fun field => field.type.innermost == .json

end Definition

namespace Schema

/-- The definition text of a schema, roots first. Types that no root leads to
are left out. -/
def definition (schema : Schema) : String :=
  let types := schema.reachable
  let opening := if Definition.usesOpaque types then [Definition.opaqueBlock] else []
  "\n\n".intercalate (opening ++ types.map Definition.block) ++ "\n"

end Schema

end JsonSelection
