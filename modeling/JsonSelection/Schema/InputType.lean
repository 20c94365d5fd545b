import JsonSelection.FieldName
import JsonSelection.Schema.Body
import JsonSelection.Schema.Inference

/-!
# Input types

The input type of a mutation follows the declared properties of the request
body, one field for each. A nested object gets an input type of its own under a
name that no other type has.

Unlike an output type an input type is never shared: its name is made fresh
among all registered names (`InputType.ofProperties`), output types included.
The walk is structural on the declared properties; the number of levels left
only decides where raw JSON takes the place of a type. It fails on a descriptor
that could not be read, and on a description that is no text
(`InputType.describe`).
-/

set_option autoImplicit false

namespace JsonSelection

namespace InputType

/-- The description of an input field: the declared words, and which key it
stands for if it was renamed. -/
def describe (description : Description) (name key : String) : Except BodyError (Option String) :=
  let note := (Inference.renameNote? name key).toList
  match description with
  | .malformed => .error .malformedDescription
  | .absent => .ok note.head?
  | .text words => .ok (some (" ".intercalate (words :: note)))

/-- The type of a required property excludes `null`. Only input types are ever
required to. -/
def requireIf (required : Bool) (type : TypeRef) : TypeRef :=
  if required then .nonNull type else type

mutual

/-- The input type of a property. With no level left all but the scalars are raw
JSON. -/
def ofProperty : Property → Nat → String → Registry → Except BodyError Inference.Typed
  | .malformed _, _, _, _ => .error .malformedType
  | .scalar _ type, _, _, types => .ok (.scalar type, types)
  | _, 0, _, types => .ok (.json, types)
  | .other _, _ + 1, _, types => .ok (.scalar .string, types)
  | .array _ none, _ + 1, _, types => .ok (.list .json none, types)
  | .array _ (some item), levels + 1, typeName, types =>
      -- the elements stand on the level of the list itself
      match ofProperty item (levels + 1) (typeName ++ "_Item") types with
      | .ok (type, types) => .ok (.list type none, types)
      | .error e => .error e
  | .object _ [], _ + 1, _, types => .ok (.json, types)
  | .object _ (property :: rest), levels + 1, typeName, types =>
      let name := FieldName.fresh types.keys typeName
      match fields name [] (property :: rest) levels
        (Entries.put types name ⟨name, [], true⟩) with
      | .ok (fields, types) => .ok (.named name, Entries.put types name ⟨name, fields, true⟩)
      | .error e => .error e

/-- The fields of an input type, one for each property. `used` holds the names
given so far. -/
def fields (typeName : String) (used : List String) :
    List (String × Property) → Nat → Registry → Except BodyError (List Field × Registry)
  | [], _, types => .ok ([], types)
  | (key, property) :: rest, levels, types =>
      let name := FieldName.fresh used (FieldName.sanitize key)
      match ofProperty property levels (typeName ++ "_" ++ name) types with
      | .error e => .error e
      | .ok (type, types) =>
          match describe property.remarks.description name key with
          | .error e => .error e
          | .ok description =>
              match fields typeName (used ++ [name]) rest levels types with
              | .error e => .error e
              | .ok (others, types) =>
                  .ok ({ name := name
                         reader := .member key
                         type := requireIf property.remarks.required type
                         description := description } :: others, types)

end

/-- Registers the input type of some properties under a free name, and gives
that name. `levels` counts from the properties down. -/
def ofProperties (properties : List (String × Property)) (levels : Nat) (typeName : String)
    (types : Registry) : Except BodyError (String × Registry) :=
  let name := FieldName.fresh types.keys typeName
  match fields name [] properties levels (Entries.put types name ⟨name, [], true⟩) with
  | .ok (fields, types) => .ok (name, Entries.put types name ⟨name, fields, true⟩)
  | .error e => .error e

end InputType

end JsonSelection
