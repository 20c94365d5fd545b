import JsonSelection.Schema.Type

/-!
# Declared request bodies

The declaration of a request body is itself a JSON value: an object whose
`properties` entry holds a descriptor for each property.

## What this module delivers

- `Property`: what a descriptor says, which is a scalar type, nested properties,
  an element descriptor, or something that cannot be read.
- `Property.ofJson`: the reading of a descriptor. It never fails: what cannot be
  read is kept as such until a type is asked for it.
- `Body.properties`: the properties of a declaration, which must be an object
  (`BodyError`).

Reading is kept apart from the making of types (`Schema/InputType`), because the
descriptors of a nested object are read in any case but only typed above the
depth cap. A property is required if its descriptor says so by any value that is
neither false nor zero nor empty (`Property.isAffirmed`).
-/

set_option autoImplicit false

namespace JsonSelection

/-! ## What a declaration can say -/

/-- Why no input type can be made for a declared body. -/
inductive BodyError where
  /-- The declaration is not an object. -/
  | notAnObject
  /-- The properties are given by something other than an object. -/
  | propertiesNotAnObject
  /-- The type of a property is given by an array or an object. -/
  | malformedType
  /-- The description of a property is not a text. -/
  | malformedDescription
deriving DecidableEq, Repr

/-- What a descriptor says in words: nothing, a text, or something that is no
text and cannot be left out either. -/
inductive Description where
  | absent
  | text (words : String)
  | malformed
deriving DecidableEq, Repr

/-- What a descriptor says besides the type. -/
structure Remarks where
  required : Bool
  description : Description
deriving DecidableEq, Repr

/-- What a descriptor says of a property. The cases are those in which its input
type is made in different ways. -/
inductive Property where
  | scalar (remarks : Remarks) (type : Scalar)
  | object (remarks : Remarks) (properties : List (String × Property))
  | array (remarks : Remarks) (items : Option Property)
  | other (remarks : Remarks)
  | malformed (remarks : Remarks)

namespace Property

/-- What the descriptor says besides the type. -/
def remarks : Property → Remarks
  | scalar remarks _ => remarks
  | object remarks _ => remarks
  | array remarks _ => remarks
  | other remarks => remarks
  | malformed remarks => remarks

/-- Whether a value says yes: it is neither `null` nor false nor zero nor empty.
So a text says yes, whatever its words are. -/
def isAffirmed : Json → Bool
  | .null => false
  | .bool value => value
  | .int n => n != 0
  | .float x => x != 0
  | .str text => !text.isEmpty
  | .arr items => !items.isEmpty
  | .obj entries => !entries.isEmpty

/-- The description of a descriptor. A value that does not say yes counts as none. -/
def descriptionIn (entries : Entries Json) : Description :=
  match Entries.find? entries "description" with
  | none => .absent
  | some value =>
      if isAffirmed value then
        match value with
        | .str words => .text words
        | _ => .malformed
      else .absent

/-- What a descriptor says besides the type. -/
def remarksIn (entries : Entries Json) : Remarks where
  required := (Entries.find? entries "required").any isAffirmed
  description := descriptionIn entries

/-- Whether a value is a descriptor that names a type. -/
def namesType (value : Json) : Bool :=
  (value.member? "type").any isAffirmed

/-- The scalar type of a given name. The names are those of the declaration,
which differ from those of the types. -/
def scalarNamed? (name : String) : Option Scalar :=
  if name = "string" then some .string
  else if name = "integer" then some .int
  else if name = "number" then some .float
  else if name = "boolean" then some .boolean
  else none

mutual

/-- What a descriptor says. A value that is no object, or that names no type
that is known, says nothing of the type. -/
def ofJson : Json → Property
  | .obj entries =>
      let remarks := remarksIn entries
      match Entries.find? entries "type" with
      -- an array or an object cannot be looked up among the words
      | some (.arr _) => malformed remarks
      | some (.obj _) => malformed remarks
      | some (.str name) =>
          match scalarNamed? name with
          | some type => scalar remarks type
          | none =>
              if name = "object" then object remarks (nestedIn entries)
              else if name = "array" then array remarks (itemsIn entries)
              else other remarks
      | _ => other remarks
  | _ => other ⟨false, .absent⟩

/-- The properties declared among some entries. -/
def nestedIn : List (String × Json) → List (String × Property)
  | [] => []
  | (key, value) :: rest => if key = "properties" then ofMembers value else nestedIn rest

/-- The properties that an object of descriptors declares; any other value
declares none. -/
def ofMembers : Json → List (String × Property)
  | .obj entries => ofEntries entries
  | _ => []

/-- The properties that some descriptors declare. -/
def ofEntries : List (String × Json) → List (String × Property)
  | [] => []
  | (key, value) :: rest => (key, ofJson value) :: ofEntries rest

/-- The element descriptor among some entries, if it names a type. -/
def itemsIn : List (String × Json) → Option Property
  | [] => none
  | (key, value) :: rest =>
      if key = "items" then if namesType value then some (ofJson value) else none
      else itemsIn rest

end

end Property

namespace Body

/-- The properties that a body declaration lists. It need not list any, but it
must be an object. -/
def properties (declaration : Json) : Except BodyError (List (String × Property)) :=
  match declaration with
  | .obj entries =>
      match Entries.find? entries "properties" with
      | none => .ok []
      | some (.obj members) => .ok (Property.ofEntries members)
      | some value => if Property.isAffirmed value then .error .propertiesNotAnObject else .ok []
  | _ => .error .notAnObject

end Body

end JsonSelection
