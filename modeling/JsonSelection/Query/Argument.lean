import JsonSelection.Query.Error
import JsonSelection.Query.Operation

/-!
# Arguments

Literals are checked against the types of arguments and input fields, and the
arguments of a selected field are completed by their defaults.

## What this module delivers

- `Argument.coerce`: the value that a literal stands for at a type, or what is
  wrong with it. A checked object holds its values under the keys that its
  fields stand for (`Argument.entryKey`), and a single value stands for a list
  of one.
- `Argument.given`: the checked arguments of a selection.
- `Argument.resolve`: the same with defaults put in and negative page arguments
  refused.

A default also replaces `null`. The first fault counts: arguments are checked in
the order in which they are written, the fields of an object literal in the
order of their type.
-/

set_option autoImplicit false

namespace JsonSelection

namespace Argument

/-! ## Checking literals -/

/-- Whether a literal fits a scalar type. An integer fits a fraction type, and
no other literal fits a type that is not its own. -/
def fits : Scalar → Json → Bool
  | .string, .str _ => true
  | .int, .int _ => true
  | .float, .int _ => true
  | .float, .float _ => true
  | .boolean, .bool _ => true
  | _, _ => false

/-- The key under which a checked object holds an input field; a field for the
empty key keeps its name. -/
def entryKey (field : Field) : String :=
  match field.reader.key? with
  | some key => if key.isEmpty then field.name else key
  | none => field.name

/-- Whether a type excludes `null`. -/
def isRequired : TypeRef → Bool
  | .nonNull _ => true
  | _ => false

/-- Checks a literal against a type. `elements?` checks the elements of an array
literal, which no other literal has, and `object` checks the literal against an
object type. A single value stands for a list of one element. -/
def coerceWith (literal : Json) (path : ResponsePath)
    (elements? : Option (TypeRef → Except QueryError (List Json)))
    (object : String → Except QueryError Json) : TypeRef → Except QueryError Json
  | .nonNull inner =>
      if literal.isNull then .error (.nullArgument path (.nonNull inner))
      else coerceWith literal path elements? object inner
  | .json => .ok literal
  | .list item _ =>
      if literal.isNull then .ok .null
      else
        match elements? with
        | some elements => (elements item).map Json.arr
        | none =>
            -- a single value stands for a list of one
            (coerceWith literal path elements? object item).map fun value => .arr [value]
  | .named name => if literal.isNull then .ok .null else object name
  | .scalar type =>
      if literal.isNull then .ok .null
      else if fits type literal then .ok literal
      else .error (.wrongScalar path type literal)

/-- Checks the entries of an object literal against the fields of a type, in the
order of the fields. `check?` checks the entry of a name, if the literal has
one. -/
def coerceFields (type : NamedType) (path : ResponsePath)
    (check? : String → ResponsePath → TypeRef → Option (Except QueryError Json)) :
    List Field → Entries Json → Except QueryError (Entries Json)
  | [], done => .ok done
  | field :: rest, done =>
      let here := path ++ [field.name]
      -- the fields are checked in the order of the type, not in that of the literal
      match check? field.name here field.type with
      | some (.ok value) =>
          coerceFields type path check? rest (Entries.put done (entryKey field) value)
      | some (.error e) => .error e
      | none =>
          if isRequired field.type then .error (.missingInput here field.name type.name)
          else coerceFields type path check? rest done

/-- Checks an object literal with some keys against an object type. Keys that
the type does not have are refused before anything else is looked at. -/
def coerceObject (type : NamedType) (path : ResponsePath) (keys : List String)
    (check? : String → ResponsePath → TypeRef → Option (Except QueryError Json)) :
    Except QueryError Json :=
  match keys.find? fun key => (type.field? key).isNone with
  | some key => .error (.unknownInput path key type)
  | none => (coerceFields type path check? type.fields []).map Json.obj

mutual

/-- Checks a literal against a type and gives the value that it stands for. -/
def coerce (schema : Schema) : Json → ResponsePath → TypeRef → Except QueryError Json
  | .arr items, path, type =>
      coerceWith (.arr items) path (some (coerceItems schema items path))
        (fun name => .error (.notAnObject path (schema.typeNamed name).name)) type
  | .obj entries, path, type =>
      coerceWith (.obj entries) path none
        (fun name =>
          coerceObject (schema.typeNamed name) path (Entries.keys entries)
            fun field here fieldType => coerceEntry? schema entries field here fieldType)
        type
  | literal, path, type =>
      coerceWith literal path none
        (fun name => .error (.notAnObject path (schema.typeNamed name).name)) type

/-- Checks each of some literals against a type. -/
def coerceItems (schema : Schema) :
    List Json → ResponsePath → TypeRef → Except QueryError (List Json)
  | [], _, _ => .ok []
  | item :: rest, path, type =>
      match coerce schema item path type with
      | .error e => .error e
      | .ok value => (coerceItems schema rest path type).map fun values => value :: values

/-- Checks the literal of a name against a type, if there is one. -/
def coerceEntry? (schema : Schema) :
    List (String × Json) → String → ResponsePath → TypeRef →
    Option (Except QueryError Json)
  | [], _, _, _ => none
  | (key, value) :: rest, name, path, type =>
      if key = name then some (coerce schema value path type)
      else coerceEntry? schema rest name path type

end

/-! ## Arguments of a selected field -/

/-- The checked values of the arguments that a selection gives, in the order in
which they are written. An argument that the field does not take is refused
there. -/
def given (schema : Schema) (owner : NamedType) (field : Field) (path : ResponsePath)
    (arguments : Entries Json) : Except QueryError (Entries Json) :=
  arguments.foldlM (fun values entry =>
    match field.argument? entry.1 with
    | none => .error (.unknownArgument path entry.1 owner field)
    | some argument =>
        (coerce schema entry.2 (path ++ [entry.1]) argument.type).map fun value =>
          Entries.put values entry.1 value) []

/-- Puts in the default of an argument that has no value or the value `null`. An
argument without default is left as it is. -/
def withDefault (values : Entries Json) (argument : Argument) : Entries Json :=
  match argument.default with
  | none => values
  | some default =>
      if (Entries.find? values argument.name).all Json.isNull then
        Entries.put values argument.name (.int default)
      else values

/-- Whether a value is a negative integer. -/
def isNegative : Json → Bool
  | .int n => n < 0
  | _ => false

/-- The first of the page arguments that is negative. The limit is looked at
before the offset, whichever was written first. -/
def negative? (values : Entries Json) : Option String :=
  ["limit", "offset"].find? fun name => (Entries.find? values name).any isNegative

/-- The values of all arguments of a selected field: those that are given,
checked, and the defaults of the others. -/
def resolve (schema : Schema) (owner : NamedType) (field : Field) (path : ResponsePath)
    (arguments : Entries Json) : Except QueryError (Entries Json) := do
  let values ← given schema owner field path arguments
  let values := field.arguments.foldl withDefault values
  match negative? values with
  | some name => .error (.negativePage path name)
  | none => return values

end Argument

end JsonSelection
