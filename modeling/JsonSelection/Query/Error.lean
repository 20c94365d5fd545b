import JsonSelection.Json.Display
import JsonSelection.Json.Parser
import JsonSelection.Schema.Type

/-!
# Query errors

Everything that can be wrong with a query, either as a text or against a schema.

- `QueryError`: the errors, each with the data that its message needs.
- `QueryError.message`: the one place that words an error.
- `QueryError.path`: where in the result it arose; errors of a text arise at no
  place.
- `QueryError.available`: the names that could have been given instead.
- `QueryError.isConversion`: an integer literal of too many digits is a fault of
  its conversion, which a caller does not see as an error of the query.

The errors are data and not texts, so statements about them speak of the fault
and not of its words.
-/

set_option autoImplicit false

namespace JsonSelection

/-- A path of response keys. -/
abbrev ResponsePath := List String

/-- What is wrong with a query. -/
inductive QueryError where
  | unexpectedChar (c : Char) (position : Nat)
  | unexpectedEnd
  | expected (wanted found : String) (position : Nat)
  | expectedName (found : String) (position : Nat)
  | unexpectedToken (found : String) (position : Nat)
  | badString (position : Nat) (fault : StringFault)
  /-- An integer literal has too many digits to be converted. The query may be
  sound: this fault comes from the conversion, and it is the only one here that
  is not reported as an error of a query. -/
  | integerTooLong (digits : Nat)
  | tooDeep
  | unclosedSet
  | unclosedList
  | emptySet
  | unsupportedFragment
  | unsupportedSubscription
  | unsupportedDirective
  | unsupportedVariable
  | severalOperations
  | repeatedArgument (name : String)
  | noMutation (fields : List String)
  | nullArgument (path : ResponsePath) (type : TypeRef)
  | notAnObject (path : ResponsePath) (typeName : String)
  | unknownInput (path : ResponsePath) (name : String) (type : NamedType)
  | missingInput (path : ResponsePath) (name typeName : String)
  | wrongScalar (path : ResponsePath) (type : Scalar) (literal : Json)
  | unknownArgument (path : ResponsePath) (name : String) (owner : NamedType) (field : Field)
  | negativePage (path : ResponsePath) (name : String)
  | selectionOfJson (path : ResponsePath) (type : TypeRef)
  | selectionOfScalar (path : ResponsePath) (type : TypeRef)
  | missingSelection (path : ResponsePath) (type : TypeRef) (name : String) (inner : NamedType)
  | unknownField (path : ResponsePath) (name : String) (type : NamedType)

namespace QueryError

/-- A path as messages write it. The empty path has a word of its own, since its
dotted form would be empty. -/
def dotted (path : ResponsePath) : String :=
  if path.isEmpty then "<root>" else ".".intercalate path

/-- The part of a message that tells what was found where. -/
def foundAt (found : String) (position : Nat) : String :=
  Text.quoted found ++ " at position " ++ toString position ++ "."

/-- The words for an error. -/
def message : QueryError → String
  | unexpectedChar c position =>
      "Syntax error: unexpected character " ++ foundAt (String.singleton c) position
  | unexpectedEnd => "Syntax error: unexpected end of query."
  | expected wanted found position =>
      "Syntax error: expected " ++ Text.quoted wanted ++ " but found " ++ foundAt found position
  | expectedName found position =>
      "Syntax error: expected a field name but found " ++ foundAt found position
  | unexpectedToken found position => "Syntax error: unexpected " ++ foundAt found position
  | badString position fault =>
      "Syntax error: invalid string literal at position " ++ toString position ++ ": " ++
        fault.message ++ "."
  | integerTooLong digits =>
      "The limit of digits for an integer is exceeded: the literal has " ++
        toString digits ++ " digits."
  | tooDeep => "Syntax error: selection nested too deeply."
  | unclosedSet => "Syntax error: unclosed '\x7b' in query."
  | unclosedList => "Syntax error: unclosed '[' in argument value."
  | emptySet => "Syntax error: empty selection set '\x7b \x7d'."
  | unsupportedFragment => "Fragments are not supported; list the fields explicitly."
  | unsupportedSubscription => "Subscriptions are not supported."
  | unsupportedDirective => "Directives are not supported."
  | unsupportedVariable => "Variables are not supported; inline argument values instead."
  | severalOperations => "Only a single operation per query is supported."
  | repeatedArgument name => "Argument " ++ Text.quoted name ++ " given more than once."
  | noMutation _ =>
      "This operation has no mutation type; use a plain selection query instead."
  | nullArgument path type =>
      "Argument " ++ dotted path ++ " of type " ++ type.text ++ " must not be null."
  | notAnObject path typeName =>
      "Argument " ++ dotted path ++ " expects an object of type " ++ typeName ++ "."
  | unknownInput _ name type =>
      "Field " ++ Text.quoted name ++ " is not defined by input type " ++ type.name ++ "."
  | missingInput _ name typeName =>
      "Required input field " ++ Text.quoted name ++ " of " ++ typeName ++ " was not provided."
  | wrongScalar path type literal =>
      "Argument " ++ dotted path ++ " expects " ++ type.name ++ ", got " ++ literal.display ++ "."
  | unknownArgument _ name owner field =>
      "Unknown argument \"" ++ name ++ "\" on field \"" ++ owner.name ++ "." ++ field.name ++ "\"."
  | negativePage path name =>
      "Argument " ++ name ++ " on " ++ dotted path ++ " must not be negative."
  | selectionOfJson path type =>
      "Field " ++ dotted path ++ " is raw JSON (" ++ type.text ++
        ") and cannot have a selection of subfields; request it without braces."
  | selectionOfScalar path type =>
      "Field " ++ dotted path ++ " of type " ++ type.text ++
        " must not have a selection of subfields."
  | missingSelection path type name inner =>
      "Field " ++ dotted path ++ " of type " ++ type.text ++
        " must have a selection of subfields, e.g. " ++ name ++ " \x7b " ++
        " ".intercalate (inner.fieldNames.take 3) ++ " \x7d."
  | unknownField _ name type =>
      "Cannot query field \"" ++ name ++ "\" on type \"" ++ type.name ++ "\". Available fields: " ++
        ", ".intercalate type.fieldNames ++ "."

/-- Whether an error is a fault of the conversion of a literal, and not an error
of the query. -/
def isConversion : QueryError → Bool
  | integerTooLong _ => true
  | _ => false

/-- Where in the result an error arose; errors of the text arise at no place. -/
def path : QueryError → ResponsePath
  | nullArgument path _ => path
  | notAnObject path _ => path
  | unknownInput path _ _ => path
  | missingInput path _ _ => path
  | wrongScalar path _ _ => path
  | unknownArgument path _ _ _ => path
  | negativePage path _ => path
  | selectionOfJson path _ => path
  | selectionOfScalar path _ => path
  | missingSelection path _ _ _ => path
  | unknownField path _ _ => path
  | _ => []

/-- The names that could have been given instead. Only an error about a name
that does not exist, or about a missing selection, has any. -/
def available : QueryError → List String
  | noMutation fields => fields
  | unknownInput _ _ type => type.fieldNames
  | unknownArgument _ _ _ field => field.arguments.map Argument.name
  | missingSelection _ _ _ inner => inner.fieldNames
  | unknownField _ _ type => type.fieldNames
  | _ => []

end QueryError

end JsonSelection
