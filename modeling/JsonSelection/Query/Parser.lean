import JsonSelection.Json.Parser
import JsonSelection.Query.Operation
import JsonSelection.Query.Token
import JsonSelection.Text.Word

/-!
# Parsing queries

A query is one operation, or a bare selection that is taken as one. Selections
carry aliases, literal arguments and nested selections; fragments, variables and
directives are refused by name.

## What this module delivers

- `Query.Parser`: a parser takes tokens from the front of a list.
- `Query.many`: items up to a closing mark, at least one token each.
- `Query.literal`, `Query.value`: literal values.
- `Query.selection`, `Query.selectionSet`: selected fields.
- `Query.parseTokens`: the operation that some tokens stand for.
- `Query.normalize`, `Query.parse`: the same from a text, which is put in braces
  unless it starts with a brace or a definition word.

Selections, lists and objects may enclose each other up to `Query.nesting`
levels deep, and the parser descends on the number of levels left. The grammar
behind it is stated in `Proofs/Query/Grammar`, without reference to the parser.
-/

set_option autoImplicit false

namespace JsonSelection

namespace Query

/-- The greatest number of selection sets and literals around any place in a
query. The descent of the parser is on what is left of it. -/
def nesting : Nat := 64

/-- A parser takes tokens from the front of a list and gives back the others. -/
abbrev Parser (α : Type) := List Token → Except QueryError (α × List Token)

/-! ## Tokens and items -/

/-- Whether the next token is a given name or punctuation mark. A string is
never one, even if its text is the same. -/
def at? (text : String) : List Token → Bool
  | [] => false
  | token :: _ => token.text == text && (token.kind == .punct || token.kind == .name)

/-- Takes a token of a given text. What was found instead is told with its
position. -/
def expect (text : String) : List Token → Except QueryError (List Token)
  | [] => .error .unexpectedEnd
  | token :: rest =>
      if token.text = text then .ok rest
      else .error (.expected text token.text token.position)

/-- Takes a name. -/
def expectName : Parser String
  | [] => .error .unexpectedEnd
  | token :: rest =>
      if token.kind = .name then .ok (token.text, rest)
      else .error (.expectedName token.text token.position)

/-- Refuses what queries elsewhere may hold here: fragments, directives and
variables. Each has an error of its own. -/
def rejectUnsupported : List Token → Except QueryError Unit
  | [] => .ok ()
  | token :: _ =>
      if token.kind = .spread then .error .unsupportedFragment
      else if token.text = "@" then .error .unsupportedDirective
      else if token.text = "$" then .error .unsupportedVariable
      else .ok ()

/-- Takes items up to a closing mark. An item parser is told the items before
it; `atEnd` is the error when the tokens end first. The fuel bounds the number
of items. -/
def manyWith {α : Type} (close : String) (atEnd : QueryError) (item : List α → Parser α) :
    Nat → List α → Parser (List α)
  | 0, _, _ => .error atEnd
  | fuel + 1, taken, tokens =>
      match tokens with
      | [] => .error atEnd
      | token :: rest =>
          if at? close (token :: rest) then .ok (taken, rest)
          else
            match item taken (token :: rest) with
            | .error e => .error e
            | .ok (value, after) => manyWith close atEnd item fuel (taken ++ [value]) after

/-- Takes items up to a closing mark. Every item takes a token at least, so the
number of tokens is fuel enough. -/
def many {α : Type} (close : String) (atEnd : QueryError) (item : List α → Parser α) :
    Parser (List α) := fun tokens =>
  manyWith close atEnd item (tokens.length + 1) [] tokens

/-! ## Literals -/

/-- The greatest number of digits of an integer literal that is converted. A
longer one is written by the rules all the same. -/
def mostDigits : Nat := 4300

/-- The value of a number token. An integer of more than `mostDigits` digits is
not converted; a number with a fraction or an exponent may have any number of
digits. -/
def numberValue (text : String) (position : Nat) : Except QueryError Json :=
  match NumberLiteral.read? text.toList with
  | some (literal, []) =>
      if literal.isInteger && mostDigits < literal.whole.length then
        .error (.integerTooLong literal.whole.length)
      else .ok (Json.ofLiteral literal)
  | _ => .error (.unexpectedToken text position)

/-- The value of a string token, which must be a JSON string. The token rule is
wider, so an escape that no string has is only found here. -/
def stringValue (text : String) : Except StringFault Json :=
  match text.toList with
  | '"' :: rest =>
      match JsonString.read rest with
      | .ok (cs, []) => .ok (.str (String.ofList cs))
      | .ok (_, _ :: _) => .error .unterminated
      | .error fault => .error fault
  | _ => .error .unterminated

/-- The value of a name: a constant, or an enumeration value as its text. No
enumeration is known, so any name is a value. -/
def nameValue (text : String) : Json :=
  if text = "true" then .bool true
  else if text = "false" then .bool false
  else if text = "null" then .null
  else .str text

/-- Takes a literal; `list` and `object` take the rest of one after its opening
mark. -/
def literal (list object : Parser Json) : Parser Json := fun tokens => do
  rejectUnsupported tokens
  match tokens with
  | [] => .error .unexpectedEnd
  | token :: rest =>
      match token.kind with
      | .number =>
          match numberValue token.text token.position with
          | .ok value => .ok (value, rest)
          | .error e => .error e
      | .string =>
          match stringValue token.text with
          | .ok value => .ok (value, rest)
          | .error fault => .error (.badString token.position fault)
      | .name => .ok (nameValue token.text, rest)
      | _ =>
          if token.text = "[" then list rest
          else if token.text = "\x7b" then object rest
          else .error (.unexpectedToken token.text token.position)

/-- Takes an entry of an object literal. -/
def entry (value : Parser Json) : Parser (String × Json) := fun tokens => do
  let (key, tokens) ← expectName tokens
  let tokens ← expect ":" tokens
  let (value, tokens) ← value tokens
  return ((key, value), tokens)

/-- Takes a literal with a number of levels left for lists and objects in it. -/
def value : Nat → Parser Json
  | 0 => literal (fun _ => .error .tooDeep) (fun _ => .error .tooDeep)
  | levels + 1 =>
      literal
        (fun tokens => do
          let (items, tokens) ← many "]" .unclosedList (fun _ => value levels) tokens
          return (.arr items, tokens))
        (fun tokens => do
          let (entries, tokens) ← many "\x7d" .unexpectedEnd
            (fun _ => entry (value levels)) tokens
          return (.obj (Entries.ofList entries), tokens))

/-- Takes an argument. Its name must differ from those before it, which is
checked before its value is looked at. -/
def argument (value : Parser Json) (before : List (String × Json)) : Parser (String × Json) :=
  fun tokens => do
    rejectUnsupported tokens
    let (name, tokens) ← expectName tokens
    if Entries.has before name then .error (.repeatedArgument name)
    else
      let tokens ← expect ":" tokens
      let (value, tokens) ← value tokens
      return ((name, value), tokens)

/-- Takes the arguments of a field, if there are any. -/
def arguments (value : Parser Json) : Parser (List (String × Json)) := fun tokens =>
  if at? "(" tokens then do
    let tokens ← expect "(" tokens
    many ")" .unexpectedEnd (argument value) tokens
  else .ok ([], tokens)

/-! ## Selections -/

/-- Takes the name of a field, and its alias if it has one. A name is an alias
if a colon follows it. -/
def fieldName : Parser (String × Option String) := fun tokens => do
  rejectUnsupported tokens
  let (first, tokens) ← expectName tokens
  if at? ":" tokens then
    let tokens ← expect ":" tokens
    let (name, tokens) ← expectName tokens
    return ((name, some first), tokens)
  else return ((first, none), tokens)

/-- Takes a selected field; `set` takes the selection set below it. Without a
brace after its arguments it has no selections of its own. -/
def selection (value : Parser Json) (set : Parser (List Selection)) : Parser Selection :=
  fun tokens => do
    let ((name, aliasName), tokens) ← fieldName tokens
    let (arguments, tokens) ← arguments value tokens
    rejectUnsupported tokens
    if at? "\x7b" tokens then
      let (children, tokens) ← set tokens
      return (⟨name, aliasName, arguments, children⟩, tokens)
    else return (⟨name, aliasName, arguments, []⟩, tokens)

/-- Takes a selection set with a number of levels left, its own included. A set
without selections is refused. -/
def selectionSet : Nat → Parser (List Selection)
  | 0 => fun tokens => do
      let _ ← expect "\x7b" tokens
      .error .tooDeep
  | levels + 1 => fun tokens => do
      let tokens ← expect "\x7b" tokens
      let (selections, tokens) ←
        many "\x7d" .unclosedSet (fun _ => selection (value levels) (selectionSet levels)) tokens
      if selections.isEmpty then .error .emptySet
      else return (selections, tokens)

/-! ## Operations -/

/-- Takes the name of an operation, if it has one. -/
def operationName : List Token → Option String × List Token
  | [] => (none, [])
  | token :: rest =>
      if token.kind = .name then (some token.text, rest) else (none, token :: rest)

/-- Takes what stands between the keyword of an operation and its selection set.
That is a name at most; variables cannot be declared. -/
def heading (kind : OperationKind) (tokens : List Token) :
    Except QueryError ((OperationKind × Option String) × List Token) := do
  let (name, tokens) := operationName tokens
  if at? "(" tokens then .error .unsupportedVariable
  else
    rejectUnsupported tokens
    return ((kind, name), tokens)

/-- Takes the keyword and the name of an operation; a query needs neither. -/
def header : Parser (OperationKind × Option String)
  | [] => .ok ((.query, none), [])
  | token :: rest =>
      if token.kind = .name then
        if token.text = "fragment" then .error .unsupportedFragment
        else if token.text = "subscription" then .error .unsupportedSubscription
        else if token.text = OperationKind.query.keyword then heading .query rest
        else if token.text = OperationKind.mutation.keyword then heading .mutation rest
        -- any other word stands where a brace is expected, which the selection set reports
        else .ok ((.query, none), token :: rest)
      else .ok ((.query, none), token :: rest)

/-- The operation that some tokens stand for. Tokens behind its selection set
are refused, as another definition or another operation. -/
def parseTokens (tokens : List Token) : Except QueryError Operation := do
  let ((kind, name), tokens) ← header tokens
  let (selections, tokens) ← selectionSet nesting tokens
  match tokens with
  | [] => return ⟨kind, name, selections⟩
  | token :: _ =>
      if token.text = "fragment" then .error .unsupportedFragment else .error .severalOperations

/-! ## Texts -/

/-- Whether a text starts with a word that ends there. -/
def startsWithWord (word : String) (cs : List Char) : Bool :=
  word.toList.isPrefixOf cs && !(cs.drop word.length).head?.any Text.isWord

/-- The words that start an operation or another definition. A text that begins
with one is not put in braces. -/
def definitionWords : List String :=
  ["query", "mutation", "subscription", "fragment"]

/-- The text without blanks around it, in braces unless it starts with a brace
or a definition word. -/
def normalize (text : String) : String :=
  let cs := Text.trim text.toList
  if definitionWords.any (startsWithWord · cs) || cs.head? == some '\x7b' then String.ofList cs
  else "\x7b " ++ String.ofList cs ++ " \x7d"

/-- The operation that a text stands for. -/
def parse (text : String) : Except QueryError Operation := do
  parseTokens (← Token.tokenize (normalize text))

end Query

end JsonSelection
