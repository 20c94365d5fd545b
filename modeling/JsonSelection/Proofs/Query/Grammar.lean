import JsonSelection.Query.Parser

/-!
# The grammar of queries

The grammar that a query follows, as relations between token lists and what they stand for:

```text
Document  = [('query' | 'mutation') [Name]] Set
Set       = '{' Selection+ '}'
Selection = Name [':' Name] ['(' (Name ':' Value)* ')'] [Set]
Value     = number | string | name | '[' Value* ']' | '{' (Name ':' Value)* '}'
```

Each relation carries the height of the derivation, which is the greatest number of selection sets,
lists and objects that enclose a place of the text. The relations say nothing about how a text is
read; they are what the parser is measured against.
-/

set_option autoImplicit false

namespace JsonSelection

namespace Token

/-- A punctuation mark of a given text. A string of the same text is no mark. -/
def IsMark (mark : String) (token : Token) : Prop :=
  token.kind = .punct ∧ token.text = mark

/-- A number without fraction and exponent that has more digits than are
converted. The sign is no digit. -/
def IsLong (token : Token) : Prop :=
  token.kind = .number ∧ (∀ c ∈ token.text.toList, c ≠ '.' ∧ c ≠ 'e' ∧ c ≠ 'E') ∧
    Query.mostDigits < (token.text.toList.filter Char.isDigit).length

end Token

namespace Grammar

open Token

variable {α : Type}

/-- A nonterminal: the token lists derived from it, with what they stand for and
with their heights. -/
abbrev Nonterminal (α : Type) := List Token → α → Nat → Prop

/-- Any number of derivations in a row. Their heights are all bounded by the
height of the whole. -/
inductive Star (derives : Nonterminal α) : Nonterminal (List α) where
  | nil : Star derives [] [] 0
  | cons {tokens others : List Token} {value : α} {values : List α} {height rest : Nat} :
      derives tokens value height → Star derives others values rest →
        Star derives (tokens ++ others) (value :: values) (max height rest)

/-- A name, a colon and what the name is given. -/
inductive Entry (derives : Nonterminal α) : Nonterminal (String × α) where
  | mk {name colon : Token} {tokens : List Token} {value : α} {height : Nat} :
      name.kind = .name → IsMark ":" colon → derives tokens value height →
        Entry derives (name :: colon :: tokens) (name.text, value) height

/-- What a bare word stands for: a constant, or itself. The constants are
written in lower case only. -/
inductive Word : String → Json → Prop where
  | yes : Word "true" (.bool true)
  | no : Word "false" (.bool false)
  | null : Word "null" .null
  | enumeration {word : String} :
      word ≠ "true" → word ≠ "false" → word ≠ "null" → Word word (.str word)

/-- Literals. A number or string token stands for the JSON value that its text
holds, where an integer of more than `Query.mostDigits` digits stands for
nothing; of the entries of an object with one name the last one counts. -/
inductive Value : Nonterminal Json where
  | number {token : Token} {value : Json} :
      token.kind = .number → ¬ token.IsLong → Json.parse? token.text = some value →
        Value [token] value 0
  | string {token : Token} {value : Json} :
      token.kind = .string → Json.parse? token.text = some value → Value [token] value 0
  | word {token : Token} {value : Json} :
      token.kind = .name → Word token.text value → Value [token] value 0
  | list {opening closing : Token} {tokens : List Token} {items : List Json} {height : Nat} :
      IsMark "[" opening → Star Value tokens items height → IsMark "]" closing →
        Value (opening :: (tokens ++ [closing])) (.arr items) (height + 1)
  | object {opening closing : Token} {tokens : List Token} {entries : List (String × Json)}
      {height : Nat} :
      IsMark "\x7b" opening → Star (Entry Value) tokens entries height →
      IsMark "\x7d" closing →
        Value (opening :: (tokens ++ [closing])) (.obj (Entries.ofList entries)) (height + 1)

/-- The name of a field, with an alias before it or without. The alias stands in
front, with a colon behind it. -/
inductive Naming : List Token → String → Option String → Prop where
  | plain {name : Token} : name.kind = .name → Naming [name] name.text none
  | aliased {first colon name : Token} :
      first.kind = .name → IsMark ":" colon → name.kind = .name →
        Naming [first, colon, name] name.text (some first.text)

/-- The arguments of a field, no two of one name; a field needs none. An empty
pair of parentheses gives none. -/
inductive Arguments : Nonterminal (List (String × Json)) where
  | none : Arguments [] [] 0
  | given {opening closing : Token} {tokens : List Token} {entries : List (String × Json)}
      {height : Nat} :
      IsMark "(" opening → Star (Entry Value) tokens entries height →
        Entries.Distinct entries → IsMark ")" closing →
        Arguments (opening :: (tokens ++ [closing])) entries height

/-- A selection set: at least one selection between braces. -/
inductive Braced (derives : Nonterminal α) : Nonterminal (List α) where
  | mk {opening closing : Token} {tokens : List Token} {values : List α} {height : Nat} :
      IsMark "\x7b" opening → Star derives tokens values height → values ≠ [] →
        IsMark "\x7d" closing → Braced derives (opening :: (tokens ++ [closing]))
          values (height + 1)

/-- A selected field; without a set of its own it has no children. A set is
never empty, so a field with one has some. -/
inductive Selected : Nonterminal Selection where
  | leaf {name arguments : List Token} {fieldName : String} {aliasName : Option String}
      {entries : List (String × Json)} {height : Nat} :
      Naming name fieldName aliasName → Arguments arguments entries height →
        Selected (name ++ arguments) ⟨fieldName, aliasName, entries, []⟩ height
  | node {name arguments set : List Token} {fieldName : String} {aliasName : Option String}
      {entries : List (String × Json)} {children : List Selection} {height below : Nat} :
      Naming name fieldName aliasName → Arguments arguments entries height →
        Braced Selected set children below →
        Selected (name ++ arguments ++ set) ⟨fieldName, aliasName, entries, children⟩
          (max height below)

/-- An operation: a selection set, with a keyword and a name before it or
without. A name needs the keyword. -/
inductive Document : Nonterminal Operation where
  | bare {tokens : List Token} {selections : List Selection} {height : Nat} :
      Braced Selected tokens selections height →
      Document tokens ⟨.query, none, selections⟩ height
  | headed {kind : OperationKind} {keyword : Token} {tokens : List Token}
      {selections : List Selection} {height : Nat} :
      keyword.kind = .name → keyword.text = kind.keyword →
      Braced Selected tokens selections height →
        Document (keyword :: tokens) ⟨kind, none, selections⟩ height
  | named {kind : OperationKind} {keyword name : Token} {tokens : List Token}
      {selections : List Selection} {height : Nat} :
      keyword.kind = .name → keyword.text = kind.keyword → name.kind = .name →
        Braced Selected tokens selections height →
        Document (keyword :: name :: tokens) ⟨kind, some name.text, selections⟩ height

end Grammar

end JsonSelection
