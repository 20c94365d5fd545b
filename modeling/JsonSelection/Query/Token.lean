import JsonSelection.Number.Notation
import JsonSelection.Query.Error
import JsonSelection.Text.Blank

/-!
# Query tokens

A query text is cut into tokens; blanks, commas, byte order marks and comments
stand between them and are left out. A token keeps its text and the position of
its first character.

At each position the kinds are tried in a fixed order, and a kind takes as many
characters as it can (`Token.lexeme?`). The scanner goes through the text
character by character and counts down what still belongs to the part before
(`Token.scan`), so its recursion is that of the text. A string token is not yet
read: it may hold an escape that no string has, which the parser refuses.
-/

set_option autoImplicit false

namespace JsonSelection

/-- The kinds of tokens. -/
inductive TokenKind where
  | spread
  | punct
  | number
  | string
  | name
deriving DecidableEq, Repr

namespace TokenKind

/-- The word for a kind. -/
def label : TokenKind → String
  | spread => "spread"
  | punct => "punct"
  | number => "number"
  | string => "string"
  | name => "name"

end TokenKind

/-- A token with its text and the position of its first character. Quotes belong
to the text of a string. -/
structure Token where
  kind : TokenKind
  text : String
  position : Nat
deriving DecidableEq, Repr

namespace Token

/-- Whether a character may stand between tokens. Commas count as blanks, and so
does a byte order mark wherever it stands. -/
def isIgnored (c : Char) : Bool :=
  Text.isBlank c || c == ',' || c == '\uFEFF'

/-- Whether a character ends a line. -/
def isLineEnd (c : Char) : Bool :=
  c == '\n' || c == '\r'

/-- Whether a character is a token of its own. -/
def isPunct (c : Char) : Bool :=
  "\x7b\x7d()[]:!$=@|&".toList.contains c

/-- Whether a character can start a name. -/
def isNameStart (c : Char) : Bool :=
  c.isAlpha || c == '_'

/-- Whether a character can continue a name. -/
def isNameChar (c : Char) : Bool :=
  c.isAlphanum || c == '_'

/-- The number of characters of a string after its opening quote, the closing
one included. A backslash takes the next character along; a line end ends no
string. -/
def stringLength? : List Char → Option Nat
  | [] => none
  | '"' :: _ => some 1
  | '\\' :: c :: rest => if c = '\n' then none else (stringLength? rest).map (· + 2)
  | '\\' :: [] => none
  | c :: rest => if isLineEnd c then none else (stringLength? rest).map (· + 1)

/-- The number of characters of the number at the start of a text. -/
def numberLength? (cs : List Char) : Option Nat :=
  (NumberLiteral.read? cs).map fun read => cs.length - read.2.length

/-- The part of a text that its first character starts: the kind, unless the
part is left out, and the number of characters after the first. -/
def lexeme? : List Char → Option (Option TokenKind × Nat)
  | [] => none
  | c :: rest =>
      if isIgnored c then some (none, (rest.takeWhile isIgnored).length)
      else if c = '#' then some (none, (rest.takeWhile fun d => !isLineEnd d).length)
      else if c = '.' ∧ ['.', '.'].isPrefixOf rest then some (some .spread, 2)
      else if isPunct c then some (some .punct, 0)
      else
        -- a minus sign alone starts no number, and then no token at all
        match numberLength? (c :: rest) with
        | some length => some (some .number, length - 1)
        | none =>
            if c = '"' then (stringLength? rest).map fun length => (some .string, length)
            else if isNameStart c then some (some .name, (rest.takeWhile isNameChar).length)
            else none

/-- The tokens of a text. `left` counts the characters that still belong to the
part before, and `position` those before the text. -/
def scan (left position : Nat) : List Char → Except QueryError (List Token)
  | [] => .ok []
  | c :: rest =>
      match left with
      -- the character belongs to the part that began before it
      | left + 1 => scan left (position + 1) rest
      | 0 =>
          match lexeme? (c :: rest) with
          | none => .error (.unexpectedChar c position)
          | some (none, further) => scan further (position + 1) rest
          | some (some kind, further) =>
              match scan further (position + 1) rest with
              | .ok tokens =>
                  .ok (⟨kind, String.ofList (c :: rest.take further), position⟩ :: tokens)
              | .error e => .error e

/-- The tokens of a text, in order. A character that starts no token is refused
with its position. -/
def tokenize (text : String) : Except QueryError (List Token) :=
  scan 0 0 text.toList

end Token

end JsonSelection
