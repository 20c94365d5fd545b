import JsonSelection.Json.Basic
import JsonSelection.Number.Notation
import JsonSelection.Text.Hex

/-!
# Reading JSON texts

`Json.parse?` reads one value that fills its text. Blanks are the four of the
format, a control character in a string is refused, the three non-finite numbers
are accepted by name, and of entries with one key the last value stays at the
first place.

## What this module delivers

- `JsonString.read`: the rest of a string after its opening quote. It also
  serves the string literals of queries, so it says what is wrong with a string
  that it refuses (`StringFault`).
- `Json.readNumber?` and `Json.readScalar?`: values without parts.
- `Json.readValue?` and `Json.parse?`: any value.

A surrogate that is not part of a pair is no character; it is read as the
replacement character (`JsonString.unitChar`). The readers of nested values call
each other, and fuel bounds the number of calls.
-/

set_option autoImplicit false

namespace JsonSelection

/-! ## Strings -/

/-- What is wrong with a string literal. The faults are told apart by their
words, which a query error repeats. -/
inductive StringFault where
  | unterminated
  | control
  | escape
  | unicodeEscape
deriving DecidableEq, Repr

namespace StringFault

/-- The words for a fault. -/
def message : StringFault → String
  | unterminated => "Unterminated string starting at"
  | control => "Invalid control character at"
  | escape => "Invalid \\escape"
  | unicodeEscape => "Invalid \\uXXXX escape"

end StringFault

namespace JsonString

/-- The character of a one-letter escape. -/
def plainEscape? (c : Char) : Option Char :=
  if c = '"' then some '"'
  else if c = '\\' then some '\\'
  else if c = '/' then some '/'
  else if c = 'b' then some '\x08'
  else if c = 'f' then some '\x0c'
  else if c = 'n' then some '\n'
  else if c = 'r' then some '\r'
  else if c = 't' then some '\t'
  else none

/-- Whether a code unit is the first of a surrogate pair. -/
def isHighSurrogate (unit : Nat) : Bool :=
  0xD800 ≤ unit && unit ≤ 0xDBFF

/-- Whether a code unit is the second of a surrogate pair. -/
def isLowSurrogate (unit : Nat) : Bool :=
  0xDC00 ≤ unit && unit ≤ 0xDFFF

/-- The character of a code unit; a surrogate on its own is no character and is
replaced. -/
def unitChar (unit : Nat) : Char :=
  if isHighSurrogate unit || isLowSurrogate unit then '\uFFFD' else Char.ofNat unit

/-- The character of a surrogate pair: the two halves carry ten bits each,
counted from the first character past the sixteen-bit ones. -/
def pairChar (high low : Nat) : Char :=
  Char.ofNat (0x10000 + (high - 0xD800) * 0x400 + (low - 0xDC00))

/-- Reads the rest of a string after its opening quote: its characters and what
follows its closing quote. -/
def read : List Char → Except StringFault (List Char × List Char)
  | [] => .error .unterminated
  | '"' :: rest => .ok ([], rest)
  | '\\' :: 'u' :: a :: b :: c :: d :: '\\' :: 'u' :: e :: f :: g :: h :: rest =>
      match Text.hexUnit? a b c d with
      | none => .error .unicodeEscape
      | some high =>
          if isHighSurrogate high then
            match Text.hexUnit? e f g h with
            | none => .error .unicodeEscape
            | some low =>
                if isLowSurrogate low then
                  match read rest with
                  | .ok (cs, after) => .ok (pairChar high low :: cs, after)
                  | .error fault => .error fault
                else
                  -- the second escape is no second half, so it is read again on its own
                  match read ('\\' :: 'u' :: e :: f :: g :: h :: rest) with
                  | .ok (cs, after) => .ok (unitChar high :: cs, after)
                  | .error fault => .error fault
          else
            match read ('\\' :: 'u' :: e :: f :: g :: h :: rest) with
            | .ok (cs, after) => .ok (unitChar high :: cs, after)
            | .error fault => .error fault
  | '\\' :: 'u' :: a :: b :: c :: d :: next :: rest =>
      match Text.hexUnit? a b c d with
      | none => .error .unicodeEscape
      | some unit =>
          match read (next :: rest) with
          | .ok (cs, after) => .ok (unitChar unit :: cs, after)
          | .error fault => .error fault
  | '\\' :: 'u' :: _ => .error .unicodeEscape
  | '\\' :: c :: rest =>
      match plainEscape? c with
      | none => .error .escape
      | some plain =>
          match read rest with
          | .ok (cs, after) => .ok (plain :: cs, after)
          | .error fault => .error fault
  | '\\' :: [] => .error .unterminated
  | c :: rest =>
      if c.toNat < 0x20 then .error .control
      else
        match read rest with
        | .ok (cs, after) => .ok (c :: cs, after)
        | .error fault => .error fault

end JsonString

namespace Json

/-! ## Scalars -/

/-- Whether a character is a blank of the format, which are four. Other white
space is not allowed between values. -/
def isSpace (c : Char) : Bool :=
  c == ' ' || c == '\t' || c == '\n' || c == '\r'

/-- A text without the blanks at its start. -/
def skipSpace (cs : List Char) : List Char :=
  cs.dropWhile isSpace

/-- What follows a word at the start of a text. -/
def afterWord? (word : String) (cs : List Char) : Option (List Char) :=
  if word.toList.isPrefixOf cs then some (cs.drop word.length) else none

/-- The value of a number literal: an integer unless it has a fraction or an
exponent. -/
def ofLiteral (literal : NumberLiteral) : Json :=
  if literal.isInteger then int literal.toInt else float literal.toFloat

/-- Reads a number, by its digits or by name. The names of the numbers that are
not finite are accepted, although the format does not have them. -/
def readNumber? (cs : List Char) : Option (Json × List Char) :=
  match NumberLiteral.read? cs with
  | some (literal, rest) => some (ofLiteral literal, rest)
  -- the names of what is no number are read too, as the printer writes them
  | none =>
      match afterWord? "NaN" cs with
      | some rest => some (float (0.0 / 0.0), rest)
      | none =>
          match afterWord? "Infinity" cs with
          | some rest => some (float (1.0 / 0.0), rest)
          | none => (afterWord? "-Infinity" cs).map fun rest => (float (-1.0 / 0.0), rest)

/-- Reads a value that is neither a string nor an array nor an object. -/
def readScalar? (cs : List Char) : Option (Json × List Char) :=
  match afterWord? "null" cs with
  | some rest => some (null, rest)
  | none =>
      match afterWord? "true" cs with
      | some rest => some (bool true, rest)
      | none =>
          match afterWord? "false" cs with
          | some rest => some (bool false, rest)
          | none => readNumber? cs

mutual

/-- Reads the value at the start of a text. The fuel bounds the number of nested
calls. -/
def readValue? : Nat → List Char → Option (Json × List Char)
  | 0, _ => none
  | fuel + 1, cs =>
      match cs with
      | '"' :: rest =>
          match JsonString.read rest with
          | .ok (text, after) => some (str (String.ofList text), after)
          | .error _ => none
      | '[' :: rest =>
          match skipSpace rest with
          | ']' :: after => some (arr [], after)
          | inner => (readItems? fuel inner).map fun (items, after) => (arr items, after)
      | '\x7b' :: rest =>
          match skipSpace rest with
          | '\x7d' :: after => some (obj [], after)
          | inner =>
              (readMembers? fuel inner).map fun (members, after) =>
                (obj (Entries.ofList members), after)
      | _ => readScalar? cs

/-- Reads the elements of an array up to its closing bracket. -/
def readItems? : Nat → List Char → Option (List Json × List Char)
  | 0, _ => none
  | fuel + 1, cs =>
      match readValue? fuel cs with
      | none => none
      | some (item, rest) =>
          match skipSpace rest with
          | ',' :: more =>
              (readItems? fuel (skipSpace more)).map fun (items, after) => (item :: items, after)
          | ']' :: after => some ([item], after)
          | _ => none

/-- Reads the members of an object up to its closing brace. -/
def readMembers? : Nat → List Char → Option (List (String × Json) × List Char)
  | 0, _ => none
  | fuel + 1, cs =>
      match cs with
      | '"' :: opened =>
          match JsonString.read opened with
          | .error _ => none
          | .ok (key, rest) =>
              match skipSpace rest with
              | ':' :: rest =>
                  match readValue? fuel (skipSpace rest) with
                  | none => none
                  | some (value, rest) =>
                      match skipSpace rest with
                      | ',' :: more =>
                          (readMembers? fuel (skipSpace more)).map fun (members, after) =>
                            ((String.ofList key, value) :: members, after)
                      | '\x7d' :: after => some ([(String.ofList key, value)], after)
                      | _ => none
              | _ => none
      | _ => none

end

/-- The value that a text holds. Each nested call comes with a character of its
own or follows one that does, so twice the length is fuel enough. -/
def parse? (text : String) : Option Json :=
  let cs := text.toList
  match readValue? (2 * cs.length + 2) (skipSpace cs) with
  | some (value, rest) => if (skipSpace rest).isEmpty then some value else none
  | none => none

end Json

end JsonSelection
