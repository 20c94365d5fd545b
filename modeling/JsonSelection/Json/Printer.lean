import JsonSelection.Json.Basic
import JsonSelection.Number.Notation
import JsonSelection.Text.Hex

/-!
# JSON texts of values

How values are written.

- `Json.compact`: without blanks. Sizes are measured on this form.
- `Json.indented`: with two blanks a level, for readers.
- `Json.asciiEntries`: one flat object in ASCII, with blanks after its marks.

The first two keep the order of entries and escape only quotes, backslashes and
control characters; every other character stands for itself. An empty array or
object takes no line of its own in the indented form.
-/

set_option autoImplicit false

namespace JsonSelection

namespace Json

/-- One character of a JSON string. Quotes, backslashes and control characters
are escaped, all others stand for themselves. -/
def quotedChar (c : Char) : List Char :=
  if c = '"' then ['\\', '"']
  else if c = '\\' then ['\\', '\\']
  else if c = '\n' then ['\\', 'n']
  else if c = '\r' then ['\\', 'r']
  else if c = '\t' then ['\\', 't']
  else if c = '\x08' then ['\\', 'b']
  else if c = '\x0c' then ['\\', 'f']
  else if c.toNat < 0x20 then '\\' :: 'u' :: Text.hex 4 c.toNat
  else [c]

/-- A text as a JSON string. -/
def quoted (text : String) : String :=
  String.ofList ('"' :: text.toList.flatMap quotedChar ++ ['"'])

/-- One character of a JSON string in ASCII; a character beyond the basic plane
becomes a surrogate pair. -/
def asciiChar (c : Char) : List Char :=
  let n := c.toNat
  if n < 0x7F then quotedChar c
  else if n < 0x10000 then '\\' :: 'u' :: Text.hex 4 n
  else
    let offset := n - 0x10000
    '\\' :: 'u' :: Text.hex 4 (0xD800 + offset / 0x400) ++
      '\\' :: 'u' :: Text.hex 4 (0xDC00 + offset % 0x400)

/-- A text as a JSON string in ASCII: every other character is escaped by its
code units, of which some characters have two. -/
def asciiQuoted (text : String) : String :=
  String.ofList ('"' :: text.toList.flatMap asciiChar ++ ['"'])

/-- The object that maps the given keys to the given texts, in ASCII and with
blanks after its marks. -/
def asciiEntries (entries : Entries String) : String :=
  "\x7b" ++ ", ".intercalate
    (entries.map fun entry => asciiQuoted entry.1 ++ ": " ++ asciiQuoted entry.2) ++ "\x7d"

/-- The text of a value that is neither an array nor an object. -/
def scalarText : Json → String
  | null => "null"
  | bool true => "true"
  | bool false => "false"
  | int n => toString n
  | float x => NumberLayout.json.float x
  | str text => quoted text
  | arr _ => ""
  | obj _ => ""

mutual

/-- The text of a value without blanks. -/
def compact : Json → String
  | arr items => "[" ++ compactItems true items ++ "]"
  | obj entries => "\x7b" ++ compactEntries true entries ++ "\x7d"
  | value => scalarText value

/-- The texts of elements, each but the first after a comma. -/
def compactItems (isFirst : Bool) : List Json → String
  | [] => ""
  | item :: rest => (if isFirst then "" else ",") ++ item.compact ++ compactItems false rest

/-- The texts of entries, each but the first after a comma. -/
def compactEntries (isFirst : Bool) : List (String × Json) → String
  | [] => ""
  | (key, value) :: rest =>
      (if isFirst then "" else ",") ++ quoted key ++ ":" ++ value.compact ++
        compactEntries false rest

end

/-- A line end followed by two blanks a level. -/
def lineStart (level : Nat) : String :=
  "\n" ++ String.ofList (List.replicate (2 * level) ' ')

mutual

/-- The text of a value with one element or entry a line. -/
def indentedAt (level : Nat) : Json → String
  | arr [] => "[]"
  | arr (item :: rest) =>
      "[" ++ indentedItems (level + 1) true (item :: rest) ++ lineStart level ++ "]"
  | obj [] => "\x7b\x7d"
  | obj (entry :: rest) =>
      "\x7b" ++ indentedEntries (level + 1) true (entry :: rest) ++ lineStart level ++ "\x7d"
  | value => scalarText value

/-- The lines of elements. -/
def indentedItems (level : Nat) (isFirst : Bool) : List Json → String
  | [] => ""
  | item :: rest =>
      (if isFirst then "" else ",") ++ lineStart level ++ indentedAt level item ++
        indentedItems level false rest

/-- The lines of entries. -/
def indentedEntries (level : Nat) (isFirst : Bool) : List (String × Json) → String
  | [] => ""
  | (key, value) :: rest =>
      (if isFirst then "" else ",") ++ lineStart level ++ quoted key ++ ": " ++
        indentedAt level value ++ indentedEntries level false rest

end

/-- The text of a value with two blanks a level. An array or an object without
elements takes no lines of its own. -/
def indented (value : Json) : String :=
  indentedAt 0 value

end Json

end JsonSelection
