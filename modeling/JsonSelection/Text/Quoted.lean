import JsonSelection.Text.Hex
import JsonSelection.Text.Printable

/-!
# Quoted texts in messages

A message shows a text between single quotes, or between double quotes when it
holds a single quote and no double quote. The chosen quote, the backslash and
every character that is not printable are escaped; the length of an escape
follows the size of the character. A text can be read back from its quoted form,
but nothing here reads it.
-/

set_option autoImplicit false

namespace JsonSelection

namespace Text

/-- The quote that a text is shown in. -/
def quoteMark (cs : List Char) : Char :=
  if cs.contains '\x27' && !cs.contains '"' then '"' else '\x27'

/-- One character of a quoted text. -/
def quotedChar (mark c : Char) : List Char :=
  if c = mark ∨ c = '\\' then ['\\', c]
  else if c = '\n' then ['\\', 'n']
  else if c = '\r' then ['\\', 'r']
  else if c = '\t' then ['\\', 't']
  else if isPrintable c then [c]
  else if c.toNat < 0x100 then '\\' :: 'x' :: hex 2 c.toNat
  else if c.toNat < 0x10000 then '\\' :: 'u' :: hex 4 c.toNat
  else '\\' :: 'U' :: hex 8 c.toNat

/-- A text in quotes, as a message shows it. -/
def quoted (text : String) : String :=
  let cs := text.toList
  let mark := quoteMark cs
  String.ofList (mark :: cs.flatMap (quotedChar mark) ++ [mark])

end Text

end JsonSelection
