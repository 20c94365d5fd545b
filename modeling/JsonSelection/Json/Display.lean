import JsonSelection.Json.Printer
import JsonSelection.Number.Notation
import JsonSelection.Text.Quoted

/-!
# Values in messages and as plain texts

`Json.display` is the form in which a message shows a literal. `Json.plainText`
is the text of a scalar that a string field gives for it: a whole number is
written as an integer, whichever form it came in.

A binary64 number is whole when it equals an integer, so `1.0` and `1` count as
one integer in both forms (`Json.toInt?`). The label of a value's type follows
the same rule (`Json.typeLabel`).
-/

set_option autoImplicit false

namespace JsonSelection

namespace Json

/-- The integer that a number value stands for, if it is a whole number. A
binary64 number stands for one as well if it has no fraction. -/
def toInt? : Json → Option Int
  | int n => some n
  | float x => (Binary64.ofFloat x).toInt?
  | _ => none

/-- Whether the value is a whole number, in either form. -/
def isWhole (value : Json) : Bool :=
  value.toInt?.isSome

/-- The word for a value's type; whole numbers count as integers in either form. -/
def typeLabel : Json → String
  | null => "null"
  | bool _ => "bool"
  | int _ => "int"
  | float x => if (Binary64.ofFloat x).isWhole then "int" else "float"
  | str _ => "string"
  | arr _ => "array"
  | obj _ => "object"

/-- The text of a value: its JSON text, save that a string stands for itself, a
whole number is written as an integer and the non-finite numbers are written in
short. -/
def plainText : Json → String
  | float x =>
      match (Binary64.ofFloat x).toInt? with
      | some n => toString n
      | none => NumberLayout.plain.float x
  | str text => text
  | value => value.compact

mutual

/-- A value as a message shows it. This is not JSON: constants are written with
capital letters, and texts between single quotes wherever they can be. -/
def display : Json → String
  | null => "None"
  | bool true => "True"
  | bool false => "False"
  | int n => toString n
  | float x => NumberLayout.plain.float x
  | str text => Text.quoted text
  | arr items => "[" ++ displayItems true items ++ "]"
  | obj entries => "\x7b" ++ displayEntries true entries ++ "\x7d"

/-- Elements as a message shows them. -/
def displayItems (isFirst : Bool) : List Json → String
  | [] => ""
  | item :: rest => (if isFirst then "" else ", ") ++ item.display ++ displayItems false rest

/-- Entries as a message shows them. -/
def displayEntries (isFirst : Bool) : List (String × Json) → String
  | [] => ""
  | (key, value) :: rest =>
      (if isFirst then "" else ", ") ++ Text.quoted key ++ ": " ++ value.display ++
        displayEntries false rest

end

end Json

end JsonSelection
