import JsonSelection.Text.Blank
import JsonSelection.Text.Digit

/-!
# Integer texts

An integer on the command line is an optional sign and decimal digits of any
script, with blanks around it and single underscores between digits. There is no
bound on its length.
-/

set_option autoImplicit false

namespace JsonSelection

namespace Text

/-- Whether a blank may stand around an integer; the information separators may
not. -/
def isPadding (c : Char) : Bool :=
  isBlank c && !(0x1C ≤ c.toNat && c.toNat ≤ 0x1F)

/-- The value of digits with single underscores between them. `afterDigit` tells
whether the last character was a digit. -/
def readDigits? (afterDigit : Bool) (value : Nat) : List Char → Option Nat
  | [] => if afterDigit then some value else none
  | c :: rest =>
      match decimalDigit? c with
      | some digit => readDigits? true (10 * value + digit) rest
      | none => if c = '_' ∧ afterDigit then readDigits? false value rest else none

/-- The integer that a text stands for. -/
def integer? (text : String) : Option Int :=
  let inner := ((text.toList.dropWhile isPadding).reverse.dropWhile isPadding).reverse
  match inner with
  | '-' :: digits => (readDigits? false 0 digits).map fun n => -(n : Int)
  | '+' :: digits => (readDigits? false 0 digits).map fun n => (n : Int)
  | digits => (readDigits? false 0 digits).map fun n => (n : Int)

end Text

end JsonSelection
