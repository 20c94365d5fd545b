import JsonSelection.Number.Shortest

/-!
# Number texts

How numbers are written and read. A finite binary64 number is written with the
fewest digits that read back, positionally while its leading digit stands
between the fourth place after the point and the sixteenth before it, and with
an exponent of at least two digits otherwise.

## What this module delivers

- `NumberLayout`: the choices that a decimal text leaves open. JSON texts and
  messages differ in how they spell the non-finite numbers.
- `NumberLayout.binary64`: the text of a number.
- `NumberLiteral`: the shape of a number text that is read, in parts.
- `NumberLiteral.read?`: the longest number at the start of a text.
- `NumberLiteral.toInt` and `NumberLiteral.toFloat`: its value.

Reading keeps the digits as they are written, so the length of a literal is
known before its value is formed.
-/

set_option autoImplicit false

namespace JsonSelection

/-- The choices that a decimal text leaves open: from which place to which a
number is written without an exponent, how wide the exponent is, and the words
for the numbers that are not finite. -/
structure NumberLayout where
  leastPositional : Int
  mostPositional : Int
  exponentWidth : Nat
  nanText : String
  infinityText : String

namespace NumberLayout

/-- JSON texts spell the non-finite numbers out. -/
def json : NumberLayout where
  leastPositional := -4
  mostPositional := 15
  exponentWidth := 2
  nanText := "NaN"
  infinityText := "Infinity"

/-- Messages and scalar texts write the non-finite numbers in short. -/
def plain : NumberLayout :=
  { json with nanText := "nan", infinityText := "inf" }

/-! ## Writing numbers -/

/-- A count as a decimal text padded with zeros to a width. -/
def padded (width n : Nat) : String :=
  let text := toString n
  String.ofList (List.replicate (width - text.length) '0') ++ text

/-- A digit text with a point after its first `before` digits. -/
def pointed (digits : List Char) (before : Int) : String :=
  if before ≤ 0 then
    "0." ++ String.ofList (List.replicate (-before).toNat '0' ++ digits)
  else
    let whole := digits.take before.toNat
    let part := digits.drop before.toNat
    String.ofList (whole ++ List.replicate (before.toNat - whole.length) '0') ++ "." ++
      (if part.isEmpty then "0" else String.ofList part)

/-- A digit text with one digit before the point and an exponent. -/
def scientific (layout : NumberLayout) (digits : List Char) (exponent : Int) : String :=
  let part := digits.drop 1
  let mantissa :=
    String.ofList (digits.take 1) ++ (if part.isEmpty then "" else "." ++ String.ofList part)
  let sign := if exponent < 0 then "-" else "+"
  mantissa ++ "e" ++ sign ++ padded layout.exponentWidth exponent.natAbs

/-- The text of a positive decimal. The place of its leading digit decides
whether it is written with an exponent. -/
def decimal (layout : NumberLayout) (d : Decimal) : String :=
  let digits := (toString d.digits).toList
  let leading := d.exponent + digits.length - 1
  if layout.leastPositional ≤ leading ∧ leading ≤ layout.mostPositional then
    pointed digits (leading + 1)
  else layout.scientific digits leading

/-- The text of a binary64 number. A zero is written with its sign, which no
digits would show. -/
def binary64 (layout : NumberLayout) : Binary64 → String
  | .nan => layout.nanText
  | .infinite negative => (if negative then "-" else "") ++ layout.infinityText
  | .finite negative significand exponent =>
      (if negative then "-" else "") ++
        (if significand = 0 then "0.0" else layout.decimal (Shortest.digits significand exponent))

/-- The text of a float. -/
def float (layout : NumberLayout) (x : Float) : String :=
  layout.binary64 (Binary64.ofFloat x)

end NumberLayout

/-! ## Reading numbers -/

/-- A number text in parts: sign, digits before the point, digits after it, and
the exponent. A missing fraction or exponent differs from an empty one. -/
structure NumberLiteral where
  negative : Bool
  whole : List Char
  fraction : Option (List Char)
  exponent : Option (Bool × List Char)

namespace NumberLiteral

/-- The value of a digit text. -/
def natOfDigits (digits : List Char) : Nat :=
  digits.foldl (fun n c => 10 * n + (c.toNat - '0'.toNat)) 0

/-- The leading ASCII digits of a text and what follows them. -/
def spanDigits (cs : List Char) : List Char × List Char :=
  (cs.takeWhile Char.isDigit, cs.dropWhile Char.isDigit)

/-- Reads the digits before the point: a lone zero, or digits that do not start
with one. -/
def readWhole? : List Char → Option (List Char × List Char)
  | [] => none
  | c :: rest =>
      if c = '0' then some ([c], rest)
      else if c.isDigit then
        let (digits, rest) := spanDigits rest
        some (c :: digits, rest)
      else none

/-- Reads a point with at least one digit after it, if there is one. -/
def readFraction : List Char → Option (List Char) × List Char
  | '.' :: rest =>
      let (digits, after) := spanDigits rest
      if digits.isEmpty then (none, '.' :: rest) else (some digits, after)
  | cs => (none, cs)

/-- Reads an exponent mark, an optional sign and at least one digit, if they are
there. -/
def readExponent (cs : List Char) : Option (Bool × List Char) × List Char :=
  match cs with
  | [] => (none, [])
  | mark :: rest =>
      if mark = 'e' ∨ mark = 'E' then
        let (negative, unsigned) :=
          match rest with
          | '-' :: tail => (true, tail)
          | '+' :: tail => (false, tail)
          | _ => (false, rest)
        let (digits, after) := spanDigits unsigned
        -- a mark without digits behind it is not a part of the number
        if digits.isEmpty then (none, cs) else (some (negative, digits), after)
      else (none, cs)

/-- Reads the longest number at the start of a text. A point or an exponent mark
that no digit follows does not belong to the number. -/
def read? (cs : List Char) : Option (NumberLiteral × List Char) :=
  let (negative, unsigned) :=
    match cs with
    | '-' :: rest => (true, rest)
    | _ => (false, cs)
  match readWhole? unsigned with
  | none => none
  | some (whole, rest) =>
      let (fraction, rest) := readFraction rest
      let (exponent, rest) := readExponent rest
      some (⟨negative, whole, fraction, exponent⟩, rest)

/-- Whether the literal has neither fraction nor exponent. -/
def isInteger (literal : NumberLiteral) : Bool :=
  literal.fraction.isNone && literal.exponent.isNone

/-- The integer of a literal without fraction and exponent. Its digits are taken
as they are, however many there are. -/
def toInt (literal : NumberLiteral) : Int :=
  let size : Int := natOfDigits literal.whole
  if literal.negative then -size else size

/-- The nearest binary64 number. A magnitude far outside the range is an
infinity or zero without its power of ten being formed. -/
def toFloat (literal : NumberLiteral) : Float :=
  let fraction := literal.fraction.getD []
  let digits := literal.whole ++ fraction
  let scale : Int :=
    match literal.exponent with
    | none => 0
    | some (negative, text) =>
        if negative then -(natOfDigits text : Int) else (natOfDigits text : Int)
  let exponent := scale - fraction.length
  let n := natOfDigits digits
  let size : Float :=
    if n = 0 then 0.0
    -- far beyond the range the size need not be computed
    else if 400 < exponent then Float.ofScientific 1 false 400
    else if exponent + digits.length < -400 then 0.0
    else Float.ofScientific n (exponent < 0) exponent.natAbs
  if literal.negative then -size else size

end NumberLiteral

end JsonSelection
