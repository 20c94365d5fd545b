import JsonSelection.Number.Power

/-!
# Binary64 numbers as exact quotients

A finite binary64 number is a whole significand times a power of two.
`Binary64.ofFloat` reads that form off the bits, and every exact question about
a number (is it whole, which integer is it) is answered on whole numbers from
there.

The hardware type is opaque to proofs: nothing is known of it but its bits. All
that the library decides about a number, and all that it writes of one, goes
through `Binary64.ofBits`, so it is decided by arithmetic on natural numbers.
The two zeros are different numbers here, told apart by their sign.
-/

set_option autoImplicit false

namespace JsonSelection

/-- What a binary64 number stands for: no number, an infinity, or
`significand * 2 ^ exponent` with a sign. -/
inductive Binary64 where
  | nan
  | infinite (negative : Bool)
  | finite (negative : Bool) (significand : Nat) (exponent : Int)
deriving DecidableEq, Repr

namespace Binary64

/-- Sign, exponent field and fraction field of a bit pattern, in that order. -/
def fields (bits : Nat) : Bool × Nat × Nat :=
  (bits / pow2 63 % 2 == 1, bits / pow2 52 % pow2 11, bits % pow2 52)

/-- The number that a bit pattern stands for. The all-ones exponent field is
kept for infinities and for values that are no number; the zero field marks
numbers below the normal range, which lack the hidden leading bit. -/
def ofBits (bits : Nat) : Binary64 :=
  let (negative, exponentField, fraction) := fields bits
  if exponentField = 2047 then
    if fraction = 0 then infinite negative else nan
  else if exponentField = 0 then
    finite negative fraction (-1074)
  else
    finite negative (pow2 52 + fraction) ((exponentField : Int) - 1075)

/-- The number that a float stands for. -/
def ofFloat (x : Float) : Binary64 :=
  ofBits x.toBits.toNat

/-- The integer equal to the number, if it is whole. A power below the point
divides the significand, and the number is whole when nothing is left of it. -/
def toInt? : Binary64 → Option Int
  | nan => none
  | infinite _ => none
  | finite negative significand exponent =>
      let size? : Option Nat :=
        if 0 ≤ exponent then some (significand * pow2 exponent.toNat)
        else
          let divisor := pow2 (-exponent).toNat
          if significand % divisor = 0 then some (significand / divisor) else none
      size?.map fun size => if negative then -(size : Int) else (size : Int)

/-- Whether the number is whole. -/
def isWhole (x : Binary64) : Bool :=
  x.toInt?.isSome

/-- Whether the number is zero, of either sign. The two zeros are equal as
numbers, and nothing but their text tells them apart. -/
def isZero : Binary64 → Bool
  | finite _ 0 _ => true
  | _ => false

/-- The exact value of a finite number. -/
def toRat? : Binary64 → Option Rat
  | finite negative significand exponent =>
      let size : Rat :=
        if 0 ≤ exponent then ((significand * pow2 exponent.toNat : Nat) : Rat)
        else mkRat significand (pow2 (-exponent).toNat)
      some (if negative then -size else size)
  | _ => none

end Binary64

end JsonSelection
