/-!
# Lenient UTF-8

Bytes are decoded one after the other. The longest start of a sequence that no
further byte can complete becomes one replacement character, and decoding goes
on at the byte that broke it.

The decoder is a machine over the state between two bytes (`Text.Utf8State`):
the bounds for the next byte exclude overlong forms, surrogates and numbers past
the last character, so a sequence that is completed stands for a character.
`Proofs/Text/Utf8` says the same without the machine.
-/

set_option autoImplicit false

namespace JsonSelection

namespace Text

/-- The character that stands for bytes which are no UTF-8. -/
def replacement : Char := '\uFFFD'

/-- The state between two bytes: at the start of a character, or inside one of
which `left` bytes are still to come, the next of them between two bounds. -/
inductive Utf8State where
  | start
  | inside (code left low high : Nat)
deriving DecidableEq, Repr

namespace Utf8State

/-- The state after the first byte of a character, and the character if that was
all of it. -/
def first (byte : Nat) : Utf8State × List Char :=
  if byte < 0x80 then (start, [Char.ofNat byte])
  else if 0xC2 ≤ byte ∧ byte ≤ 0xDF then (inside (byte % 0x20) 1 0x80 0xBF, [])
  -- the range of the second byte keeps out forms that are too long and surrogates
  else if byte = 0xE0 then (inside 0 2 0xA0 0xBF, [])
  else if byte = 0xED then (inside 0xD 2 0x80 0x9F, [])
  else if 0xE1 ≤ byte ∧ byte ≤ 0xEF then (inside (byte % 0x10) 2 0x80 0xBF, [])
  else if byte = 0xF0 then (inside 0 3 0x90 0xBF, [])
  else if 0xF1 ≤ byte ∧ byte ≤ 0xF3 then (inside (byte % 8) 3 0x80 0xBF, [])
  else if byte = 0xF4 then (inside 4 3 0x80 0x8F, [])
  else (start, [replacement])

/-- The state after one more byte, and the characters that it brings to an end. -/
def next (state : Utf8State) (byte : Nat) : Utf8State × List Char :=
  match state with
  | start => first byte
  | inside code left low high =>
      if low ≤ byte ∧ byte ≤ high then
        let code := code * 0x40 + byte % 0x40
        if left = 1 then (start, [Char.ofNat code]) else (inside code (left - 1) 0x80 0xBF, [])
      else
        -- what came before the byte is given up, and the byte starts anew
        let (state, chars) := first byte
        (state, replacement :: chars)

end Utf8State

/-- The characters of some bytes from a state on. -/
def decodeUtf8From (state : Utf8State) : List Nat → List Char
  | [] => if state = .start then [] else [replacement]
  | byte :: rest =>
      let (state, chars) := state.next byte
      chars ++ decodeUtf8From state rest

/-- The characters of some bytes. -/
def decodeUtf8 (bytes : List Nat) : List Char :=
  decodeUtf8From .start bytes

end Text

end JsonSelection
