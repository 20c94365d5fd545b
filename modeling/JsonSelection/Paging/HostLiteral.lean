import JsonSelection.Number.Notation
import JsonSelection.Text.Hex
import JsonSelection.Text.Pieces

/-!
# Host literals

The forms that the host of an address may take between brackets: an IPv6
address, with a zone if need be, or a literal of a version to come.

An IPv6 address has eight groups; a gap of two colons stands for one or more
groups of zeros, and the last two groups may be written as four decimal octets.
The groups before and after the gap are counted on their own
(`HostLiteral.groups?`), and octets may stand last in the text only. The value
of an address is never needed, so none is formed: `HostLiteral.isValid` only
tells whether a text is a literal.
-/

set_option autoImplicit false

namespace JsonSelection

namespace HostLiteral

/-! ## Octets and groups -/

/-- Whether a text is a number up to 255 in ASCII digits that starts with no
needless zero. -/
def isOctet (cs : List Char) : Bool :=
  !cs.isEmpty && cs.length ≤ 3 && cs.all Char.isDigit &&
    (cs.length == 1 || cs.head? != some '0') &&
    NumberLiteral.natOfDigits cs ≤ 255

/-- Whether a text is four octets with points between them. -/
def isDotted (cs : List Char) : Bool :=
  let octets := Text.pieces '.' cs
  octets.length == 4 && octets.all isOctet

/-- Whether a character is a hexadecimal digit. -/
def isHexDigit (c : Char) : Bool :=
  (Text.hexValue? c).isSome

/-- Whether a text is a group of one to four hexadecimal digits. -/
def isGroup (cs : List Char) : Bool :=
  !cs.isEmpty && cs.length ≤ 4 && cs.all isHexDigit

/-- The number of groups that some pieces write. Octets count as two groups, and
they may stand last only, if at all. -/
def countGroups? (octetsLast : Bool) : List (List Char) → Option Nat
  | [] => some 0
  | [piece] =>
      if isGroup piece then some 1
      else if octetsLast && isDotted piece then some 2
      else none
  | piece :: rest =>
      if isGroup piece then (countGroups? octetsLast rest).map (· + 1) else none

/-- The number of groups that a text between colons writes; an empty text writes
none. -/
def groups? (octetsLast : Bool) (cs : List Char) : Option Nat :=
  if cs.isEmpty then some 0 else countGroups? octetsLast (Text.pieces ':' cs)

/-- The texts before and after the first gap. A second gap is left in the text
behind it, where it makes an empty group, which is none. -/
def splitGap? : List Char → Option (List Char × List Char)
  | [] => none
  | ':' :: ':' :: rest => some ([], rest)
  | c :: rest => (splitGap? rest).map fun (before, after) => (c :: before, after)

/-! ## Addresses and literals -/

/-- Whether a text is an IPv6 address. A gap stands for one group at least, so
at most seven are written beside it. -/
def isIPv6 (cs : List Char) : Bool :=
  match splitGap? cs with
  | none => groups? true cs == some 8
  | some (before, after) =>
      match groups? false before, groups? true after with
      | some high, some low => high + low < 8
      | _, _ => false

/-- Whether a text is an IPv6 address, or one with a zone behind a percent sign.
A zone is not empty and holds no other percent sign. -/
def isZoned (cs : List Char) : Bool :=
  match Text.splitBefore (· == '%') cs with
  | (address, []) => isIPv6 address
  | (address, _ :: zone) => isIPv6 address && !zone.isEmpty && !zone.contains '%'

/-- Whether a text, after its leading letter, is a literal of a version to come:
the version in hexadecimal digits, a point, and at least one character. -/
def isFuture (cs : List Char) : Bool :=
  match Text.splitBefore (fun c => !isHexDigit c) cs with
  | (version, '.' :: rest) => !version.isEmpty && !rest.isEmpty
  | _ => false

/-- Whether a text may stand between brackets as a host. The leading letter
tells a literal of a version to come from an address. -/
def isValid (cs : List Char) : Bool :=
  match cs with
  | 'v' :: rest => isFuture rest
  | _ => isZoned cs

end HostLiteral

end JsonSelection
