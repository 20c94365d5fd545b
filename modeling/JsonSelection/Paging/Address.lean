import JsonSelection.Entries
import JsonSelection.Paging.HostLiteral
import JsonSelection.Text.Utf8

/-!
# Parameters of an address

The query parameters of a web address: what stands between the question mark and
the fragment, split at ampersands and equal signs and percent-decoded. An address
whose authority (the part with the host) cannot be taken as one has no parameters
at all.

## What this module delivers

- `Address.query?`: the text of the query, from the address without its scheme,
  its authority, its path and its fragment.
- `Address.decode`: plain text from a percent-encoded one.
- `Address.parameters`: the parameters by name; of those with one name the last
  one counts.

Releases of the library that splits addresses differ in how much of an authority
with brackets they check, so the check is an argument (`Address.HostCheck`). The
default is the strictest check.
-/

set_option autoImplicit false

namespace JsonSelection

namespace Address

/-- Whether a character may stand in a scheme. -/
def isSchemeChar (c : Char) : Bool :=
  c.isAlphanum || c == '+' || c == '-' || c == '.'

/-- The address without its scheme: what stands before the first colon is one if
it starts with a letter and has no character that a scheme cannot have. -/
def afterScheme (cs : List Char) : List Char :=
  let (scheme, rest) := Text.splitBefore (· == ':') cs
  match scheme, rest with
  | first :: _, _ :: after => if first.isAlpha && scheme.all isSchemeChar then after else cs
  | _, _ => cs

/-- Characters beyond ASCII whose compatibility form holds one of the marks that
divide an address. -/
def hidesMark (c : Char) : Bool :=
  [0x2047, 0x2048, 0x2049, 0x2100, 0x2101, 0x2105, 0x2106, 0x2A74, 0xFE13, 0xFE16, 0xFE55, 0xFE56,
    0xFE5F, 0xFE6B, 0xFF03, 0xFF0F, 0xFF1A, 0xFF1F, 0xFF20].contains c.toNat

/-- The part of an authority from the host on. What stands before the last at
sign is a user, with a password perhaps. -/
def withoutUser (authority : List Char) : List Char :=
  (authority.reverse.takeWhile fun c => c != '@').reverse

/-- How the host of an authority with brackets is checked. -/
inductive HostCheck where
  /-- The text between the brackets is a literal, whatever stands around them. -/
  | enclosed
  /-- Moreover nothing stands between the user and the bracket, and nothing but
  a port behind the other one. -/
  | alone
deriving DecidableEq, Repr

/-- The text behind the first opening bracket, up to a closing one. -/
def enclosedHost (authority : List Char) : List Char :=
  let (_, opened) := Text.splitBefore (· == '[') authority
  (Text.splitBefore (· == ']') (opened.drop 1)).1

/-- Whether the host behind the user is a literal. With brackets around it,
nothing may stand before them, and what stands after them starts with a
colon. -/
def hasLoneHost (authority : List Char) : Bool :=
  let place := withoutUser authority
  match Text.splitBefore (· == '[') place with
  | (_, []) => HostLiteral.isValid (Text.splitBefore (· == ':') place).1
  | (before, _ :: opened) =>
      let (host, closed) := Text.splitBefore (· == ']') opened
      let after := closed.drop 1
      before.isEmpty && HostLiteral.isValid host && (after.isEmpty || after.head? == some ':')

/-- Whether the host of an authority in which brackets stand passes a check. -/
def hasLiteralHost (check : HostCheck) (authority : List Char) : Bool :=
  match check with
  | .enclosed => HostLiteral.isValid (enclosedHost authority)
  | .alone => hasLoneHost authority

/-- Whether the brackets in an authority come in both kinds and belong to a
literal host, or are not there at all. -/
def hasSoundBrackets (check : HostCheck) (authority : List Char) : Bool :=
  if authority.contains '[' || authority.contains ']' then
    authority.contains '[' && authority.contains ']' && hasLiteralHost check authority
  else true

/-- Whether an authority can be taken as one: its brackets are sound, and no
character hides a dividing mark. -/
def isSoundAuthority (check : HostCheck) (authority : List Char) : Bool :=
  hasSoundBrackets check authority && !authority.any hidesMark

/-- The authority of an address without its scheme, and what follows it. It
stands behind two slashes, up to the next mark of a path, a query or a fragment;
without the slashes there is none. -/
def splitAuthority (cs : List Char) : List Char × List Char :=
  match cs with
  | '/' :: '/' :: rest => Text.splitBefore (fun c => c == '/' || c == '?' || c == '#') rest
  | _ => ([], cs)

/-- An address without the control characters and blanks at its start, and
without tabs and line ends anywhere. -/
def cleaned (address : List Char) : List Char :=
  (address.dropWhile fun c => c.toNat ≤ 0x20).filter fun c =>
    !(c == '\t' || c == '\r' || c == '\n')

/-- The text between the question mark and the fragment; an address with an
unsound authority has none to give. -/
def query? (check : HostCheck) (address : List Char) : Option (List Char) :=
  let (authority, rest) := splitAuthority (afterScheme (cleaned address))
  if isSoundAuthority check authority then
    let (beforeFragment, _) := Text.splitBefore (· == '#') rest
    let (_, marked) := Text.splitBefore (· == '?') beforeFragment
    some (marked.drop 1)
  else none

/-- The bytes of an ASCII text in which a percent sign and two hexadecimal
digits stand for a byte. -/
def percentBytes : List Char → List Nat
  | '%' :: a :: b :: rest =>
      match Text.hexValue? a, Text.hexValue? b with
      | some high, some low => (16 * high + low) :: percentBytes rest
      | _, _ => '%'.toNat :: percentBytes (a :: b :: rest)
  | c :: rest => c.toNat :: percentBytes rest
  | [] => []

/-- Decodes each run of ASCII characters on its own; other characters stay as
they are. `run` holds the run that is being read. -/
def decodeRuns (run : List Char) : List Char → List Char
  | [] => Text.decodeUtf8 (percentBytes run)
  | c :: rest =>
      if c.toNat < 0x80 then decodeRuns (run ++ [c]) rest
      else Text.decodeUtf8 (percentBytes run) ++ c :: decodeRuns [] rest

/-- A name or a value of a parameter in plain text: a plus sign stands for a
blank, and percent-encoded bytes for the characters that they encode. -/
def decode (cs : List Char) : String :=
  String.ofList (decodeRuns [] (cs.map fun c => if c = '+' then ' ' else c))

/-- The name and the value of a parameter; without an equal sign the value is
empty. -/
def parameter (piece : List Char) : String × String :=
  let (name, rest) := Text.splitBefore (· == '=') piece
  (decode name, decode (rest.drop 1))

/-- The query parameters of an address. Pieces between ampersands that are empty
are no parameters, and of those with one name the last one counts. -/
def parameters (address : String) (check : HostCheck := .alone) : Entries String :=
  match query? check address.toList with
  | none => []
  | some query =>
      Entries.ofList (((Text.pieces '&' query).filter fun piece => !piece.isEmpty).map parameter)

end Address

end JsonSelection
