import JsonSelection.Text.Quoted

/-!
# Names for fields and types

A field name is made of ASCII letters, digits and underscores, starts with no
digit and not with two underscores.

## What this module delivers

- `FieldName.sanitize`: a field name for any key. Characters that may not stand
  in a name become underscores, a leading digit is guarded by one, reserved
  leading underscores give way to `f_`, and the empty key is `f_empty`.
- `FieldName.fresh`: the name itself or its first numbered variant that is not
  in use, which keeps the names of one type apart.
- `TypeName.derive`: the name of the root type of an operation.

Different keys may have one sanitized name; only `fresh` tells them apart, in
the order in which they come. The variants are numbered from two.
-/

set_option autoImplicit false

namespace JsonSelection

namespace FieldName

/-! ## The name of a key -/

/-- Whether a character may stand in a name: an ASCII letter, an ASCII digit, or
an underscore. -/
def isAllowed (c : Char) : Bool :=
  c.isAlphanum || c == '_'

/-- Puts an underscore before a leading digit. Nothing is to be done for an
empty name, which is replaced later. -/
def guardDigit : List Char → List Char
  | [] => []
  | c :: rest => if c.isDigit then '_' :: c :: rest else c :: rest

/-- Replaces two or more leading underscores, which are reserved, by `f_`. A
single one may lead a name. -/
def unreserve (cs : List Char) : List Char :=
  match cs with
  | '_' :: '_' :: rest => 'f' :: '_' :: rest.dropWhile (· == '_')
  | _ => cs

/-- The characters of the field name for a key. Only the empty key leaves
nothing, since reserved underscores are replaced and not just dropped. -/
def sanitizeChars (cs : List Char) : List Char :=
  match unreserve (guardDigit (cs.map fun c => if isAllowed c then c else '_')) with
  | [] => "f_empty".toList
  | name => name

/-- The field name for a key: characters that may not stand in a name become
underscores. -/
def sanitize (key : String) : String :=
  String.ofList (sanitizeChars key.toList)

/-! ## Names that are not in use -/

/-- The numbered variants of a name, from the second on. The name itself counts
as the first. -/
def variants (name : String) (count : Nat) : List String :=
  (List.range count).map fun k => name ++ "_" ++ toString (k + 2)

/-- The name itself, or its first variant, that is not in use. A name in use has
as many variants as there are names in use, and the name itself is none of them,
so one is free. -/
def fresh (used : List String) (name : String) : String :=
  if used.contains name then
    ((variants name used.length).find? fun candidate => !used.contains candidate).getD name
  else name

/-- The remark that tells which key a renamed field reads. -/
def keyNote (key : String) : String :=
  "Maps to JSON key " ++ Text.quoted key ++ "."

end FieldName

namespace TypeName

/-- The ASCII letters and digits of a text with one underscore wherever anything
else stands between two of them. `started` once a character has been kept, `gap`
when something has been left out since. -/
def joinWords (started gap : Bool) : List Char → List Char
  | [] => []
  | c :: rest =>
      if c.isAlphanum then
        (if started && gap then ['_', c] else [c]) ++ joinWords true false rest
      else joinWords started true rest

/-- The name of an operation's root type, made of its method and its path. An
operation without any letter or digit in it is `Unknown`. -/
def derive (method path : String) : String :=
  match joinWords false false (method ++ "_" ++ path).toList with
  | [] => "Unknown"
  | name => String.ofList (FieldName.guardDigit name)

end TypeName

end JsonSelection
