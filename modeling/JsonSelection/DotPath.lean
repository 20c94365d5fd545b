import JsonSelection.Json.Basic

/-!
# Dot paths

A dot path names values inside a JSON value: keys are separated by points, and
an empty pair of brackets stands for every element of an array.

## What this module delivers

- `DotPath.parse`: the steps of a path text. Every text has some; a bracket that
  is not part of an empty pair belongs to a key, and an empty key is no step.
- `DotPath.render`: the text of some steps.
- `DotPath.select` and `DotPath.filter`: what a path leads to.

A step that does not fit its value leads to `null` and not to an error. There is
no way to write a key that holds a point or an empty pair of brackets;
`Proofs/DotPath` says for which steps and for which texts reading and writing
are inverse to each other.
-/

set_option autoImplicit false

namespace JsonSelection

namespace DotPath

/-- One step of a path: into every element of an array, or to one key of an
object. The empty key can be stepped to, although no path text does so. -/
inductive Segment where
  | each
  | key (name : String)
deriving DecidableEq, Repr

namespace Segment

/-- The text of a step on its own. -/
def text : Segment → String
  | each => "[]"
  | key name => name

end Segment

/-- The step to the key collected so far, unless nothing has been collected.
Points and brackets next to each other therefore make no step between them. -/
def flush (current : List Char) : List Segment :=
  if current.isEmpty then [] else [.key (String.ofList current)]

/-- Reads steps; `current` holds the characters of the key that is being read. A
bracket that is not part of an empty pair belongs to a key. -/
def parseFrom (current : List Char) : List Char → List Segment
  | [] => flush current
  | '[' :: ']' :: rest => flush current ++ .each :: parseFrom [] rest
  | '.' :: rest => flush current ++ parseFrom [] rest
  | c :: rest => parseFrom (current ++ [c]) rest

/-- The steps of a path text. -/
def parse (text : String) : List Segment :=
  parseFrom [] text.toList

/-- The text of the steps that follow another one. -/
def renderRest : List Segment → List Char
  | [] => []
  | .each :: rest => '[' :: ']' :: renderRest rest
  | .key name :: rest => '.' :: name.toList ++ renderRest rest

/-- The text of a path: points before all keys but a leading one, brackets
directly after what precedes them. -/
def render : List Segment → String
  | [] => ""
  | first :: rest => String.ofList (first.text.toList ++ renderRest rest)

/-- What a path leads to. A step that does not fit its value gives `null`; a
step into every element gives the array of what the rest of the path leads to in
each. -/
def select : List Segment → Json → Json
  | [], value => value
  | .each :: rest, .arr items => .arr (items.map (select rest))
  | .each :: _, _ => .null
  | .key name :: rest, value =>
      match value.member? name with
      | some child => select rest child
      | none => .null

/-- The values that a path text leads to. The empty text has no steps and leads
to the value itself. -/
def filter (path : String) (value : Json) : Json :=
  select (parse path) value

end DotPath

end JsonSelection
