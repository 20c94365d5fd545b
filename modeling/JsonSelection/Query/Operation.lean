import JsonSelection.Json.Basic

/-!
# Operations

What a query text stands for: a kind, a name that has no further meaning, and a
tree of selections. Arguments are literals, so an operation is closed: it has no
variables, and nothing outside of it says what it means.

The texts that stand for an operation are the subject of `Query/Parser`.
-/

set_option autoImplicit false

namespace JsonSelection

/-- A selected field. Without braces of its own it has no children; braces are
never empty. -/
structure Selection where
  name : String
  aliasName : Option String
  arguments : List (String × Json)
  children : List Selection

namespace Selection

/-- The key under which the result holds the field. -/
def responseKey (selection : Selection) : String :=
  selection.aliasName.getD selection.name

end Selection

/-- The kinds of operations. -/
inductive OperationKind where
  | query
  | mutation
deriving DecidableEq, Repr

namespace OperationKind

/-- The keyword of a kind. -/
def keyword : OperationKind → String
  | query => "query"
  | mutation => "mutation"

end OperationKind

/-- An operation. -/
structure Operation where
  kind : OperationKind
  name : Option String
  selections : List Selection

end JsonSelection
