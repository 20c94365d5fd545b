import JsonSelection.Entries

/-!
# JSON values

The value type that the whole library works on, its coarse kinds, and the
predicate that no object in a value holds a key twice.

Numbers come in two forms: a literal without fraction and exponent is an exact
integer, every other one is a binary64 number. The forms are one kind
(`Kind`), which is what sampling counts, but they are different values. An
object keeps its entries in the order in which they were read, and that order
shows in types, results and texts.

`Json.WellFormed` is not part of the type: literals of queries and results under
way are values as well. What is read from a text is well formed, because a later
entry of a key replaces the earlier one.
-/

set_option autoImplicit false

namespace JsonSelection

/-- A JSON value. An object keeps its entries in the order in which they were
read, and integers are kept apart from binary64 numbers, as their texts are. -/
inductive Json where
  | null
  | bool (value : Bool)
  | int (value : Int)
  | float (value : Float)
  | str (value : String)
  | arr (items : List Json)
  | obj (entries : List (String × Json))
deriving Inhabited

/-! ## Kinds -/

/-- The coarse kind of a value. Integers and binary64 numbers are one kind, and
`null` is a kind of its own. -/
inductive Kind where
  | null
  | boolean
  | number
  | string
  | array
  | object
deriving DecidableEq, Repr

namespace Kind

/-- The word for a kind. -/
def name : Kind → String
  | null => "null"
  | boolean => "boolean"
  | number => "number"
  | string => "string"
  | array => "array"
  | object => "object"

end Kind

namespace Json

/-- The kind of a value. -/
def kind : Json → Kind
  | null => .null
  | bool _ => .boolean
  | int _ => .number
  | float _ => .number
  | str _ => .string
  | arr _ => .array
  | obj _ => .object

/-! ## Parts of a value -/

/-- Whether the value is `null`. -/
def isNull : Json → Bool
  | null => true
  | _ => false

/-- The entries of an object; any other value has none to give. -/
def entries? : Json → Option (Entries Json)
  | obj entries => some entries
  | _ => none

/-- The elements of an array; any other value has none to give. -/
def items? : Json → Option (List Json)
  | arr items => some items
  | _ => none

/-- The text of a string value. -/
def text? : Json → Option String
  | str text => some text
  | _ => none

/-- The value that an object holds under a key. Neither a missing key nor a
value that is no object gives one. -/
def member? (value : Json) (key : String) : Option Json :=
  value.entries?.bind (Entries.find? · key)

/-- An array of texts. -/
def texts (items : List String) : Json :=
  arr (items.map str)

mutual

/-- No object in the value, at any depth, holds a key twice. Every value that is
read from a text is of this form. -/
def WellFormed : Json → Prop
  | arr items => ListWellFormed items
  | obj entries => Entries.Distinct entries ∧ EntriesWellFormed entries
  | _ => True

/-- Every element of a list is well formed. -/
def ListWellFormed : List Json → Prop
  | [] => True
  | item :: rest => item.WellFormed ∧ ListWellFormed rest

/-- The value of every entry is well formed. -/
def EntriesWellFormed : List (String × Json) → Prop
  | [] => True
  | (_, value) :: rest => value.WellFormed ∧ EntriesWellFormed rest

end

theorem listWellFormed_iff (items : List Json) :
    ListWellFormed items ↔ ∀ item ∈ items, item.WellFormed := by
  induction items with
  | nil => simp [ListWellFormed]
  | cons item rest ih => simp [ListWellFormed, ih]

theorem entriesWellFormed_iff (entries : List (String × Json)) :
    EntriesWellFormed entries ↔ ∀ entry ∈ entries, entry.2.WellFormed := by
  induction entries with
  | nil => simp [EntriesWellFormed]
  | cons entry rest ih =>
      obtain ⟨key, value⟩ := entry
      simp [EntriesWellFormed, ih]

end Json

end JsonSelection
