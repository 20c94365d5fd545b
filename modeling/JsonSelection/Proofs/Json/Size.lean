import JsonSelection.Json.Printer
import JsonSelection.Proofs.Entries
import Mathlib.Algebra.GroupWithZero.Nat

/-!
# Lengths of JSON texts

The length of a text without blanks, in characters, is made up of the lengths of
its parts and of the marks between them.

## What this module delivers

- `Json.size_arr`, `Json.size_obj`: the length of the text of an array and of an
  object.
- `Json.size_take_le`: a shorter prefix of an array has no longer text.
- `Json.size_obj_cons`: the text of an object is that of one of its entries
  together with that of all the others and what joins them (`Json.seam`).
- `Json.size_pos`: no value has an empty text.

Lengths do not depend on the order of the entries (`Json.size_obj_perm`), so any
entry may be taken for the first one.
-/

set_option autoImplicit false

namespace JsonSelection

namespace Json

/-- The number of characters of a value's text without blanks. It is told from
the parts of the value, without the text being formed. -/
def size (value : Json) : Nat :=
  value.compact.length

/-- The number of characters of an entry: a key in quotes, a colon and a value. -/
def entrySize (entry : String × Json) : Nat :=
  (quoted entry.1).length + 1 + entry.2.size

/-- The number of characters of some parts with commas between them. Without
parts there is no comma. -/
def joinedSize (sizes : List Nat) : Nat :=
  sizes.sum + (sizes.length - 1)

theorem joinedSize_cons (first : Nat) (rest : List Nat) :
    joinedSize (first :: rest) = first + (rest.sum + rest.length) := by
  simp only [joinedSize, List.sum_cons, List.length_cons]
  omega

/-! ### Arrays and objects -/

theorem length_compactItems (isFirst : Bool) (items : List Json) :
    (compactItems isFirst items).length =
      if isFirst then joinedSize (items.map size) else (items.map size).sum + items.length := by
  induction items generalizing isFirst with
  | nil => cases isFirst <;> rfl
  | cons item rest ih =>
      have hcomma : ",".length = 1 := rfl
      -- the elements after the first are all written after a comma
      have hrest := ih false
      rw [if_neg Bool.false_ne_true] at hrest
      rw [compactItems, String.length_append, String.length_append, hrest, ← size]
      cases isFirst with
      | true =>
          simp only [if_true, List.map_cons, joinedSize_cons, List.length_map, String.length_empty]
          omega
      | false =>
          simp only [Bool.false_eq_true, if_false, hcomma, List.map_cons, List.sum_cons,
            List.length_cons]
          omega

theorem length_compactEntries (isFirst : Bool) (entries : List (String × Json)) :
    (compactEntries isFirst entries).length =
      if isFirst then joinedSize (entries.map entrySize)
      else (entries.map entrySize).sum + entries.length := by
  induction entries generalizing isFirst with
  | nil => cases isFirst <;> rfl
  | cons entry rest ih =>
      obtain ⟨key, value⟩ := entry
      have hcomma : ",".length = 1 := rfl
      have hcolon : ":".length = 1 := rfl
      have hrest := ih false
      rw [if_neg Bool.false_ne_true] at hrest
      have hentry : entrySize (key, value) = (quoted key).length + 1 + value.compact.length := rfl
      simp only [compactEntries, String.length_append, hrest, hcolon]
      cases isFirst with
      | true =>
          simp only [if_true, List.map_cons, joinedSize_cons, List.length_map, String.length_empty,
            hentry]
          omega
      | false =>
          simp only [Bool.false_eq_true, if_false, hcomma, List.map_cons, List.sum_cons,
            List.length_cons, hentry]
          omega

theorem size_arr (items : List Json) : size (.arr items) = joinedSize (items.map size) + 2 := by
  have hopen : "[".length = 1 := rfl
  have hclose : "]".length = 1 := rfl
  rw [size, compact, String.length_append, String.length_append, length_compactItems, if_pos rfl,
    hopen, hclose]
  omega

theorem size_obj (entries : List (String × Json)) :
    size (.obj entries) = joinedSize (entries.map entrySize) + 2 := by
  have hopen : "\x7b".length = 1 := rfl
  have hclose : "\x7d".length = 1 := rfl
  rw [size, compact, String.length_append, String.length_append, length_compactEntries, if_pos rfl,
    hopen, hclose]
  omega

/-- A prefix of an array has no longer text than a longer prefix. -/
theorem size_take_le (items : List Json) {m n : Nat} (h : m ≤ n) :
    size (.arr (items.take m)) ≤ size (.arr (items.take n)) := by
  rw [size_arr, size_arr]
  have hprefix : (items.take m).map size <+: (items.take n).map size :=
    (List.take_prefix_take_left h).map size
  obtain ⟨others, hothers⟩ := hprefix
  rw [← hothers, joinedSize, joinedSize, List.sum_append, List.length_append]
  omega

/-! ### Entries of an object -/

/-- The length of an object's text does not depend on the order of its entries. -/
theorem size_obj_perm {entries entries' : List (String × Json)} (h : entries.Perm entries') :
    size (.obj entries) = size (.obj entries') := by
  have hsizes := h.map entrySize
  rw [size_obj, size_obj, joinedSize, joinedSize, hsizes.sum_nat, hsizes.length_eq]

/-- The characters that an entry adds to the text of an object apart from those
of its value: the key, the colon, and a comma unless it is the only entry. -/
def seam (key : String) (others : List (String × Json)) : Nat :=
  (quoted key).length + 1 + if others.isEmpty then 0 else 1

/-- The text of an object is made up of the text of its other entries, the text
of a value and what joins them. -/
theorem size_obj_cons (key : String) (value : Json) (others : List (String × Json)) :
    size (.obj ((key, value) :: others)) = size (.obj others) + size value + seam key others := by
  rw [size_obj, size_obj, List.map_cons, joinedSize_cons, joinedSize, List.length_map,
    entrySize, seam]
  cases others with
  | nil =>
      simp
      omega
  | cons entry rest =>
      simp only [List.length_cons, List.isEmpty_cons, Bool.false_eq_true, if_false]
      omega

end Json

/-! ### Numbers

That a number has a text at all is the one thing that sizes need of the notation
of numbers. -/

namespace NumberLayout

/-- A positive decimal is written with a point or with an exponent mark. -/
theorem length_decimal_pos (layout : NumberLayout) (d : Decimal) :
    1 ≤ (layout.decimal d).length := by
  have hpoint : ".".length = 1 := rfl
  have hzero : "0.".length = 2 := rfl
  have hmark : "e".length = 1 := rfl
  simp only [decimal]
  split
  · simp only [pointed]
    split
    · rw [String.length_append, hzero]
      omega
    · simp only [String.length_append, hpoint]
      omega
  · simp only [scientific, String.length_append, hmark]
    omega

theorem length_float_pos (x : Float) : 1 ≤ (json.float x).length := by
  have hinfinity : "Infinity".length = 8 := rfl
  have hzero : "0.0".length = 3 := rfl
  rw [float]
  cases Binary64.ofFloat x with
  | nan => decide
  | infinite negative =>
      simp only [binary64, json, String.length_append, hinfinity]
      omega
  | finite negative significand exponent =>
      rw [binary64, String.length_append]
      -- zero has a text of its own, as it has no digits
      by_cases hsignificand : significand = 0
      · rw [if_pos hsignificand, hzero]
        omega
      · have hdecimal := length_decimal_pos json (Shortest.digits significand exponent)
        rw [if_neg hsignificand]
        omega

end NumberLayout

namespace Json

/-- No value has an empty text. -/
theorem size_pos (value : Json) : 1 ≤ value.size := by
  cases value with
  | null => decide
  | bool value => cases value <;> decide
  | int n =>
      cases n with
      | ofNat n => exact Nat.length_repr_pos
      | negSucc n =>
          -- the sign is a character already
          show 1 ≤ ("-" ++ (n + 1).repr).length
          have hdigits := Nat.length_repr_pos (n := n + 1)
          rw [String.length_append]
          omega
  | float x => exact NumberLayout.length_float_pos x
  | str text =>
      show 1 ≤ (quoted text).length
      rw [quoted, String.length_ofList, List.length_append, List.length_cons]
      omega
  | arr items =>
      rw [size_arr]
      omega
  | obj entries =>
      rw [size_obj]
      omega

/-- Two elements make an array of five characters at least. -/
theorem five_le_size {items : List Json} (h : 2 ≤ items.length) : 5 ≤ size (.arr items) := by
  obtain ⟨first, second, rest, rfl⟩ : ∃ first second rest,
      items = first :: second :: rest := by
    match items, h with
    | first :: second :: rest, _ => exact ⟨first, second, rest, rfl⟩
  have hfirst := size_pos first
  have hsecond := size_pos second
  rw [size_arr, List.map_cons, List.map_cons, joinedSize_cons, List.sum_cons, List.length_cons]
  omega

end Json

end JsonSelection
