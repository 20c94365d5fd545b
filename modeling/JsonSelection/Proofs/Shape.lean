import JsonSelection.Proofs.Sample
import JsonSelection.Shape.Fingerprint

/-!
# Shapes of values

The shape of a value keeps the kinds of scalars, the keys of objects and one
shape for the elements of an array. This module says how the shape of a value
comes from the shapes of the values inside it.

## What this module delivers

- `Shape.ofJson_eq_null_iff`: only `null` has the shape `null`.
- `Shape.ofJson_arr`: the shape of an array that is not empty is that of the
  value that stands for its elements.
- `Shape.ofJson_obj`: the shape of an object with distinct keys has one field
  for each of them, in ascending order.
- `Shape.representative_wellFormed`: what stands for the elements of an array is
  well formed if they are.
-/

set_option autoImplicit false

namespace JsonSelection

namespace Shape

variable {limits : Limits} {levels : Nat}

/-! ### Null -/

theorem ofJson_eq_null_iff (value : Json) : ofJson limits levels value = null ↔
    value = .null := by
  constructor
  -- floats and arrays look at what is in them before a shape is chosen
  · intro h
    cases value with
    | null => rfl
    | float x =>
        cases levels with
        | zero => cases h
        | succ levels =>
            rw [ofJson] at h
            split at h <;> cases h
    | arr items =>
        cases levels with
        | zero => cases h
        | succ levels =>
            cases items with
            | nil => cases h
            | cons item rest =>
                simp only [ofJson] at h
                split at h <;> cases h
    | _ => cases levels <;> cases h
  · rintro rfl
    cases levels <;> rfl

/-- Values of one shape are `null` together. -/
theorem isNull_eq {value other : Json}
    (h : ofJson limits levels value = ofJson limits levels other) :
    value.isNull = other.isNull := by
  have hnull : ∀ value : Json, value.isNull = true ↔ ofJson limits levels value = null := by
    intro value
    rw [ofJson_eq_null_iff]
    cases value <;> simp [Json.isNull]
  rw [Bool.eq_iff_iff, hnull, hnull, h]

/-! ### Arrays -/

theorem ofJson_arr {items : List Json} (h : items ≠ []) : ofJson limits (levels + 1)
    (.arr items) =
    if Sample.isMixed limits items then list opaqueJson
    else list (ofJson limits levels (representative limits levels items)) := by
  cases items with
  | nil => exact absurd rfl h
  | cons item rest => rfl

/-! ### The value that stands for a list -/

theorem isNull_representative_nil (limits : Limits) (levels : Nat) :
    (representative limits levels []).isNull = true := by
  simp [representative, Sample.mergeItems, Sample.ofItems, Slice.before, Json.isNull]

/-- The value whose shape stands for a list is well formed when the list is. -/
theorem representative_wellFormed (limits : Limits) (levels : Nat) {items : List Json}
    (h : (Json.arr items).WellFormed) : (representative limits levels items).WellFormed := by
  have hitems := (Json.listWellFormed_iff items).mp h
  rw [representative]
  split
  · next merged hmerged => exact Sample.mergeItems_wellFormed limits levels hitems hmerged
  · exact Sample.headD_wellFormed hitems

/-! ### Sorted keys

Keys are compared as texts, so a list of keys is sorted to one list in whatever
order it is given. -/

theorem keys_sortedEntries (entries : Entries Json) :
    (Entries.keys entries).mergeSort (fun key other => decide (key ≤ other)) =
      Entries.keys (sortedEntries entries) := by
  rw [sortedEntries, Entries.keys, Entries.keys, List.map_mergeSort]
  exact fun _ _ _ _ => rfl

theorem pairwise_sortedKeys (keys : List String) :
    (keys.mergeSort fun key other => decide (key ≤ other)).Pairwise (· ≤ ·) := by
  have hsorted : (keys.mergeSort fun key other => decide (key ≤ other)).Pairwise
      fun key other => decide (key ≤ other) = true := by
    apply List.pairwise_mergeSort
    · intro a b c hab hbc
      simp only [decide_eq_true_eq] at hab hbc ⊢
      exact String.le_trans hab hbc
    · intro a b
      simpa using String.le_total a b
  exact hsorted.imp of_decide_eq_true

/-- Keys are sorted to one list in whatever order they come. -/
theorem sortedKeys_perm {keys keys' : List String} (h : keys.Perm keys') :
    (keys.mergeSort fun key other => decide (key ≤ other)) =
      keys'.mergeSort fun key other => decide (key ≤ other) := by
  apply List.Perm.eq_of_pairwise _ (pairwise_sortedKeys keys) (pairwise_sortedKeys keys')
  · exact (List.mergeSort_perm keys _).trans (h.trans (List.mergeSort_perm keys' _).symm)
  · intro key other _ _ hle hge
    exact String.le_antisymm hle hge

/-! ### Objects

An object is sorted by its keys first, and then the shape of each value is
taken. With distinct keys the value can be looked up under its key instead. -/

/-- The shape of an object of which the values are given key by key. -/
theorem ofJson_object (keys : List String) (value : String → Json) :
    ofJson limits (levels + 1) (.obj (keys.map fun key => (key, value key))) =
      object ((keys.mergeSort fun key key' => decide (key ≤ key')).map
        fun key => (key, ofJson limits levels (value key))) := by
  have hsorted : sortedEntries (keys.map fun key => (key, value key)) =
      (keys.mergeSort fun key key' => decide (key ≤ key')).map fun key => (key, value key) := by
    rw [sortedEntries, List.map_mergeSort]
    intro key _ key' _
    rfl
  rw [ofJson, hsorted, List.map_map]
  rfl

/-- The shape of an object, key by key. -/
theorem ofJson_obj {entries : Entries Json} (hdistinct : Entries.Distinct entries) :
    ofJson limits (levels + 1) (.obj entries) =
      object (((Entries.keys entries).mergeSort fun key other => decide (key ≤ other)).map
        fun key => (key, ofJson limits levels ((entries.find? key).getD .null))) := by
  conv => lhs; rw [← Entries.map_keys_eq hdistinct .null]
  exact ofJson_object _ _

end Shape

end JsonSelection
