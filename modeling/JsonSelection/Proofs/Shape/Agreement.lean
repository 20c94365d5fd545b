import JsonSelection.Proofs.Shape
import JsonSelection.Schema.Inference

/-!
# Values of one shape

What two values of one shape have in common: both are arrays, both are objects
with the same keys, whose values are of one shape in turn, or both have one
scalar type.

## What this module delivers

- `Shape.items_of_shape`, `Shape.entries_of_shape`: whatever has the shape of an
  array or of an object is one, too.
- `Shape.isMixed_of_shape`: the shape of an array tells whether it is mixed.
- `Shape.value_of_shape`: values under one key of objects of one shape.
- `Inference.ofJson_representative`: the element that stands for the shape of a list
  has the shape of the one that stands for its types, unless it is `null`.

The last point is needed because shapes and types take different elements of a
list of scalars. A shape takes the first one, a type the first that is not
`null`.
-/

set_option autoImplicit false

namespace JsonSelection

namespace Inference

/-- The value that stands for the elements of a list is well formed when they are. -/
theorem representative_wellFormed (limits : Limits) (levels : Nat) {items : List Json}
    (h : (Json.arr items).WellFormed) : (representative limits levels items).1.WellFormed := by
  have hitems := (Json.listWellFormed_iff items).mp h
  rw [representative]
  split
  · next merged hmerged => exact Sample.mergeItems_wellFormed limits levels hitems hmerged
  · exact Sample.headD_wellFormed fun value hvalue =>
      hitems value ((Sample.mem_present_iff items value).mp hvalue).1

end Inference

namespace Shape

/-- The scalar type that a shape stands for, if it is that of a scalar. -/
def scalar? : Shape → Option Scalar
  | null => some .string
  | string => some .string
  | boolean => some .boolean
  | integer => some .int
  | float => some .float
  | _ => none

variable {limits : Limits} {levels : Nat}

theorem scalar?_ofJson (value : Json) : (ofJson limits (levels + 1) value).scalar? =
    match value with
    | .arr _ => none
    | .obj _ => none
    | value => some (Inference.scalarType value) := by
  cases value with
  | float x =>
      simp only [ofJson, Inference.scalarType]
      split <;> rfl
  | arr items =>
      cases items with
      | nil => rfl
      | cons item rest =>
          simp only [ofJson]
          split <;> rfl
  | _ => rfl

/-- Whatever has the shape of an array is an array, and both are empty or
neither is. -/
theorem items_of_shape {items : List Json} {other : Json}
    (h : ofJson limits (levels + 1) (.arr items) = ofJson limits (levels + 1) other) :
    ∃ items', other = .arr items' ∧ (items = [] ↔ items' = []) := by
  have hscalar := (scalar?_ofJson other).symm.trans
    ((congrArg scalar? h).symm.trans (scalar?_ofJson _))
  -- a scalar is told by its shape; an object is told apart by its form
  cases other with
  | arr items' =>
      refine ⟨items', rfl, ?_⟩
      cases items with
      | nil =>
          cases items' with
          | nil => exact Iff.rfl
          | cons item' rest' =>
              simp only [ofJson] at h
              split at h <;> cases h
      | cons item rest =>
          cases items' with
          | nil =>
              simp only [ofJson] at h
              split at h <;> cases h
          | cons item' rest' => simp
  | obj entries =>
      cases items with
      | nil => cases h
      | cons item rest =>
          simp only [ofJson] at h
          split at h <;> cases h
  | _ => cases hscalar

theorem ofJson_ne_opaqueJson (value : Json) : ofJson limits (levels + 1) value ≠ opaqueJson := by
  intro h
  have hscalar := (scalar?_ofJson value).symm.trans (congrArg scalar? h)
  cases value with
  | obj entries => cases h
  | arr items =>
      cases items with
      | nil => cases h
      | cons item rest =>
          simp only [ofJson] at h
          split at h <;> cases h
  | _ => cases hscalar

/-- Before the last level the shape of an array tells whether it is mixed. -/
theorem isMixed_of_shape {items items' : List Json}
    (h : ofJson limits (levels + 2) (.arr items) = ofJson limits (levels + 2) (.arr items')) :
    Sample.isMixed limits items = Sample.isMixed limits items' := by
  obtain ⟨_, heq, hempty⟩ := items_of_shape h
  obtain rfl := Json.arr.inj heq
  cases items with
  | nil => rw [hempty.mp rfl]
  | cons item rest =>
      cases items' with
      | nil => exact absurd (hempty.mpr rfl) (List.cons_ne_nil item rest)
      | cons item' rest' =>
          -- a mixed array is opaque inside, which no element is at this level
          cases hmixed : Sample.isMixed limits (item :: rest) <;>
            cases hmixed' : Sample.isMixed limits (item' :: rest') <;>
            simp only [ofJson, hmixed, hmixed', Bool.false_eq_true, if_false, if_true] at h
          · rfl
          · exact absurd (Shape.list.inj h) (ofJson_ne_opaqueJson _)
          · exact absurd (Shape.list.inj h).symm (ofJson_ne_opaqueJson _)
          · rfl

/-- In arrays of one shape that are not mixed the representatives are of one shape. -/
theorem representative_of_shape {items items' : List Json}
    (h : ofJson limits (levels + 1) (.arr items) = ofJson limits (levels + 1) (.arr items'))
    (hmixed : Sample.isMixed limits items = false)
    (hmixed' : Sample.isMixed limits items' = false) :
    ofJson limits levels (representative limits levels items) =
      ofJson limits levels (representative limits levels items') := by
  cases items with
  | nil =>
      obtain ⟨_, heq, hempty⟩ := items_of_shape h
      obtain rfl := Json.arr.inj heq
      rw [hempty.mp rfl]
  | cons item rest =>
      cases items' with
      | nil =>
          obtain ⟨_, heq, hempty⟩ := items_of_shape h
          obtain rfl := Json.arr.inj heq
          exact absurd (hempty.mpr rfl) (List.cons_ne_nil item rest)
      | cons item' rest' =>
          simp only [ofJson, hmixed, hmixed', Bool.false_eq_true, if_false] at h
          exact Shape.list.inj h

/-- Whatever has the shape of an object is an object, which has the same keys
with values of the same shapes. -/
theorem entries_of_shape {entries : Entries Json} {other : Json}
    (h : ofJson limits (levels + 1) (.obj entries) = ofJson limits (levels + 1) other) :
    ∃ entries' : Entries Json, other = .obj entries' ∧
      ∀ key value, (key, value) ∈ entries →
        ∃ value', (key, value') ∈ entries' ∧ ofJson limits levels value = ofJson limits
          levels value' := by
  have hscalar := (scalar?_ofJson other).symm.trans
    ((congrArg scalar? h).symm.trans (scalar?_ofJson _))
  cases other with
  | obj entries' =>
      refine ⟨entries', rfl, ?_⟩
      intro key value hmem
      rw [ofJson, ofJson] at h
      -- an entry is found among the sorted ones, which are the same on both sides
      have hsorted : (key, ofJson limits levels value) ∈ (sortedEntries entries).map
          fun entry => (entry.1, ofJson limits levels entry.2) :=
        List.mem_map_of_mem (List.mem_mergeSort.mpr hmem)
      rw [Shape.object.inj h] at hsorted
      obtain ⟨⟨key', value'⟩, hmem', heq⟩ := List.mem_map.mp hsorted
      obtain ⟨rfl, hshape⟩ := Prod.mk.inj heq
      exact ⟨value', List.mem_mergeSort.mp hmem', hshape.symm⟩
  | arr items =>
      cases items with
      | nil => cases h
      | cons item rest =>
          simp only [ofJson] at h
          split at h <;> cases h
  | _ => cases hscalar

/-- In an object with distinct keys the value of one shape under a key is the
value under that key. -/
theorem value_of_shape {entries entries' : Entries Json} (hdistinct : Entries.Distinct entries')
    (h : ∀ key value, (key, value) ∈ entries →
      ∃ value', (key, value') ∈ entries' ∧ ofJson limits levels value = ofJson limits
        levels value')
    {key : String} {value value' : Json} (hmem : (key, value) ∈ entries)
    (hmem' : (key, value') ∈ entries') :
      ofJson limits levels value = ofJson limits levels value' := by
  obtain ⟨found, hfound, hshape⟩ := h key value hmem
  have hfind : Entries.find? entries' key = some found := Entries.find?_of_mem hdistinct hfound
  have hfind' : Entries.find? entries' key = some value' := Entries.find?_of_mem hdistinct hmem'
  rw [hfind] at hfind'
  rw [hshape, Option.some.inj hfind']

/-! ### Merging with more levels

A type may be inferred with one level more than the shape that it is kept under,
and then the samples in it are merged with one level more. This does not show in
the shape. -/

/-- What stands for the values of a key has the same shape for two ways to merge
objects if merged objects have. -/
theorem ofJson_represent {threshold : Rat} {merge merge' : List (Entries Json) → Sample.Merged}
    (hmerge : ∀ objects, ofJson limits levels (.obj (merge objects).representative) =
      ofJson limits levels (.obj (merge' objects).representative)) (key : String)
        (values : List Json) :
    ofJson limits levels (Sample.represent threshold merge key values).1 =
      ofJson limits levels (Sample.represent threshold merge' key values).1 := by
  simp only [Sample.represent]
  split
  · rfl
  · rfl
  · split
    · rfl
    · rfl
    · exact hmerge _
  · rfl
  · rfl

/-- A shape ends where merging with as many levels ends, so more levels do not
show. -/
theorem ofJson_merge (threshold : Rat) (extra : Nat) (objects : List (Entries Json)) :
    ofJson limits levels (.obj (Sample.merge threshold (extra + levels) objects).representative) =
      ofJson limits levels (.obj (Sample.merge threshold levels objects).representative) := by
  induction levels generalizing objects with
  | zero => rfl
  | succ levels ih =>
      rw [← Nat.add_assoc, Sample.representative_succ, Sample.representative_succ, ofJson_object,
        ofJson_object]
      congr 2
      funext key
      rw [ofJson_represent ih]

end Shape

namespace Inference

/-- Unless it is `null`, the element that stands for the shape of a list has the
shape of the one that stands for its types. -/
theorem ofJson_representative {limits : Limits} {levels : Nat} {items : List Json}
    (h : (Shape.representative limits levels items).isNull = false) (extra : Nat) :
    Shape.ofJson limits levels (representative limits (extra + levels) items).1 =
      Shape.ofJson limits levels (Shape.representative limits levels items) := by
  cases hobjects : (Sample.ofItems limits items).filterMap Json.entries? with
  | nil =>
      have hnone : ∀ count, Sample.mergeItems limits count items = none := by
        intro count
        rw [Sample.mergeItems, hobjects]
      rw [Shape.representative, hnone] at h ⊢
      rw [representative, hnone]
      cases items with
      | nil => rfl
      | cons item rest =>
          -- the first element is not `null`, so it is the first one that is not
          have hpresent : Sample.present (item :: rest) = item :: Sample.present rest := by
            rw [Sample.present, List.filter_cons_of_pos (by simpa using h)]
            rfl
          rw [hpresent]
          rfl
  | cons first rest =>
      have hsome : ∀ count, Sample.mergeItems limits count items =
          some (Sample.merge limits.majorityThreshold count (first :: rest)) := by
        intro count
        rw [Sample.mergeItems, hobjects]
      rw [representative, Shape.representative, hsome, hsome]
      exact Shape.ofJson_merge limits.majorityThreshold extra (first :: rest)

/-- In arrays of one shape that are not mixed and do not begin with `null`, the
elements that stand for the types are of one shape. -/
theorem representative_of_shape {limits : Limits} {levels : Nat} {items items' : List Json}
    (h : Shape.ofJson limits (levels + 1) (.arr items) = Shape.ofJson limits (levels + 1)
      (.arr items'))
    (hmixed : Sample.isMixed limits items = false) (hmixed' : Sample.isMixed limits items' = false)
    (hnull : ¬ (Shape.representative limits levels items).isNull = true) (extra : Nat) :
    Shape.ofJson limits levels (representative limits (extra + levels) items).1 =
      Shape.ofJson limits levels (representative limits (extra + levels) items').1 := by
  have hitem := Shape.representative_of_shape h hmixed hmixed'
  have hsome : (Shape.representative limits levels items).isNull = false :=
    Bool.eq_false_iff.mpr hnull
  have hsome' := (Shape.isNull_eq hitem).symm.trans hsome
  rw [ofJson_representative hsome, ofJson_representative hsome', hitem]

end Inference

end JsonSelection
