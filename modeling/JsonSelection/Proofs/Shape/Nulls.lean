import JsonSelection.Proofs.Cost
import JsonSelection.Proofs.Sample.Majority
import JsonSelection.Proofs.Schema.Likeness
import JsonSelection.Proofs.Shape
import JsonSelection.Proofs.Shape.Text
import JsonSelection.Schema.Inference

/-!
# Elements that are `null`

Most of what is read off an array passes over the elements that are `null`:
whether its elements are mixed, the object that they are merged to, and the type
that is inferred for it. The fingerprint of an array of scalars does not.

## What this module delivers

- `Sample.isMixed_present`, `Sample.mergeItems_present`: mixing and merging do
  not depend on the elements that are `null`.
- `Inference.listType_present`: neither does the type, up to the page size.
- `Shape.ofJson_present_iff`: the shape does exactly where the first one of
  several elements of one kind, which are no objects, is `null`.
- `Shape.fingerprint_present_iff`: all of it together, for arrays with an
  element that is not `null`.

All elements of an array are assumed to be looked at. Otherwise leaving some out
would bring others into the sample.
-/

set_option autoImplicit false

namespace JsonSelection

open Sample (present)

namespace Sample

variable {limits : Limits} {items : List Json}

theorem present_present (values : List Json) : present (present values) = present values := by
  rw [present, present, List.filter_filter]
  simp only [Bool.and_self]

theorem objects_present (values : List Json) :
    (present values).filterMap Json.entries? = values.filterMap Json.entries? := by
  induction values with
  | nil => rfl
  | cons value rest ih =>
      cases value with
      | null => exact ih
      | obj entries => exact congrArg (entries :: ·) ih
      | _ => exact ih

section Sampled

variable (hsample : (items.length : Int) ≤ limits.sampleSize)

include hsample

theorem ofItems_present : ofItems limits (present items) = present (ofItems limits items) := by
  have hfewer : (present items).length ≤ items.length := List.length_filter_le _ items
  rw [ofItems_of_length_le hsample, ofItems_of_length_le (by omega)]

theorem isMixed_present : isMixed limits (present items) = isMixed limits items := by
  rw [isMixed, isMixed, ofItems_present hsample, present_present]

theorem mergeItems_present (levels : Nat) :
    mergeItems limits levels (present items) = mergeItems limits levels items := by
  rw [mergeItems, mergeItems, ofItems_present hsample, objects_present]

end Sampled

end Sample

namespace Inference

variable {limits : Limits} {items : List Json}

theorem listType_of_ne_nil (h : items ≠ []) (levels : Nat) (child : Child) (typeName : String)
    (types : Registry) : listType limits levels child items typeName types =
      if Sample.isMixed limits items then .ok (.json, types)
      else do
        let (type, types) ← child (representative limits levels items).1 (typeName ++ "_Item")
          (representative limits levels items).2 types
        let page ← Cost.pageSize limits levels items
        return (.list type (some page), types) := by
  cases items with
  | nil => exact absurd rfl h
  | cons item rest => rfl

theorem representative_present (hsample : (items.length : Int) ≤ limits.sampleSize)
    (levels : Nat) :
    representative limits levels (present items) = representative limits levels items := by
  rw [representative, representative, Sample.mergeItems_present hsample, Sample.present_present]

/-- The type of a list without its `null`s is the type of the list, up to the
page size. -/
theorem listType_present (hunit : limits.charsPerUnit ≠ 0)
    (hsample : (items.length : Int) ≤ limits.sampleSize) (hpresent : present items ≠ [])
    {levels : Nat} {child : Child} {typeName : String} {types : Registry} {typed : Typed}
    (h : listType limits levels child items typeName types = .ok typed) :
    ∃ type, listType limits levels child (present items) typeName types = .ok (type, typed.2) ∧
      type.unpaged = typed.1.unpaged := by
  have hitems : items ≠ [] := by
    rintro rfl
    exact hpresent rfl
  rw [listType_of_ne_nil hitems] at h
  rw [listType_of_ne_nil hpresent, Sample.isMixed_present hsample, representative_present hsample]
  split at h
  · next hmixed =>
      obtain rfl := Except.ok.inj h
      exact ⟨.json, if_pos hmixed, rfl⟩
  · next hmixed =>
      obtain ⟨⟨type, added⟩, hinner, h⟩ := Outcome.bind_eq_ok_iff.mp h
      obtain ⟨page, -, h⟩ := Outcome.bind_eq_ok_iff.mp h
      obtain rfl := Except.ok.inj h
      -- the page is another one, as a `null` counts in the mean of the costs
      obtain ⟨page', hpage'⟩ := Cost.pageSize_succeeds hunit levels (present items)
      refine ⟨.list type (some page'), ?_, rfl⟩
      rw [if_neg hmixed, hinner, Outcome.ok_bind]
      simp only [hpage', Outcome.ok_bind]
      rfl

end Inference

namespace Shape

variable {limits : Limits} {levels : Nat} {items : List Json}

/-- Without `null`s a list is represented by the same object, if it has objects. -/
theorem representative_present (hsample : (items.length : Int) ≤ limits.sampleSize)
    (hobjects : items.filterMap Json.entries? ≠ []) :
    representative limits levels (present items) = representative limits levels items := by
  rw [representative, representative, Sample.mergeItems_present hsample]
  have hmerged : Sample.mergeItems limits levels items ≠ none := by
    rw [Sample.mergeItems, Sample.ofItems_of_length_le hsample]
    cases hfound : items.filterMap Json.entries? with
    | nil => exact absurd hfound hobjects
    | cons entries rest => exact Option.some_ne_none _
  cases hmerge : Sample.mergeItems limits levels items with
  | none => exact absurd hmerge hmerged
  | some merged => rfl

/-- A list without objects is represented by its first element. -/
theorem representative_of_no_objects (hobjects : items.filterMap Json.entries? = []) :
    representative limits levels items = items.headD .null := by
  have hlooked : (Sample.ofItems limits items).filterMap Json.entries? = [] := by
    rw [List.filterMap_eq_nil_iff] at hobjects ⊢
    exact fun item hitem => hobjects item (List.mem_of_mem_take hitem)
  rw [representative, Sample.mergeItems, hlooked]

/-- The first element that is not `null` has the shape of the first element
exactly if it is this one. -/
theorem ofJson_headD_present_iff (hpresent : present items ≠ []) :
    ofJson limits levels ((present items).headD .null) = ofJson limits levels
      (items.headD .null) ↔
      (items.headD .null).isNull = false := by
  cases items with
  | nil => exact absurd rfl hpresent
  | cons item rest =>
      cases hnull : item.isNull with
      | false =>
          have hhead : present (item :: rest) = item :: present rest := by simp [present, hnull]
          rw [hhead]
          exact iff_of_true rfl hnull
      | true =>
          -- only `null` has the shape of `null`
          have hfirst : ((present (item :: rest)).headD .null).isNull = false := by
            cases hvalues : present (item :: rest) with
            | nil => exact absurd hvalues hpresent
            | cons value others =>
                have hmem : value ∈ present (item :: rest) := by simp [hvalues]
                exact ((Sample.mem_present_iff _ _).mp hmem).2
          refine iff_of_false ?_ (by simp [hnull])
          intro hshape
          have hsame := isNull_eq hshape
          rw [hfirst, List.headD_cons, hnull] at hsame
          cases hsame

theorem exists_object_iff : (∃ entries, .obj entries ∈ items) ↔
    items.filterMap Json.entries? ≠ [] := by
  constructor
  · rintro ⟨entries, hentries⟩
    exact List.ne_nil_of_mem (List.mem_filterMap.mpr ⟨_, hentries, rfl⟩)
  · intro hobjects
    obtain ⟨entries, hentries⟩ := List.exists_mem_of_ne_nil _ hobjects
    obtain ⟨item, hitem, hfound⟩ := List.mem_filterMap.mp hentries
    cases item with
    | obj others => exact ⟨others, hitem⟩
    | _ => cases hfound

/-- An array without its `null`s has the shape of the array, unless the first of
several elements of one kind that are no objects is `null`. -/
theorem ofJson_present_iff (hsample : (items.length : Int) ≤ limits.sampleSize)
    (hpresent : present items ≠ []) :
    ofJson limits (levels + 1) (.arr (present items)) = ofJson limits (levels + 1) (.arr items) ↔
      Sample.isMixed limits items = true ∨ (∃ entries, .obj entries ∈ items) ∨
        (items.headD .null).isNull = false := by
  have hitems : items ≠ [] := by
    rintro rfl
    exact hpresent rfl
  rw [ofJson_arr hpresent, ofJson_arr hitems, Sample.isMixed_present hsample, exists_object_iff]
  by_cases hmixed : Sample.isMixed limits items = true
  · rw [if_pos hmixed, if_pos hmixed]
    exact iff_of_true rfl (Or.inl hmixed)
  · rw [if_neg hmixed, if_neg hmixed, list.injEq]
    by_cases hobjects : items.filterMap Json.entries? = []
    · -- the first element stands for the list, so it matters whether this one is left out
      have hpresentObjects : (present items).filterMap Json.entries? = [] := by
        rw [Sample.objects_present, hobjects]
      rw [representative_of_no_objects hobjects, representative_of_no_objects hpresentObjects,
        ofJson_headD_present_iff hpresent]
      simp [hmixed, hobjects]
    · rw [representative_present hsample hobjects]
      exact iff_of_true rfl (Or.inr (Or.inl hobjects))

/-- For an array with an element that is not `null`, all of whose elements are
looked at: whether they are mixed, what they are merged to and, up to the page
size, which type is inferred does not depend on the elements that are `null`.
The fingerprint does not depend on them exactly if the elements are mixed, or
some of them are objects, or the first one is not `null`. -/
theorem fingerprint_present_iff (limits : Limits) {depth : Int} (hdepth : depth < limits.maxDepth)
    {items : List Json} (hsample : (items.length : Int) ≤ limits.sampleSize)
    (hitem : ∃ item ∈ items, item.isNull = false) :
    (Sample.isMixed limits (present items) = Sample.isMixed limits items ∧
      (∀ levels, Sample.mergeItems limits levels (present items) =
        Sample.mergeItems limits levels items) ∧
      (limits.charsPerUnit ≠ 0 → ∀ typeName conflicts types typed,
        Inference.inferType limits (limits.levelsFrom depth) (.arr items) typeName conflicts types =
            .ok typed →
          ∃ type, Inference.inferType limits (limits.levelsFrom depth)
            (.arr (present items)) typeName
              conflicts types = .ok (type, typed.2) ∧ type.unpaged = typed.1.unpaged)) ∧
    (fingerprint limits depth (.arr (present items)) = fingerprint limits depth (.arr items) ↔
      Sample.isMixed limits items = true ∨ (∃ entries, .obj entries ∈ items) ∨
        (items.headD .null).isNull = false) := by
  have hpresent : present items ≠ [] := by
    obtain ⟨item, hmem, hnull⟩ := hitem
    exact List.ne_nil_of_mem ((Sample.mem_present_iff items item).mpr ⟨hmem, hnull⟩)
  obtain ⟨levels, hlevels⟩ := Sample.exists_levels hdepth
  rw [hlevels]
  refine ⟨⟨Sample.isMixed_present hsample, Sample.mergeItems_present hsample, ?_⟩, ?_⟩
  · intro hunit typeName conflicts types typed htyped
    exact Inference.listType_present hunit hsample hpresent htyped
  · rw [← ofJson_present_iff hsample hpresent, fingerprint, fingerprint, hlevels]
    exact ⟨text_injective, congrArg text⟩

/-- An object between two `null`s. -/
def padded : List Json :=
  [.null, .obj [("a", .int 1)], .null]

/-- A number after a `null`. -/
def delayed : List Json :=
  [.null, .int 1]

theorem fingerprint_present_iff_leading :
    fingerprint {} 0 (.arr (present padded)) = fingerprint {} 0 (.arr padded) ∧
      fingerprint {} 0 (.arr (present delayed)) ≠ fingerprint {} 0 (.arr delayed) := by
  constructor
  · apply (fingerprint_present_iff {} (by decide) (by decide)
      ⟨_, List.mem_cons_of_mem _ List.mem_cons_self,
      rfl⟩).2.mpr
    exact Or.inr (Or.inl ⟨_, List.mem_cons_of_mem _ List.mem_cons_self⟩)
  · intro hsame
    have hcases := (fingerprint_present_iff {} (by decide) (by decide) ⟨_, List.mem_cons_of_mem _
      List.mem_cons_self, rfl⟩).2.mp hsame
    rcases hcases with hmixed | ⟨entries, hentries⟩ | hfirst
    · revert hmixed
      decide +kernel
    · simp at hentries
    · cases hfirst

end Shape

end JsonSelection
