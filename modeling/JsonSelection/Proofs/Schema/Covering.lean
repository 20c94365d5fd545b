import JsonSelection.Proofs.Schema.Building
import JsonSelection.Proofs.Schema.Likeness

/-!
# Outlines that are alike

Two outlines are alike when they are of one type and each type in one of them
has all its fields in a type of the same name in the other.

## What this module delivers

- `Outline.Alike`: outlines that differ in the order of fields and in page sizes
  at most.
- `Outline.Fits`: each entry of an object has an entry of another one with the
  same key and name, which conflicts with it, and which is of the same type
  otherwise.
- `Outline.within_iff_fits`: an object has all its fields in another one when
  its entries fit.
- `Outline.alike_iff_samePlaces`: the types of places are alike if and only if
  places of one name have entries that fit.
-/

set_option autoImplicit false

namespace JsonSelection

namespace Outline

open Inference

/-- Each type has all its fields in a type of the same name. Types of the other
list that none of these names may be there as well. -/
def Covers (types others : Registry) : Prop :=
  ∀ entry ∈ types, ∃ other ∈ others, other.1 = entry.1 ∧ entry.2.Within other.2

/-- Two outlines that differ in the order of fields and in page sizes at most. -/
structure Alike (typed other : Typed) : Prop where
  type : typed.1.unpaged = other.1.unpaged
  covers : Covers typed.2 other.2
  covered : Covers other.2 typed.2

theorem covers_nil (others : Registry) : Covers [] others := by
  intro entry hentry
  cases hentry

theorem Alike.symm {typed other : Typed} (h : Alike typed other) : Alike other typed :=
  ⟨h.type.symm, h.covered, h.covers⟩

theorem alike_refl (typed : Typed) : Alike typed typed := by
  have hcovers : Covers typed.2 typed.2 :=
    fun entry hentry => ⟨entry, hentry, rfl, NamedType.within_refl entry.2⟩
  exact ⟨rfl, hcovers, hcovers⟩

/-- Outlines of one type without object types are alike. -/
theorem alike_of_nil {type other : TypeRef} (h : type.unpaged = other.unpaged) :
    Alike (type, []) (other, []) :=
  ⟨h, covers_nil [], covers_nil []⟩

/-! ### Fields of objects

A field shows the key that it reads, its name, and whether the key conflicts.
The field of an empty object reads no key, so it is no field of an object with
entries. -/

theorem fieldOf_of_mem {child : Child} {typeName : String} {conflicts : List String} {key : String}
    (h : key ∈ conflicts) (value : Json) (name : String) :
    fieldOf child typeName conflicts key value name = conflictField name key :=
  if_pos (List.contains_iff_mem.mpr h)

theorem fieldOf_of_not_mem {child : Child} {typeName : String} {conflicts : List String}
    {key : String} (h : key ∉ conflicts) (value : Json) (name : String) :
    fieldOf child typeName conflicts key value name =
      typedField name key (child value (typeName ++ "_" ++ name)
        (conflictsBelow conflicts key)).1 :=
  if_neg fun hcontains => h (List.contains_iff_mem.mp hcontains)

/-- Fields are the same up to page sizes when they have one name and one key,
conflict together, and are of one type if they do not conflict. -/
theorem unpaged_fieldOf_eq_iff {child child' : Child} {typeName : String}
    {conflicts conflicts' : List String} {key key' name name' : String} {value value' : Json} :
    (fieldOf child typeName conflicts key value name).unpaged =
        (fieldOf child' typeName conflicts' key' value' name').unpaged ↔
      name = name' ∧ key = key' ∧ (key ∈ conflicts ↔ key' ∈ conflicts') ∧
        (key ∉ conflicts →
          (child value (typeName ++ "_" ++ name) (conflictsBelow conflicts key)).1.unpaged =
            (child' value' (typeName ++ "_" ++ name')
              (conflictsBelow conflicts' key')).1.unpaged) := by
  -- a field in conflict is marked, so the two can only be the same if both are
  by_cases hkey : key ∈ conflicts
  · rw [fieldOf_of_mem hkey]
    by_cases hkey' : key' ∈ conflicts'
    · rw [fieldOf_of_mem hkey']
      constructor
      · intro h
        exact ⟨congrArg Field.name h, Reader.member.inj (congrArg Field.reader h),
          iff_of_true hkey hkey', fun hnot => absurd hkey hnot⟩
      · rintro ⟨rfl, rfl, -, -⟩
        rfl
    · rw [fieldOf_of_not_mem hkey']
      constructor
      · intro h
        cases congrArg Field.conflict h
      · rintro ⟨-, -, hiff, -⟩
        exact absurd (hiff.mp hkey) hkey'
  · rw [fieldOf_of_not_mem hkey]
    by_cases hkey' : key' ∈ conflicts'
    · rw [fieldOf_of_mem hkey']
      constructor
      · intro h
        cases congrArg Field.conflict h
      · rintro ⟨-, -, hiff, -⟩
        exact absurd (hiff.mpr hkey') hkey
    · rw [fieldOf_of_not_mem hkey']
      constructor
      · intro h
        exact ⟨congrArg Field.name h, Reader.member.inj (congrArg Field.reader h),
          iff_of_false hkey hkey', fun _ => congrArg Field.type h⟩
      · rintro ⟨rfl, rfl, -, htype⟩
        simp only [typedField, Field.unpaged, htype hkey, Field.pageArguments_unpaged (htype hkey)]

theorem reader_fieldOf (child : Child) (typeName : String) (conflicts : List String) (key : String)
    (value : Json) (name : String) :
    (fieldOf child typeName conflicts key value name).reader = .member key := by
  rw [fieldOf]
  split <;> rfl

theorem mem_ownFields_iff {child : Child} {typeName : String} {conflicts : List String}
    {entries : Entries Json} (hne : entries ≠ []) {field : Field} :
    field ∈ ownFields child entries typeName conflicts ↔
      ∃ key value name, (key, value, name) ∈ named [] entries ∧
        field = fieldOf child typeName conflicts key value name := by
  cases entries with
  | nil => exact absurd rfl hne
  | cons entry rest => exact mem_fields_iff

/-- Every object type has a field. -/
theorem exists_mem_ownFields (child : Child) (entries : Entries Json) (typeName : String)
    (conflicts : List String) : ∃ field, field ∈ ownFields child entries typeName
      conflicts := by
  cases entries with
  | nil => exact ⟨_, List.mem_singleton_self _⟩
  | cons entry rest =>
      exact ⟨_, (mem_ownFields_iff (List.cons_ne_nil entry rest)).mpr
        ⟨_, _, _, List.mem_cons_self, rfl⟩⟩

/-- Only objects have the type of an object. -/
theorem object_of_named {limits : Limits} {levels : Nat} {value : Json} {typeName name : String}
    {conflicts : List String}
    (h : (ofJson limits (levels + 1) value typeName conflicts).1.unpaged = .named name) :
    ∃ entries, value = .obj entries := by
  cases value with
  | obj entries => exact ⟨entries, rfl⟩
  | arr items =>
      simp only [ofJson, listType] at h
      split at h
      · cases h
      · split at h <;> cases h
  | _ => cases h

/-- A registry that holds the outline of an object holds those of its entries. -/
theorem Held.entry {types : Registry} {child : Child} {entries : Entries Json} {typeName : String}
    {conflicts : List String} (h : Held types (objectType child entries typeName conflicts).2)
    {key name : String} {value : Json} (hnamed : (key, value, name) ∈ named [] entries)
    (hkey : key ∉ conflicts) :
    Held types (child value (typeName ++ "_" ++ name) (conflictsBelow conflicts key)).2 := by
  rw [objectType_eq_cons] at h
  exact h.mono fun entry hentry =>
    List.mem_cons_of_mem _ (mem_types_iff.mpr ⟨key, value, name, hnamed, hkey, hentry⟩)

/-- Each entry of an object has an entry of another one with the same key and
name, which conflicts with it, and which is of the same type if it does not
conflict. -/
def Fits (child child' : Child) (typeName : String) (conflicts conflicts' : List String)
    (entries entries' : Entries Json) : Prop :=
  ∀ key value name, (key, value, name) ∈ named [] entries →
    ∃ value', (key, value', name) ∈ named [] entries' ∧
    (key ∈ conflicts ↔ key ∈ conflicts') ∧
      (key ∉ conflicts →
        (child value (typeName ++ "_" ++ name) (conflictsBelow conflicts key)).1.unpaged =
          (child' value' (typeName ++ "_" ++ name) (conflictsBelow conflicts' key)).1.unpaged)

section Fits

variable {child child' : Child} {typeName : String} {conflicts conflicts' : List String}
  {entries entries' : Entries Json}

/-- Nothing but an empty object fits an empty object. -/
theorem Fits.nil (h : Fits child child' typeName conflicts conflicts' entries entries')
    (hempty : entries' = []) : entries = [] := by
  cases entries with
  | nil => rfl
  | cons entry rest =>
      obtain ⟨value', hnamed', -⟩ := h _ _ _ List.mem_cons_self
      rw [hempty] at hnamed'
      cases hnamed'

/-- The field of an empty object reads no key. -/
theorem unpaged_emptyField_ne (key : String) (value : Json) (name : String) :
    (fieldOf child typeName conflicts key value name).unpaged ≠ emptyField.unpaged := by
  intro heq
  have hreader := congrArg Field.reader heq
  rw [Field.reader_unpaged, Field.reader_unpaged, reader_fieldOf] at hreader
  cases hreader

/-- An object has all its fields in another one when its entries fit. -/
theorem within_iff_fits :
    (ownFields child entries typeName conflicts).map Field.unpaged ⊆
        (ownFields child' entries' typeName conflicts').map Field.unpaged ↔
      (entries = [] ↔ entries' = []) ∧
        Fits child child' typeName conflicts conflicts' entries entries' := by
  constructor
  · intro hwithin
    have hfits : Fits child child' typeName conflicts conflicts' entries entries' := by
      intro key value name hnamed
      have hne : entries ≠ [] := by
        rintro rfl
        cases hnamed
      have hfield : fieldOf child typeName conflicts key value name ∈
          ownFields child entries typeName conflicts :=
        (mem_ownFields_iff hne).mpr ⟨key, value, name, hnamed, rfl⟩
      obtain ⟨field', hfield', heq⟩ := List.mem_map.mp (hwithin (List.mem_map_of_mem hfield))
      have hne' : entries' ≠ [] := by
        rintro rfl
        obtain rfl := List.mem_singleton.mp hfield'
        exact unpaged_emptyField_ne key value name heq.symm
      obtain ⟨key', value', name', hnamed', rfl⟩ := (mem_ownFields_iff hne').mp hfield'
      obtain ⟨rfl, rfl, hiff, htype⟩ := unpaged_fieldOf_eq_iff.mp heq.symm
      exact ⟨value', hnamed', hiff, htype⟩
    refine ⟨⟨?_, hfits.nil⟩, hfits⟩
    -- the field that stands for an empty object is no field of an object with entries
    rintro rfl
    refine Decidable.by_contra fun hne => ?_
    have hempty : emptyField ∈ ownFields child [] typeName conflicts := List.mem_singleton_self _
    obtain ⟨field', hfield', heq⟩ := List.mem_map.mp (hwithin (List.mem_map_of_mem hempty))
    obtain ⟨key, value, name, -, rfl⟩ := (mem_ownFields_iff hne).mp hfield'
    exact unpaged_emptyField_ne key value name heq
  · rintro ⟨hempty, hfits⟩ unpaged hmem
    obtain ⟨field, hfield, rfl⟩ := List.mem_map.mp hmem
    by_cases hne : entries = []
    · rw [hempty.mp hne]
      rw [hne] at hfield
      exact List.mem_map_of_mem hfield
    · obtain ⟨key, value, name, hnamed, rfl⟩ := (mem_ownFields_iff hne).mp hfield
      obtain ⟨value', hnamed', hiff, hsame⟩ := hfits key value name hnamed
      have hne' : entries' ≠ [] := fun heq => hne (hempty.mpr heq)
      rw [unpaged_fieldOf_eq_iff.mpr ⟨rfl, rfl, hiff, hsame⟩]
      exact List.mem_map_of_mem ((mem_ownFields_iff hne').mpr ⟨key, value', name, hnamed', rfl⟩)

end Fits

/-! ### Places of one name

No two places have one name, so what covers a place and what that is covered by
are places of the same name, and the second is the first one again. -/

/-- Two places of one name whose objects have entries of the same keys, names
and types, which conflict together. -/
structure Place.Agrees (limits : Limits) (place other : Place) : Prop where
  typeName : place.typeName = other.typeName
  fits : Fits (ofJson limits place.levels) (ofJson limits other.levels) place.typeName
    place.conflicts
    other.conflicts place.entries other.entries
  fitted : Fits (ofJson limits other.levels) (ofJson limits place.levels) place.typeName
    other.conflicts
    place.conflicts other.entries place.entries

theorem Place.agrees_iff_within {limits : Limits} {place other : Place} :
    place.Agrees limits other ↔ place.typeName = other.typeName ∧
      (place.type limits).Within (other.type limits) ∧
        (other.type limits).Within (place.type limits) := by
  obtain ⟨typeName, conflicts, levels, entries⟩ := place
  obtain ⟨typeName', conflicts', levels', entries'⟩ := other
  constructor
  · rintro ⟨rfl, hfits, hfitted⟩
    exact ⟨rfl, within_iff_fits.mpr ⟨⟨hfitted.nil, hfits.nil⟩, hfits⟩,
      within_iff_fits.mpr ⟨⟨hfits.nil, hfitted.nil⟩, hfitted⟩⟩
  · rintro ⟨rfl, hwithin, hwithin'⟩
    exact ⟨rfl, (within_iff_fits.mp hwithin).2, (within_iff_fits.mp hwithin').2⟩

/-- Each place of either list agrees with one of the other list. The places may
stand in different orders. -/
def SamePlaces (limits : Limits) (places others : List Place) : Prop :=
  (∀ place ∈ places, ∃ other ∈ others, place.Agrees limits other) ∧
    ∀ other ∈ others, ∃ place ∈ places, place.Agrees limits other

theorem covers_registered_iff {limits : Limits} {places others : List Place} :
    Covers (registered limits places) (registered limits others) ↔
      ∀ place ∈ places, ∃ other ∈ others, other.typeName = place.typeName ∧
        (place.type limits).Within (other.type limits) := by
  constructor
  · intro h place hplace
    obtain ⟨entry, hentry, hname, hwithin⟩ :=
      h _ (mem_registered_iff.mpr ⟨place, hplace, rfl⟩)
    obtain ⟨other, hother, rfl⟩ := mem_registered_iff.mp hentry
    exact ⟨other, hother, hname, hwithin⟩
  · intro h entry hentry
    obtain ⟨place, hplace, rfl⟩ := mem_registered_iff.mp hentry
    obtain ⟨other, hother, hname, hwithin⟩ := h place hplace
    exact ⟨_, mem_registered_iff.mpr ⟨other, hother, rfl⟩, hname, hwithin⟩

/-- In a list without two places of one name, the name tells the type. -/
theorem type_eq_of_distinct {limits : Limits} {places : List Place}
    (h : Entries.Distinct (registered limits places)) {place other : Place}
    (hplace : place ∈ places) (hother : other ∈ places)
    (hname : place.typeName = other.typeName) :
    place.type limits = other.type limits := by
  have hfound := held_self h (mem_registered_iff.mpr ⟨place, hplace, rfl⟩)
  have hfound' := held_self h (mem_registered_iff.mpr ⟨other, hother, rfl⟩)
  rw [hname] at hfound
  exact hfound.symm.trans hfound'

/-- The types of places are alike if and only if places of one name agree. -/
theorem alike_iff_samePlaces {limits : Limits} {type type' : TypeRef} {places others : List Place}
    (h : Entries.Distinct (registered limits places))
    (h' : Entries.Distinct (registered limits others)) :
    Alike (type, registered limits places) (type', registered limits others) ↔
      type.unpaged = type'.unpaged ∧ SamePlaces limits places others := by
  constructor
  · intro halike
    have hcovers := covers_registered_iff.mp halike.covers
    have hcovered := covers_registered_iff.mp halike.covered
    -- what covers a place is covered by a place of its name, which is the place itself
    refine ⟨halike.type, ?_, ?_⟩
    · intro place hplace
      obtain ⟨other, hother, hname, hwithin⟩ := hcovers place hplace
      obtain ⟨found, hfound, hname', hwithin'⟩ := hcovered other hother
      rw [type_eq_of_distinct h hfound hplace (hname'.trans hname)] at hwithin'
      exact ⟨other, hother, Place.agrees_iff_within.mpr ⟨hname.symm, hwithin, hwithin'⟩⟩
    · intro other hother
      obtain ⟨place, hplace, hname, hwithin⟩ := hcovered other hother
      obtain ⟨found, hfound, hname', hwithin'⟩ := hcovers place hplace
      rw [type_eq_of_distinct h' hfound hother (hname'.trans hname)] at hwithin'
      exact ⟨place, hplace, Place.agrees_iff_within.mpr ⟨hname, hwithin', hwithin⟩⟩
  · rintro ⟨htype, hforth, hback⟩
    refine ⟨htype, covers_registered_iff.mpr ?_, covers_registered_iff.mpr ?_⟩
    · intro place hplace
      obtain ⟨other, hother, hagrees⟩ := hforth place hplace
      obtain ⟨hname, hwithin, -⟩ := Place.agrees_iff_within.mp hagrees
      exact ⟨other, hother, hname.symm, hwithin⟩
    · intro other hother
      obtain ⟨place, hplace, hagrees⟩ := hback other hother
      obtain ⟨hname, -, hwithin⟩ := Place.agrees_iff_within.mp hagrees
      exact ⟨place, hplace, hname, hwithin⟩

end Outline

end JsonSelection
