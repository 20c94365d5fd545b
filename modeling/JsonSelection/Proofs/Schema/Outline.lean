import JsonSelection.Proofs.Cost
import JsonSelection.Proofs.Schema.Selectable

/-!
# Outlines

Inference passes one registry through the whole value, and a name that is
registered already stands for the type that it was given first. The outline of a
value lists the types of all its objects instead, without a registry, whatever
their names are.

## What this module delivers

- `Outline.ofJson`: the type of a value and the object types that it needs.
- `Outline.mem_fields_iff`, `Outline.mem_types_iff`: what the fields of an
  object are, and which types they need, entry by entry.
- `Outline.ofJson_underscored`: below a place with an underscore in its name all
  types have one.

An outline is a function of the value alone, so two values can be compared by
their outlines. How an outline and the registry of an inference belong together
is said in `Proofs/Schema/Places`.
-/

set_option autoImplicit false

namespace JsonSelection

namespace Outline

open Inference

/-- The type of a value below an object or a list, and the object types that it
needs. -/
abbrev Child := Json → String → List String → Typed

/-- The fields of an object type and the object types that they need, in the
order of the entries. -/
def fields (child : Child) (typeName : String) (conflicts : List String) :
    List String → Entries Json → List Field × Registry
  | _, [] => ([], [])
  | used, (key, value) :: rest =>
      let name := FieldName.fresh used (FieldName.sanitize key)
      let others := fields child typeName conflicts (used ++ [name]) rest
      if conflicts.contains key then (conflictField name key :: others.1, others.2)
      else
        let typed := child value (typeName ++ "_" ++ name) (conflictsBelow conflicts key)
        (typedField name key typed.1 :: others.1, typed.2 ++ others.2)

/-- The type of an object, before the object types inside. -/
def objectType (child : Child) (entries : Entries Json) (typeName : String)
    (conflicts : List String) : Typed :=
  match entries with
  | [] => (.named typeName, [(typeName, ⟨typeName, [emptyField], false⟩)])
  | entries =>
      let given := fields child typeName conflicts [] entries
      (.named typeName, (typeName, ⟨typeName, given.1, false⟩) :: given.2)

/-- The type of a list. `levels` counts from the elements down. -/
def listType (limits : Limits) (levels : Nat) (child : Child) (items : List Json)
    (typeName : String) : Typed :=
  match items with
  | [] => (.list .json (some limits.maxListLimit), [])
  | items =>
      if Sample.isMixed limits items then (.json, [])
      else
        let (item, conflicts) := representative limits levels items
        let typed := child item (typeName ++ "_Item") conflicts
        (.list typed.1 (Cost.pageSize limits levels items).toOption, typed.2)

/-- The type of a value and the object types that it needs. -/
def ofJson (limits : Limits) : Nat → Child
  | _, .null, _, _ => (.scalar .string, [])
  | 0, _, _, _ => (.json, [])
  | levels + 1, value, typeName, conflicts =>
      match value with
      | .arr items => listType limits levels (ofJson limits levels) items typeName
      | .obj entries => objectType (ofJson limits levels) entries typeName conflicts
      | value => (.scalar (scalarType value), [])

/-- The entries of an object, each with the name of its field. The name depends
on the keys before, and not on any value. -/
def named : List String → Entries Json → List (String × Json × String)
  | _, [] => []
  | used, (key, value) :: rest =>
      let name := FieldName.fresh used (FieldName.sanitize key)
      (key, value, name) :: named (used ++ [name]) rest

theorem mem_of_named {used : List String} {entries : Entries Json} {key name : String}
    {value : Json} (h : (key, value, name) ∈ named used entries) : (key, value) ∈ entries := by
  induction entries generalizing used with
  | nil => cases h
  | cons entry rest ih =>
      rcases List.mem_cons.mp h with heq | h
      · cases heq
        exact List.mem_cons_self
      · exact List.mem_cons_of_mem _ (ih h)

theorem exists_named (used : List String) {entries : Entries Json} {key : String} {value : Json}
    (h : (key, value) ∈ entries) : ∃ name, (key, value, name) ∈ named used entries := by
  induction entries generalizing used with
  | nil => cases h
  | cons entry rest ih =>
      rcases List.mem_cons.mp h with rfl | h
      · exact ⟨_, List.mem_cons_self⟩
      · obtain ⟨name, hname⟩ :=
          ih (used ++ [FieldName.fresh used (FieldName.sanitize entry.1)]) h
        exact ⟨name, List.mem_cons_of_mem _ hname⟩

/-- The field of an entry. A key that conflicts has a field of raw JSON,
whatever its value is. -/
def fieldOf (child : Child) (typeName : String) (conflicts : List String) (key : String)
    (value : Json) (name : String) : Field :=
  if conflicts.contains key then conflictField name key
  else typedField name key (child value (typeName ++ "_" ++ name) (conflictsBelow conflicts key)).1

theorem mem_fields_iff {child : Child} {typeName : String} {conflicts used : List String}
    {entries : Entries Json} {field : Field} :
    field ∈ (fields child typeName conflicts used entries).1 ↔
      ∃ key value name, (key, value, name) ∈ named used entries ∧
        field = fieldOf child typeName conflicts key value name := by
  induction entries generalizing used with
  | nil => simp [fields, named]
  | cons entry rest ih =>
      obtain ⟨key, value⟩ := entry
      -- whether the key conflicts or not, its field stands first
      have hfirst : (fields child typeName conflicts used ((key, value) :: rest)).1 =
          fieldOf child typeName conflicts key value
            (FieldName.fresh used (FieldName.sanitize key)) ::
            (fields child typeName conflicts
              (used ++ [FieldName.fresh used (FieldName.sanitize key)]) rest).1 := by
        simp only [fields, fieldOf]
        split <;> rfl
      rw [hfirst, List.mem_cons, ih]
      constructor
      · rintro (rfl | ⟨key', value', name, hmem, rfl⟩)
        · exact ⟨key, value, _, List.mem_cons_self, rfl⟩
        · exact ⟨key', value', name, List.mem_cons_of_mem _ hmem, rfl⟩
      · rintro ⟨key', value', name, hmem, rfl⟩
        rcases List.mem_cons.mp hmem with heq | hmem
        · cases heq
          exact Or.inl rfl
        · exact Or.inr ⟨key', value', name, hmem, rfl⟩

theorem mem_types_iff {child : Child} {typeName : String} {conflicts used : List String}
    {entries : Entries Json} {type : String × NamedType} :
    type ∈ (fields child typeName conflicts used entries).2 ↔
      ∃ key value name, (key, value, name) ∈ named used entries ∧ key ∉ conflicts ∧
        type ∈ (child value (typeName ++ "_" ++ name) (conflictsBelow conflicts key)).2 := by
  induction entries generalizing used with
  | nil => simp [fields, named]
  | cons entry rest ih =>
      obtain ⟨key, value⟩ := entry
      simp only [fields, named]
      split
      -- an entry in conflict has no types below it
      · next hconflict =>
          rw [ih]
          have hmem : key ∈ conflicts := by simpa using hconflict
          constructor
          · rintro ⟨key', value', name, hnamed, hrest⟩
            exact ⟨key', value', name, List.mem_cons_of_mem _ hnamed, hrest⟩
          · rintro ⟨key', value', name, hnamed, hkey, htype⟩
            rcases List.mem_cons.mp hnamed with heq | hnamed
            · cases heq
              exact absurd hmem hkey
            · exact ⟨key', value', name, hnamed, hkey, htype⟩
      · next hconflict =>
          have hmem : key ∉ conflicts := by simpa using hconflict
          rw [List.mem_append, ih]
          constructor
          · rintro (htype | ⟨key', value', name, hnamed, hrest⟩)
            · exact ⟨key, value, _, List.mem_cons_self, hmem, htype⟩
            · exact ⟨key', value', name, List.mem_cons_of_mem _ hnamed, hrest⟩
          · rintro ⟨key', value', name, hnamed, hkey, htype⟩
            rcases List.mem_cons.mp hnamed with heq | hnamed
            · cases heq
              exact Or.inl htype
            · exact Or.inr ⟨key', value', name, hnamed, hkey, htype⟩

/-- Without conflicts each field is typed by the outline of its entry, whose
object types are among those that all fields need. -/
theorem mem_fields {child : Child} {typeName : String} {used : List String} {entries : Entries Json}
    {field : Field} (h : field ∈ (fields child typeName [] used entries).1) :
    ∃ key value name, (key, value) ∈ entries ∧
      field = typedField name key (child value (typeName ++ "_" ++ name) []).1 ∧
      ∀ entry ∈ (child value (typeName ++ "_" ++ name) []).2,
        entry ∈ (fields child typeName [] used entries).2 := by
  obtain ⟨key, value, name, hnamed, rfl⟩ := mem_fields_iff.mp h
  exact ⟨key, value, name, mem_of_named hnamed, rfl,
    fun entry hentry =>
      mem_types_iff.mpr ⟨key, value, name, hnamed, List.not_mem_nil, hentry⟩⟩

/-- A mixed list is raw JSON. -/
theorem listType_of_mixed {limits : Limits} {items : List Json}
    (h : Sample.isMixed limits items = true) (levels : Nat) (child : Child) (typeName : String) :
    listType limits levels child items typeName = (.json, []) := by
  cases items with
  | nil =>
      have hnone : Sample.isMixed limits [] = false := by
        simp [Sample.isMixed, Sample.ofItems, Slice.before, Sample.present, Sample.kindsSeen]
      rw [hnone] at h
      cases h
  | cons item rest => simp only [listType, h, if_true]

/-- Any other list that is not empty has the type of its representative. -/
theorem listType_of_uniform {limits : Limits} {items : List Json} (hne : items ≠ [])
    (h : Sample.isMixed limits items = false) (levels : Nat) (child : Child) (typeName : String) :
    listType limits levels child items typeName =
      (.list (child (representative limits levels items).1 (typeName ++ "_Item")
          (representative limits levels items).2).1 (Cost.pageSize limits levels items).toOption,
        (child (representative limits levels items).1 (typeName ++ "_Item")
          (representative limits levels items).2).2) := by
  cases items with
  | nil => exact absurd rfl hne
  | cons item rest => simp only [listType, h, Bool.false_eq_true, if_false]

/-- An outline of a place whose name has an underscore needs only types with
underscores in their names. -/
def Underscores (child : Child) : Prop :=
  ∀ ⦃value typeName conflicts⦄, Underscored typeName →
    ∀ entry ∈ (child value typeName conflicts).2, Underscored entry.1

theorem fields_underscored {child : Child} (hchild : Underscores child) (typeName : String)
    (conflicts used : List String) (entries : Entries Json) :
    ∀ entry ∈ (fields child typeName conflicts used entries).2, Underscored entry.1 := by
  intro entry hentry
  obtain ⟨key, value, name, -, -, htype⟩ := mem_types_iff.mp hentry
  exact hchild (underscored_join typeName name) entry htype

/-- The fields of the type of an object; an empty object has a field of its own. -/
def ownFields (child : Child) (entries : Entries Json) (typeName : String)
    (conflicts : List String) :
    List Field :=
  match entries with
  | [] => [emptyField]
  | entries => (fields child typeName conflicts [] entries).1

/-- The outline of an object begins with its own type. -/
theorem objectType_eq_cons (child : Child) (entries : Entries Json) (typeName : String)
    (conflicts : List String) : objectType child entries typeName conflicts =
      (.named typeName,
        (typeName, ⟨typeName, ownFields child entries typeName conflicts, false⟩) ::
        (fields child typeName conflicts [] entries).2) := by
  cases entries <;> rfl

theorem objectType_underscored {child : Child} (hchild : Underscores child) {entries : Entries Json}
    {typeName : String} {conflicts : List String} (htypeName : Underscored typeName) :
    ∀ entry ∈ (objectType child entries typeName conflicts).2, Underscored entry.1 := by
  rw [objectType_eq_cons]
  intro entry hentry
  rcases List.mem_cons.mp hentry with rfl | hentry
  · exact htypeName
  · exact fields_underscored hchild typeName conflicts [] entries entry hentry

theorem ofJson_underscored (limits : Limits) (levels : Nat) :
    Underscores (ofJson limits levels) := by
  induction levels with
  | zero =>
      intro value typeName conflicts _ entry hentry
      cases value <;> cases hentry
  | succ levels ih =>
      intro value typeName conflicts htypeName
      cases value with
      | arr items =>
          simp only [ofJson, listType]
          split
          · simp
          · split
            · simp
            · exact ih (htypeName.append "_Item")
      | obj entries => exact objectType_underscored ih htypeName
      | _ => simp [ofJson]

end Outline

end JsonSelection
