import JsonSelection.Proofs.Schema.Formation
import JsonSelection.Query.Execution
import JsonSelection.Schema.Build

/-!
# Types that can be selected from

A type is selectable for some sources when its fields have distinct names that a
query can hold, can be read from these sources, and show pages that neither start
nor end at a negative place.

## What this module delivers

- `Field.Selectable`, `NamedType.Selectable`: fields and types that can be
  selected.
- `NamedType.field?_of_mem`: a field of such a type is found under its name.
- `Registry.Grows`: a registry grows by selectable types with underscores in
  their names.
- `Inference.inferType_keeps`, `InputType.ofProperties_grows`: inference and the
  reading of request bodies only register types that are selectable for every
  source.

The root types come on top of these; that a whole schema can be used is said in
`Proofs/Schema/Serving`.
-/

set_option autoImplicit false

namespace JsonSelection

namespace Field

/-- No default of an argument is negative. -/
def Paged (arguments : List Argument) : Prop :=
  ∀ argument ∈ arguments, ∀ n, argument.default = some n → 0 ≤ n

theorem paged_nil : Paged [] := by
  intro argument h
  cases h

theorem paged_list (item : TypeRef) {page : Option Int} (h : ∀ n, page = some n → 0 ≤ n) :
    Paged (pageArguments (.list item page)) := by
  intro argument hmem n hn
  simp only [pageArguments, List.mem_cons, List.not_mem_nil, or_false] at hmem
  rcases hmem with rfl | rfl
  · exact h n hn
  · obtain rfl := Option.some.inj hn
    exact Int.le_refl 0

/-- A field that a query can select from some sources. -/
structure Selectable (sources : Json → Prop) (field : Field) : Prop where
  name : Token.IsName field.name
  ordinary : field.name ≠ Execution.typeNameField
  readable : ∀ source, sources source → ∃ value, field.reader.read source = .ok value
  paged : Paged field.arguments
  inside : field.type.Inside Underscored

end Field

namespace NamedType

/-- A type from whose sources a query can select all fields. -/
structure Selectable (sources : Json → Prop) (type : NamedType) : Prop where
  distinct : type.fieldNames.Nodup
  fields : ∀ field ∈ type.fields, field.Selectable sources

theorem selectable_empty (sources : Json → Prop) (name : String) (isInput : Bool) :
    Selectable sources ⟨name, [], isInput⟩ :=
  ⟨List.nodup_nil, by simp⟩

/-- In a type whose fields have distinct names, each is found under its name. -/
theorem field?_of_distinct {type : NamedType} (hdistinct : type.fieldNames.Nodup) {field : Field}
    (hfield : field ∈ type.fields) : type.field? field.name = some field := by
  rw [fieldNames] at hdistinct
  rw [field?]
  generalize type.fields = fields at hfield hdistinct
  induction fields with
  | nil => cases hfield
  | cons first rest ih =>
      rw [List.map_cons, List.nodup_cons] at hdistinct
      rcases List.mem_cons.mp hfield with rfl | hrest
      · simp
      · have hne : first.name ≠ field.name := by
          intro heq
          exact hdistinct.1 (heq ▸ List.mem_map_of_mem hrest)
        rw [List.find?_cons, beq_eq_false_iff_ne.mpr hne]
        exact ih hrest hdistinct.2

/-- A field of a type is found under its name. -/
theorem field?_of_mem {sources : Json → Prop} {type : NamedType} (h : type.Selectable sources)
    {field : Field} (hfield : field ∈ type.fields) : type.field? field.name = some field :=
  field?_of_distinct h.distinct hfield

end NamedType

namespace Registry

/-- All registered types can be selected from. -/
def Selectable (types : Registry) : Prop :=
  ∀ entry ∈ types, entry.2.Selectable fun _ => True

theorem Selectable.typeNamed {types : Registry} (h : Selectable types) (name : String) :
    (types.typeNamed name).Selectable fun _ => True := by
  rw [Registry.typeNamed]
  cases hfind : Entries.find? types name with
  | none => exact NamedType.selectable_empty _ name false
  | some type => exact h _ (Entries.mem_of_find? hfind)

/-- A registry grows by types with an underscore in their names, all of them
selectable, and keeps the types that it has. -/
structure Grows (types types' : Registry) : Prop where
  kept : Extends types types'
  roots : ∀ name, ¬ Underscored name → Entries.find? types' name = Entries.find? types name
  inside : (∀ name, Underscored name → (types.typeNamed name).Selectable fun _ => True) →
    ∀ name, Underscored name → (types'.typeNamed name).Selectable fun _ => True

theorem Grows.refl (types : Registry) : Grows types types :=
  ⟨.refl types, fun _ _ => rfl, id⟩

theorem typeNamed_put_self (types : Registry) (name : String) (type : NamedType) :
    Registry.typeNamed (Entries.put types name type) name = type := by
  rw [Registry.typeNamed, Entries.find?_put_self]
  rfl

theorem typeNamed_put_of_ne (types : Registry) {name other : String} (type : NamedType)
    (h : other ≠ name) :
    Registry.typeNamed (Entries.put types name type) other = types.typeNamed other := by
  rw [Registry.typeNamed, Entries.find?_put_of_ne types type h]
  rfl

end Registry

namespace Inference

/-- A page is never negative, since the bounds on it are not. -/
theorem pageSize_nonneg {limits : Limits} (hmin : 0 ≤ limits.minListLimit)
    (hmax : 0 ≤ limits.maxListLimit) {levels : Nat} {items : List Json} {page : Int}
    (h : Cost.pageSize limits levels items = .ok page) : 0 ≤ page := by
  cases items with
  | nil =>
      obtain rfl := Except.ok.inj h
      exact hmax
  | cons item rest =>
      obtain ⟨cost, -, rfl⟩ := Outcome.map_eq_ok_iff.mp h
      exact Int.le_trans hmin (Int.le_max_left _ _)

theorem selectable_emptyField : Field.Selectable (fun _ => True) emptyField where
  name := ⟨'_', "empty".toList, rfl, rfl, List.all_eq_true.mp rfl⟩
  ordinary := by decide
  readable := fun _ _ => ⟨.null, rfl⟩
  paged := Field.paged_nil
  inside := TypeRef.inside_of_none rfl _

end Inference

/-! ## Types that are formed by a walk

Fields are named after keys, and sanitized names can be held by a query. Their
readers read a key, which gives a value for every source. -/

/-- What is known of the pages of a walk whose arguments have no negative
defaults. A list without a page size is as good as one with a size that is not
negative. -/
def Walk.Paged (walk : Walk) : Prop :=
  ∀ page n, walk.pages page → page = some n → 0 ≤ n

theorem Walk.paged_overValues {limits : Limits} (hmin : 0 ≤ limits.minListLimit)
    (hmax : 0 ≤ limits.maxListLimit) (values : Json → Prop) :
    (Walk.overValues limits values).Paged := by
  rintro _ n ⟨levels, items, m, -, hsize, rfl⟩ heq
  rw [← Option.some.inj heq]
  exact Inference.pageSize_nonneg hmin hmax hsize

theorem Walk.paged_overProperties (keys : List String → Prop) :
    (Walk.overProperties keys).Paged := by
  rintro _ n rfl heq
  cases heq

section Formed

variable {walk : Walk} {names : String → Prop} {place owner : String} {type : TypeRef}

theorem TypeRef.FormedAt.paged (h : type.FormedAt walk names place) (hpaged : walk.Paged) :
    Field.Paged (Field.pageArguments type) := by
  cases h with
  | list hpage _ => exact Field.paged_list _ fun n heq => hpaged _ n hpage heq
  | _ => exact Field.paged_nil

theorem Walk.paged_arguments (h : Field.Paged (Field.pageArguments type)) :
    Field.Paged (walk.arguments type) := by
  rw [arguments]
  split
  · exact Field.paged_nil
  · exact h

/-- The type of a list leads to names below the place of its elements, which
have underscores. -/
theorem TypeRef.FormedAt.underscored {item : TypeRef} {page : Option Int}
    (h : (TypeRef.list item page).FormedAt walk names place) :
    (TypeRef.list item page).Inside Underscored := by
  cases h with
  | list _ hitem => exact hitem.inside.imp fun _ hname => hname.2.underscored (underscored_item _)

/-- A type that is formed by a walk can be selected from: its fields are
named after keys or stand for an empty object, and they lead to places of
their own. -/
theorem NamedType.Formed.selectable {type : NamedType} (h : type.Formed walk names owner)
    (hpaged : walk.Paged) : type.Selectable fun _ => True := by
  -- fields are named after keys, or the only one stands for an empty object
  rcases h.made with ⟨keys, -, hmade⟩ | ⟨-, hempty⟩
  · refine ⟨?_, ?_⟩
    · rw [fieldNames, hmade.names]
      exact (FieldName.assign_spec [] keys).1
    · intro field hfield
      obtain ⟨taken, key, hname⟩ := FieldName.exists_of_mem_assign (hmade.name_mem hfield)
      obtain ⟨member, -, hreader⟩ := hmade.exists_key hfield
      obtain ⟨htype, harguments⟩ := h.fields field hfield
      refine ⟨?_, ?_, ?_, ?_, ?_⟩
      · rw [hname]
        exact FieldName.fresh_isName taken (FieldName.sanitize_isName key)
      · rw [hname]
        exact FieldName.fresh_sanitize_ne_typename taken key
      · rw [hreader]
        exact fun _ _ => ⟨_, rfl⟩
      · rw [harguments]
        exact Walk.paged_arguments (htype.paged hpaged)
      · exact htype.inside.imp fun _ hother => hother.2.underscored (underscored_join owner _)
  · refine ⟨by simp [fieldNames, hempty], ?_⟩
    intro field hfield
    rw [hempty, List.mem_singleton] at hfield
    rw [hfield]
    exact Inference.selectable_emptyField

end Formed

namespace Registry

variable {walk : Walk} {names : String → Prop} {place : String} {types added types' : Registry}

/-- A walk keeps a registry selectable. -/
theorem Adds.selectable (h : types.Adds walk names place added types') (hpaged : walk.Paged)
    (htypes : types.Selectable) : types'.Selectable := by
  intro entry hentry
  rw [h.appended] at hentry
  rcases List.mem_append.mp hentry with hold | hadded
  · exact htypes entry hold
  · exact (h.formed entry hadded).selectable hpaged

/-- Below a place with an underscore a registry grows. -/
theorem Adds.grows (h : types.Adds walk names place added types') (hpaged : walk.Paged)
    (hplace : Underscored place) : types.Grows types' := by
  refine ⟨h.extends, ?_, ?_⟩
  · intro name hname
    -- whatever is added has a name below the place, so with an underscore
    have hfree : Entries.find? added name = none := by
      rw [← Option.not_isSome_iff_eq_none]
      intro hadded
      obtain ⟨entry, hentry, rfl⟩ :=
        List.mem_map.mp ((Entries.has_iff_mem_keys added name).mp hadded)
      exact hname ((h.below entry hentry).underscored hplace)
    rw [h.appended, Entries.find?_append, hfree, Option.or_none]
  · intro htypes name hname
    have hold := htypes name hname
    rw [Registry.typeNamed] at hold ⊢
    rw [h.appended, Entries.find?_append]
    cases hfind : Entries.find? types name with
    | some type =>
        rw [hfind] at hold
        exact hold
    | none =>
        rw [hfind] at hold
        cases hadded : Entries.find? added name with
        | some type => exact (h.formed _ (Entries.mem_of_find? hadded)).selectable hpaged
        | none => exact hold

end Registry

/-- Inference keeps registries selectable. -/
theorem Inference.inferType_keeps {limits : Limits} (hmin : 0 ≤ limits.minListLimit)
    (hmax : 0 ≤ limits.maxListLimit) (levels : Nat) {value : Json} {typeName : String}
    {conflicts : List String} {types types' : Registry} {type : TypeRef}
    (htypes : types.Selectable)
    (h : inferType limits levels value typeName conflicts types = .ok (type, types')) :
    types'.Selectable := by
  obtain ⟨added, hadds, -⟩ := inferType_finds (hereditary_all limits) levels trivial h
  exact hadds.selectable (Walk.paged_overValues hmin hmax _) htypes

/-- The input types of a request body are selectable types, with underscores in
their names. -/
theorem InputType.ofProperties_grows {properties : List (String × Property)} {levels : Nat}
    {typeName name : String} {types types' : Registry} (hname : Underscored typeName)
    (h : ofProperties properties levels typeName types = .ok (name, types')) :
    types.Grows types' := by
  obtain ⟨added, hadds, -⟩ :=
    ofProperties_finds (fun _ => True) (fun _ _ => trivial) trivial h
  exact hadds.grows (Walk.paged_overProperties _) hname

end JsonSelection
