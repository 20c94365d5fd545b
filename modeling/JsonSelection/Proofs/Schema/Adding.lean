import JsonSelection.Proofs.Schema.Selectable

/-!
# Types that are added

Inference and the reading of a request body add types at the end of a registry.
An added type has the name under which it is registered, at least one field, and
fields of distinct names.

## What this module delivers

- `NamedType.Legible`: a type that can be printed.
- `NamedType.Declared`: such a type, as an input or an output type, under its
  own name.
- `Registry.AddsOutputs`, `Registry.AddsInputs`: what is added to a registry.
- `Inference.inferType_adds`: inference adds output types.
- `InputType.ofProperties_adds`: a request body adds input types, whose fields
  lead to added types only.

All of it is read off what a walk leaves behind, which `Proofs/Schema/Formation`
describes.
-/

set_option autoImplicit false

namespace JsonSelection

namespace NamedType

/-- A type that can be printed: it has a field, and its fields have distinct
names. A block without fields would be no definition. -/
structure Legible (type : NamedType) : Prop where
  filled : type.fields ≠ []
  distinct : type.fieldNames.Nodup
  names : ∀ name ∈ type.fieldNames, Token.IsName name

/-- Fields that are made for some keys make a type that can be printed. -/
theorem legible_of_madeFor {type : NamedType} {key : String} {rest : List String}
    (h : Field.MadeFor [] (key :: rest) type.fields) : type.Legible := by
  obtain ⟨hdistinct, hnames⟩ := FieldName.assign_spec [] (key :: rest)
  have hassigned : type.fieldNames = FieldName.assign [] (key :: rest) := h.names
  refine ⟨?_, hassigned ▸ hdistinct, ?_⟩
  · intro hnone
    rw [fieldNames, hnone] at hassigned
    cases hassigned
  · intro name hname
    rw [hassigned] at hname
    exact (hnames name hname).1

/-- A type that can be printed with a single field. -/
theorem legible_single {type : NamedType} {field : Field} (h : type.fields = [field])
    (hname : Token.IsName field.name) : type.Legible := by
  have hnames : type.fieldNames = [field.name] := by
    rw [fieldNames, h, List.map_singleton]
  refine ⟨by rw [h]; exact List.cons_ne_nil _ _, ?_, ?_⟩
  · rw [hnames]
    exact List.pairwise_singleton _ _
  · intro name hmem
    rw [hnames] at hmem
    rw [List.mem_singleton.mp hmem]
    exact hname

/-- A type under its own name, which is a name that can be printed. Whether it
is an input type shows in the keyword of its block. -/
structure Declared (isInput : Bool) (name : String) (type : NamedType) : Prop where
  own : type.name = name
  kind : type.isInput = isInput
  title : Token.IsName name
  legible : type.Legible

/-- The fields of an input type take no arguments, and lead to input types among
some names. -/
def LeadsTo (names : List String) (type : NamedType) : Prop :=
  ∀ field ∈ type.fields, field.arguments = [] ∧ field.type.Inside (· ∈ names)

end NamedType

namespace Registry

/-- Output types are added at the end of a registry. Each of them is declared
under its name. -/
def AddsOutputs (types types' : Registry) : Prop :=
  ∃ added, types' = types ++ added ∧ ∀ entry ∈ added, entry.2.Declared false entry.1

theorem AddsOutputs.refl (types : Registry) : AddsOutputs types types :=
  ⟨[], (List.append_nil types).symm, by simp⟩

/-- Input types are added at the end of a registry under free names, and they
lead to each other only. -/
structure AddsInputs (types added types' : Registry) : Prop where
  appended : types' = types ++ added
  free : ∀ entry ∈ added, entry.1 ∉ Entries.keys types
  declared : ∀ entry ∈ added, entry.2.Declared true entry.1
  leads : ∀ entry ∈ added, entry.2.LeadsTo (Entries.keys added)

theorem addsInputs_nil (types : Registry) : AddsInputs types [] types :=
  ⟨(List.append_nil types).symm, by simp, by simp, by simp⟩

end Registry

/-! ### Types that are formed by a walk

A type without fields cannot be printed. A walk over values never makes one,
because an empty object gets a field of its own; a walk over properties is only
begun when there are some. -/

section Formed

variable {walk : Walk} {names : String → Prop} {place : String} {types added types' : Registry}

/-- What is known of a walk that makes no type without fields. -/
def Walk.Filled (walk : Walk) : Prop :=
  ∀ keys, walk.keys keys → keys ≠ []

theorem Walk.filled_overValues (limits : Limits) (values : Json → Prop) :
    (Walk.overValues limits values).Filled := by
  rintro _ ⟨entries, hfilled, -, rfl⟩ hnone
  exact hfilled (List.map_eq_nil_iff.mp hnone)

/-- A type that a walk adds is declared under its name, if that name can be
printed. -/
theorem NamedType.Formed.declared {type : NamedType} (h : type.Formed walk names place)
    (hfilled : walk.Filled) (hplace : Token.IsName place) : type.Declared walk.isInput place := by
  refine ⟨h.own, h.kind, hplace, ?_⟩
  rcases h.made with ⟨keys, hkeys, hmade⟩ | ⟨-, hempty⟩
  · cases keys with
    | nil => exact absurd rfl (hfilled [] hkeys)
    | cons key rest => exact legible_of_madeFor hmade
  · exact legible_single hempty Inference.selectable_emptyField.name

theorem Registry.Adds.declared (h : types.Adds walk names place added types')
    (hfilled : walk.Filled) (hplace : Token.IsName place) {entry : String × NamedType}
    (hentry : entry ∈ added) : entry.2.Declared walk.isInput entry.1 :=
  (h.formed entry hentry).declared hfilled ((h.below entry hentry).isName hplace)

/-- The types that a walk over values adds are output types. -/
theorem Registry.Adds.outputs (h : types.Adds walk names place added types')
    (houtput : walk.isInput = false) (hfilled : walk.Filled) (hplace : Token.IsName place) :
    types.AddsOutputs types' := by
  refine ⟨added, h.appended, ?_⟩
  intro entry hentry
  rw [← houtput]
  exact h.declared hfilled hplace hentry

/-- The types that a walk over properties adds are input types, which lead to
each other only. -/
theorem Registry.Adds.inputs (h : types.Adds walk (walk.Scope types added) place added types')
    (hinput : walk.isInput = true) (hfilled : walk.Filled) (hplace : Token.IsName place) :
    types.AddsInputs added types' := by
  refine ⟨h.appended, h.free, ?_, ?_⟩
  · intro entry hentry
    rw [← hinput]
    exact h.declared hfilled hplace hentry
  · intro entry hentry field hfield
    obtain ⟨htype, harguments⟩ := (h.formed entry hentry).fields field hfield
    refine ⟨?_, htype.inside.imp ?_⟩
    · rw [harguments, Walk.arguments, hinput]
      rfl
    · rintro name ⟨hadded | ⟨houtput, -⟩, -⟩
      · exact hadded
      · rw [hinput] at houtput
        cases houtput

end Formed

/-- Inference adds output types. -/
theorem Inference.inferType_adds (limits : Limits) (levels : Nat) {value : Json}
    {typeName : String} {conflicts : List String} {types types' : Registry} {type : TypeRef}
    (htypeName : Token.IsName typeName)
    (h : inferType limits levels value typeName conflicts types = .ok (type, types')) :
    types.AddsOutputs types' := by
  obtain ⟨added, hadds, -⟩ := inferType_finds (hereditary_all limits) levels trivial h
  exact hadds.outputs rfl (Walk.filled_overValues limits _) htypeName

/-- The input type of some properties is added with the types that it leads to,
all of them below its own place. -/
theorem InputType.ofProperties_adds {properties : List (String × Property)} {levels : Nat}
    {typeName name : String} {types types' : Registry} (hfilled : properties ≠ [])
    (htypeName : Token.IsName typeName)
    (h : ofProperties properties levels typeName types = .ok (name, types')) :
    ∃ added, types.AddsInputs added types' ∧
    (∀ other ∈ Entries.keys added, Below typeName other) ∧
      name ∈ Entries.keys added := by
  have hnames : properties.map Prod.fst ≠ [] :=
    fun hnone => hfilled (List.map_eq_nil_iff.mp hnone)
  obtain ⟨added, hadds, hformed⟩ :=
    ofProperties_finds (fun names => names ≠ []) (fun _ => id) hnames h
  refine ⟨added, hadds.inputs rfl (fun _ => id) htypeName, ?_, ?_⟩
  · intro other hother
    obtain ⟨entry, hentry, rfl⟩ := List.mem_map.mp hother
    exact hadds.below entry hentry
  · obtain ⟨hadded | ⟨houtput, -⟩, -⟩ := hformed.inside name rfl
    · exact hadded
    · cases houtput

end JsonSelection
