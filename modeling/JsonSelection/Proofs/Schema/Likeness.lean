import JsonSelection.Proofs.Schema.Reaching

/-!
# Schemas that are alike

Two schemas are alike when their walks meet types of the same names, and types
of one name have the same fields up to their order and the page sizes of lists
(`Schema.Alike`). It is enough that each type has all fields of the other one
(`Schema.alike_of_within`).

Page sizes are left out because they come from the costs of the values that were
looked at. They stand in two places, in the type of a list and in the default of
the argument that limits its page; `Field.unpaged` drops both.
-/

set_option autoImplicit false

namespace JsonSelection

namespace TypeRef

/-- A type without the page sizes of its lists. -/
def unpaged : TypeRef → TypeRef
  | list item _ => list item.unpaged none
  | nonNull inner => nonNull inner.unpaged
  | type => type

theorem namedInside?_unpaged (type : TypeRef) : type.unpaged.namedInside? = type.namedInside? := by
  have hinnermost : type.unpaged.innermost = type.innermost := by
    induction type with
    | list item page ih => exact ih
    | nonNull inner ih => exact ih
    | _ => rfl
  rw [namedInside?, namedInside?, hinnermost]

end TypeRef

/-- An argument without the page size that it stands for. -/
def Argument.unpaged (argument : Argument) : Argument :=
  { argument with default := if argument.name = "limit" then none else argument.default }

namespace Field

/-- A field without the page sizes of its lists. -/
def unpaged (field : Field) : Field :=
  { field with
    type := field.type.unpaged
    arguments := field.arguments.map Argument.unpaged }

@[simp] theorem reader_unpaged (field : Field) : field.unpaged.reader = field.reader := rfl

/-- The arguments of a list field depend on the page size of the list only. -/
theorem pageArguments_unpaged {type other : TypeRef} (h : type.unpaged = other.unpaged) :
    (pageArguments type).map Argument.unpaged = (pageArguments other).map Argument.unpaged := by
  cases type with
  | list item page =>
      cases other with
      | list item' page' => simp [pageArguments, Argument.unpaged]
      | _ => cases h
  | _ =>
      cases other with
      | list item' page' => cases h
      | _ => rfl

/-- The names of the object types in a field and its arguments. Page sizes do
not show in them. -/
def references (field : Field) : List String :=
  (field.type :: field.arguments.map Argument.type).filterMap TypeRef.namedInside?

theorem references_unpaged (field : Field) : field.unpaged.references = field.references := by
  have harguments : (field.arguments.map Argument.unpaged).map Argument.type =
      field.arguments.map Argument.type := by
    rw [List.map_map]
    rfl
  simp only [references, unpaged, harguments, List.filterMap_cons, TypeRef.namedInside?_unpaged]

end Field

namespace NamedType

/-- A type has all fields of another one, up to page sizes. It may have more,
and in any order. -/
def Within (type other : NamedType) : Prop :=
  type.fields.map Field.unpaged ⊆ other.fields.map Field.unpaged

theorem within_refl (type : NamedType) : type.Within type :=
  List.Subset.refl _

theorem mem_references_iff (type : NamedType) (name : String) :
    name ∈ type.references ↔ ∃ field ∈ type.fields, name ∈ field.references :=
  List.mem_flatMap

theorem Within.references {type other : NamedType} (h : type.Within other) :
    type.references ⊆ other.references := by
  intro name hname
  obtain ⟨field, hfield, hreference⟩ := (mem_references_iff type name).mp hname
  obtain ⟨field', hfield', heq⟩ := List.mem_map.mp (h (List.mem_map_of_mem hfield))
  rw [← Field.references_unpaged, ← heq, Field.references_unpaged] at hreference
  exact (mem_references_iff other name).mpr ⟨field', hfield', hreference⟩

theorem nodup_unpaged {type : NamedType} (h : type.fieldNames.Nodup) :
    (type.fields.map Field.unpaged).Nodup := by
  have hnames : (type.fields.map Field.unpaged).map Field.name = type.fieldNames := by
    rw [List.map_map]
    rfl
  rw [← hnames, List.Nodup, List.pairwise_map] at h
  exact h.imp fun hne heq => hne (congrArg Field.name heq)

end NamedType

namespace Schema

/-- Two schemas that differ in the order of fields and in page sizes at most.
Their walks meet the same names, and the types of every name have the same
fields. -/
structure Alike (schema other : Schema) : Prop where
  reachable : ∀ name, name ∈ schema.reachable.map NamedType.name ↔
    name ∈ other.reachable.map NamedType.name
  types : ∀ name, ((schema.typeNamed name).fields.map Field.unpaged).Perm
    ((other.typeNamed name).fields.map Field.unpaged)

theorem Reaches.within {schema other : Schema} (hroots : schema.roots = other.roots)
    (h : ∀ name, (schema.typeNamed name).Within (other.typeNamed name)) {name : String}
    (hreaches : schema.Reaches name) : other.Reaches name := by
  induction hreaches with
  | root hroot => exact .root (hroots ▸ hroot)
  | reference _ hreference ih => exact .reference ih ((h _).references hreference)

/-- Schemas are alike when each has all fields of the other one. -/
theorem alike_of_within {schema other : Schema} (hself : schema.SelfNamed)
    (hself' : other.SelfNamed) (hnodup : ∀ name, (schema.typeNamed name).fieldNames.Nodup)
    (hnodup' : ∀ name, (other.typeNamed name).fieldNames.Nodup)
    (hroots : schema.roots = other.roots)
    (h : ∀ name, (schema.typeNamed name).Within (other.typeNamed name))
    (h' : ∀ name, (other.typeNamed name).Within (schema.typeNamed name)) :
    schema.Alike other := by
  refine ⟨?_, ?_⟩
  · intro name
    rw [mem_reachable_iff hself, mem_reachable_iff hself']
    exact ⟨Reaches.within hroots h, Reaches.within hroots.symm h'⟩
  · intro name
    have hfirst := NamedType.nodup_unpaged (hnodup name)
    have hsecond := NamedType.nodup_unpaged (hnodup' name)
    exact (List.perm_ext_iff_of_nodup hfirst hsecond).mpr fun unpaged =>
      ⟨fun hmem => h name hmem, fun hmem => h' name hmem⟩

end Schema

end JsonSelection
