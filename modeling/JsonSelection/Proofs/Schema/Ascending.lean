import JsonSelection.Proofs.Schema.Closed
import JsonSelection.Proofs.Schema.Plain
import Mathlib.Logic.Relation

/-!
# Types lead to longer names

A type below an object or a list is named after it, so its name is longer. This
is why no type leads to itself, even though types are found by their names and
names may be shared.

## What this module delivers

- `NamedType.LeadsUp`: the fields of a type lead to longer names.
- `Inference.inferType_climbs`, `InputType.ofProperties_climbs`: inference and
  the reading of a request body only add types of this form.
- `Schema.rank`: the roots have short names of their own, so they are put first.
- `Schema.rank_lt_of_refers`: every reference in a schema that is built goes to
  a type of higher rank.
- `Schema.irreflexive_refers`: no type leads to itself, in however many steps.
-/

set_option autoImplicit false

namespace JsonSelection

/-- Every field of a type leads to names that are longer than its own. Scalars
and raw JSON lead nowhere. -/
def NamedType.LeadsUp (name : String) (type : NamedType) : Prop :=
  ∀ field ∈ type.fields, field.type.Inside fun other => name.length < other.length

/-- A field leads to places below its own, whose names are longer than that of
its type. -/
theorem NamedType.Formed.leadsUp {walk : Walk} {names : String → Prop} {owner : String}
    {type : NamedType} (h : type.Formed walk names owner) : type.LeadsUp owner := by
  intro field hfield
  refine (h.fields field hfield).type.inside.imp ?_
  rintro other ⟨-, hbelow⟩
  exact Nat.lt_of_lt_of_le (Inference.length_lt_join owner field.name) hbelow.length_le

namespace Registry

/-- The types that are new in a registry lead to longer names. -/
def Climbs (types types' : Registry) : Prop :=
  ∀ entry ∈ types', entry ∈ types ∨ entry.2.LeadsUp entry.1

theorem Climbs.refl (types : Registry) : Climbs types types :=
  fun _ hentry => Or.inl hentry

/-- Whatever a walk adds leads to longer names. -/
theorem Adds.climbs {walk : Walk} {names : String → Prop} {place : String}
    {types added types' : Registry} (h : types.Adds walk names place added types') :
    types.Climbs types' := by
  intro entry hentry
  rw [h.appended] at hentry
  rcases List.mem_append.mp hentry with hold | hadded
  · exact Or.inl hold
  · exact Or.inr (h.formed entry hadded).leadsUp

end Registry

theorem Inference.inferType_climbs (limits : Limits) (levels : Nat) {value : Json}
    {typeName : String} {conflicts : List String} {types types' : Registry} {type : TypeRef}
    (h : inferType limits levels value typeName conflicts types = .ok (type, types')) :
    types.Climbs types' := by
  obtain ⟨added, hadds, -⟩ := inferType_finds (hereditary_all limits) levels trivial h
  exact hadds.climbs

theorem InputType.ofProperties_climbs {properties : List (String × Property)} {levels : Nat}
    {typeName name : String} {types types' : Registry}
    (h : ofProperties properties levels typeName types = .ok (name, types')) :
    types.Climbs types' := by
  obtain ⟨added, hadds, -⟩ :=
    ofProperties_finds (fun _ => True) (fun _ _ => trivial) trivial h
  exact hadds.climbs

/-! ### Schemas

The mutation root leads to the query root and to input types, and nothing else
leads to a root. All other types come from a walk. -/

namespace Schema

variable {limits : Limits} {data : Json} {method path baseName : String} {body : Option Json}
  {schema : Schema}

/-- A type has a field or an argument whose type leads to another type. Wrappers
around the other type do not matter. -/
def Refers (schema : Schema) (name other : String) : Prop :=
  other ∈ (schema.typeNamed name).references

/-- How far a name is from the roots: they come first, and then all other names
by their length. -/
def rank (name : String) : Nat :=
  if name = "Mutation" then 0 else if name = "Query" then 1 else name.length + 2

theorem rank_of_underscored {name : String} (h : Underscored name) :
    rank name = name.length + 2 := by
  obtain ⟨hquery, hmutation⟩ := ne_of_underscored h
  rw [rank, if_neg hmutation, if_neg hquery]

theorem rank_le (name : String) : rank name ≤ name.length + 2 := by
  rw [rank]
  split
  · omega
  · split <;> omega

theorem rank_lt_of_length {name other : String} (hother : Underscored other)
    (h : name.length < other.length) : rank name < rank other := by
  have hle := rank_le name
  rw [rank_of_underscored hother]
  omega

/-- A type under a name refers to names of higher rank only. A schema of such
types has no cycle. -/
def Ranked (name : String) (type : NamedType) : Prop :=
  ∀ other ∈ type.references, rank name < rank other

theorem ranked_iff {name : String} {type : NamedType} : Ranked name type ↔
    ∀ field ∈ type.fields,
    (field.type.Inside fun other => rank name < rank other) ∧
      ∀ argument ∈ field.arguments, argument.type.Inside fun other =>
        rank name < rank other := by
  constructor
  · intro h field hfield
    refine ⟨?_, ?_⟩
    · intro other hother
      exact h other (reference_iff.mpr ⟨field, hfield, Or.inl hother⟩)
    · intro argument hargument other hother
      exact h other (reference_iff.mpr ⟨field, hfield,
        Or.inr ⟨argument, hargument, hother⟩⟩)
  · intro h other hother
    obtain ⟨field, hfield, hinside | ⟨argument, hargument, hinside⟩⟩ :=
      reference_iff.mp hother
    · exact (h field hfield).1 other hinside
    · exact (h field hfield).2 argument hargument other hinside

/-- An output type that leads to types of the response is ranked when their
names rank above its own. -/
theorem ranked_of_output {types : Registry} {sources : Json → Prop} {name : String}
    {type : NamedType} (houtput : type.Output types.Offered AnyPage sources)
    (h : ∀ field ∈ type.fields, ∀ other, field.type.namedInside? = some other →
      Underscored other →
      rank name < rank other) : Ranked name type := by
  rw [ranked_iff]
  intro field hfield
  refine ⟨?_, ?_⟩
  · intro other hother
    exact h field hfield other hother (inside_of_output (houtput field hfield).type other hother).1
  · rw [(houtput field hfield).arguments]
    exact inside_pageArguments field.type _

/-- The types that are registered for a response, its root among them, are ranked. -/
theorem ranked_of_response {query : NamedType} {types : Registry}
    (h : queryRoot limits data baseName = .ok (query, types)) (hclimbs : Registry.Climbs [] types)
    {entry : String × NamedType} (hentry : entry ∈ Entries.put types "Query" query) :
    Ranked entry.1 entry.2 := by
  obtain ⟨hfields, htypes⟩ := queryRoot_offers (anyPage limits) h
  rcases Entries.mem_put hentry with hentry | rfl
  · have hup : entry.2.LeadsUp entry.1 :=
      (hclimbs entry hentry).resolve_left fun hnone => List.not_mem_nil hnone
    apply ranked_of_output (htypes entry hentry)
    intro field hfield other hother hunderscored
    exact rank_lt_of_length hunderscored (hup field hfield other hother)
  · apply ranked_of_output hfields
    intro field _ other _ hunderscored
    have hquery : rank "Query" = 1 := rfl
    rw [hquery, rank_of_underscored hunderscored]
    omega

theorem itemsType_climbs {items : List Json} {type : TypeRef} {types : Registry}
    (h : itemsType limits items baseName = .ok (type, types)) : Registry.Climbs [] types := by
  simp only [itemsType] at h
  split at h
  · obtain ⟨page, -, heq⟩ := Outcome.map_eq_ok_iff.mp h
    obtain ⟨-, rfl⟩ := Prod.mk.inj heq
    exact .refl []
  · exact Inference.inferType_climbs limits _ h

theorem queryRoot_climbs {query : NamedType} {types : Registry}
    (h : queryRoot limits data baseName = .ok (query, types)) : Registry.Climbs [] types := by
  cases data with
  | arr items =>
      obtain ⟨⟨type, types'⟩, htype, heq⟩ := Outcome.map_eq_ok_iff.mp h
      obtain ⟨-, rfl⟩ := Prod.mk.inj heq
      exact itemsType_climbs htype
  | obj entries =>
      obtain ⟨⟨type, types'⟩, htype, heq⟩ := Outcome.map_eq_ok_iff.mp h
      have hclimbs := Inference.inferType_climbs limits _ htype
      simp only at heq
      split at heq
      · obtain ⟨-, rfl⟩ := Prod.mk.inj heq
        exact hclimbs
      · obtain ⟨-, rfl⟩ := Prod.mk.inj heq
        exact hclimbs
  | _ =>
      obtain ⟨-, rfl⟩ := Prod.mk.inj (Except.ok.inj h)
      exact .refl []

/-- What a mutation takes adds input types that lead to longer names. -/
theorem takes_climbs {types types' : Registry} {properties : List (String × Property)}
    {arguments : List Argument} (h : Takes limits baseName types properties arguments types') :
    types.Climbs types' := by
  cases h with
  | nothing => exact .refl types
  | input _ hinput => exact InputType.ofProperties_climbs hinput

/-- The input types of a request body are ranked, too. -/
theorem ranked_of_input {types added types' : Registry} (hadds : types.AddsInputs added types')
    (hunderscored : ∀ name ∈ Entries.keys added, Underscored name) {entry : String × NamedType}
    (hentry : entry ∈ added) (hup : entry.2.LeadsUp entry.1) : Ranked entry.1 entry.2 := by
  rw [ranked_iff]
  intro field hfield
  obtain ⟨hnone, hinside⟩ := hadds.leads entry hentry field hfield
  refine ⟨?_, ?_⟩
  · intro other hother
    exact rank_lt_of_length (hunderscored other (hinside other hother))
      (hup field hfield other hother)
  · rw [hnone]
    exact fun _ hargument => nomatch hargument

/-- The mutation root refers to the query root and to input types. -/
theorem ranked_of_mutation {names : List String} (method baseName : String)
    {arguments : List Argument} (hunderscored : ∀ name ∈ names, Underscored name)
    (h : ∀ argument ∈ arguments, argument.type.Inside (· ∈ names)) :
    Ranked "Mutation" ⟨"Mutation", [mutationField method baseName arguments], false⟩ := by
  have hmutation : rank "Mutation" = 0 := rfl
  rw [ranked_iff]
  intro field hfield
  rw [List.mem_singleton.mp hfield, hmutation]
  refine ⟨?_, ?_⟩
  · intro other hother
    rw [← Option.some.inj hother]
    decide
  · intro argument hargument other hother
    rw [rank_of_underscored (hunderscored other (h argument hargument other hother))]
    omega

/-- Every type of a schema that is built refers to names of higher rank only. -/
theorem ranked_of_build (h : build limits data method path body = .ok schema)
    {entry : String × NamedType} (hentry : entry ∈ schema.types) : Ranked entry.1 entry.2 := by
  obtain ⟨types, hroot, horigins⟩ := origins_of_build h
  have hresponse := queryRoot_climbs hroot
  cases horigins entry hentry with
  | response hentry => exact ranked_of_response hroot hresponse hentry
  | input htakes hadds hunderscored hnew =>
      have hlast := List.mem_append_right (Entries.put types "Query" schema.query) hnew
      rw [← hadds.appended] at hlast
      rcases takes_climbs htakes entry hlast with hold | hup
      · exact ranked_of_response hroot hresponse hold
      · exact ranked_of_input hadds hunderscored hnew hup
  | mutation hunderscored harguments heq _ =>
      rw [heq]
      exact ranked_of_mutation _ _ hunderscored harguments

theorem rank_lt_of_refers (h : build limits data method path body = .ok schema)
    {name other : String} (hrefers : schema.Refers name other) : rank name < rank other := by
  rw [Refers, typeNamed, Registry.typeNamed] at hrefers
  cases hfind : Entries.find? schema.types name with
  | none =>
      rw [hfind] at hrefers
      cases hrefers
  | some type =>
      rw [hfind] at hrefers
      exact ranked_of_build h (Entries.mem_of_find? hfind) other hrefers

/-- No type of a schema that is built leads to itself, however far. -/
theorem irreflexive_refers (h : build limits data method path body = .ok schema) (name : String) :
    ¬ Relation.TransGen schema.Refers name name := by
  have hrank : ∀ other, Relation.TransGen schema.Refers name other →
      rank name < rank other := by
    intro other hpath
    induction hpath with
    | single hrefers => exact rank_lt_of_refers h hrefers
    | tail _ hrefers ih => exact Nat.lt_trans ih (rank_lt_of_refers h hrefers)
  intro hcycle
  exact Nat.lt_irrefl _ (hrank name hcycle)

end Schema

end JsonSelection
