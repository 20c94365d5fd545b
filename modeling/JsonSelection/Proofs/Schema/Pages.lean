import JsonSelection.Proofs.Schema.Closed

/-!
# Pages that a schema advertises

Every list in the type of an output field has a page size between the limits of
the schema, and an output field takes the arguments of a page exactly when it is
a list (`Field.Advertises`). The default of its limit is the size of that list.

This holds of the query root and of every registered type that is no input type
(`Schema.advertises_of_build`). The mutation root is left out: it has a single
field, which gives the query root, and the arguments of that field are those of
the body.
-/

set_option autoImplicit false

namespace JsonSelection

/-- Page sizes between the least and the greatest one. There are none if these
are in the wrong order. -/
def Limits.AllowsPage (limits : Limits) (page : Int) : Prop :=
  limits.minListLimit ≤ page ∧ page ≤ limits.maxListLimit

namespace Cost

variable {limits : Limits}

theorem allowsPage_clampPage (h : limits.minListLimit ≤ limits.maxListLimit) (count : Int) :
    limits.AllowsPage (clampPage limits count) := by
  rw [Limits.AllowsPage, clampPage]
  omega

/-- The size of a page keeps to the limits. -/
theorem allowsPage_pageSize (h : limits.minListLimit ≤ limits.maxListLimit) (levels : Nat)
    (items : List Json) (page : Int) (hpage : pageSize limits levels items = .ok page) :
    limits.AllowsPage page := by
  cases items with
  | nil =>
      obtain rfl := Except.ok.inj hpage
      exact ⟨h, Int.le_refl _⟩
  | cons item rest =>
      obtain ⟨cost, -, rfl⟩ := Outcome.map_eq_ok_iff.mp hpage
      exact allowsPage_clampPage h _

end Cost

theorem TypeRef.Output.pages_all {names : String → Prop} {allows : Int → Prop} {type : TypeRef}
    (h : type.Output names allows) : ∀ size ∈ type.pages, ∃ page, size = some page ∧
    allows page := by
  induction h with
  | scalar _ => exact fun _ hsize => nomatch hsize
  | json => exact fun _ hsize => nomatch hsize
  | named _ => exact fun _ hsize => nomatch hsize
  | @list item page _ hpage ih =>
      intro size hsize
      rcases List.mem_cons.mp hsize with rfl | hsize
      · exact ⟨page, rfl, hpage⟩
      · exact ih size hsize

/-- A field that advertises the pages of its lists: each has a size between the
limits, and the field takes a limit and an offset exactly when it is a list. The
limit defaults to the size of that list, the offset to zero. -/
structure Field.Advertises (limits : Limits) (field : Field) : Prop where
  sizes : ∀ size ∈ field.type.pages, ∃ page, size = some page ∧ limits.AllowsPage page
  arguments : field.arguments =
    match field.type with
    | .list _ size => [⟨"limit", .scalar .int, size⟩, ⟨"offset", .scalar .int, some 0⟩]
    | _ => []

theorem Field.Output.advertises {limits : Limits} {names : String → Prop}
    {sources : Json → Prop} {field : Field} (h : field.Output names limits.AllowsPage sources) :
    field.Advertises limits :=
  ⟨h.type.pages_all, h.arguments⟩

namespace Schema

variable {limits : Limits} {data : Json} {method path : String} {body : Option Json}
  {schema : Schema} {pages : Int → Prop}

/-- What can stand in a registry: a type of output fields, an input type, whose
fields take no arguments, and the mutation root. -/
inductive Registered (schema : Schema) (pages : Int → Prop) (type : NamedType) : Prop where
  | output {names : String → Prop} {sources : Json → Prop} : type.isInput = false →
      type.Output names pages sources → Registered schema pages type
  | input : type.isInput = true → (∀ field ∈ type.fields, field.arguments = []) →
      Registered schema pages type
  | mutation : schema.mutation = some type → Registered schema pages type

/-- The types that are registered for a response are types of output fields. -/
theorem registered_of_response {query : NamedType} {types : Registry} {sources : Json → Prop}
    (hquery : query.Declared false "Query") (hfields : query.Output types.Offered pages sources)
    (hadds : Registry.AddsOutputs [] types) (htypes : types.Output pages)
    {entry : String × NamedType} (hentry : entry ∈ Entries.put types "Query" query) :
    schema.Registered pages entry.2 := by
  rcases Entries.mem_put hentry with hentry | rfl
  · obtain ⟨added, rfl, hadded⟩ := hadds
    exact .output (hadded entry hentry).kind (htypes entry hentry)
  · exact .output hquery.kind hfields

/-- Nothing else is registered in a schema that is built. -/
theorem registered_of_build
    (hpages : ∀ levels items page, Cost.pageSize limits levels items = .ok page → pages page)
    (h : build limits data method path body = .ok schema) {entry : String × NamedType}
    (hentry : entry ∈ schema.types) : schema.Registered pages entry.2 := by
  obtain ⟨types, hroot, horigins⟩ := origins_of_build h
  cases horigins entry hentry with
  | response hentry =>
      obtain ⟨hquery, hadds⟩ := queryRoot_declared (TypeName.derive_isName _ path) hroot
      obtain ⟨hfields, htypes⟩ := queryRoot_offers hpages hroot
      exact registered_of_response hquery hfields hadds htypes hentry
  | input _ hadds _ hnew =>
      refine .input (hadds.declared entry hnew).kind ?_
      intro field hfield
      exact (hadds.leads entry hnew field hfield).1
  | mutation _ _ _ hsome => exact .mutation hsome

/-- The fields of the query root, and of every registered type that is no input
type, advertise their pages. The mutation root is the exception: it has a single
field, which gives the query root. -/
structure Advertises (schema : Schema) (limits : Limits) : Prop where
  query : ∀ field ∈ schema.query.fields, field.Advertises limits
  registered : ∀ entry ∈ schema.types, entry.2.isInput = false →
    schema.mutation ≠ some entry.2 →
    ∀ field ∈ entry.2.fields, field.Advertises limits
  mutation : ∀ root, schema.mutation = some root →
    ∃ field, root.fields = [field] ∧ field.type = .named "Query"

theorem advertises_of_build (hlimits : limits.minListLimit ≤ limits.maxListLimit)
    (h : build limits data method path body = .ok schema) : schema.Advertises limits := by
  have hpages := Cost.allowsPage_pageSize hlimits
  obtain ⟨names, hoffers⟩ := offers_of_build hpages h
  refine ⟨fun field hfield => (hoffers.query field hfield).advertises, ?_, ?_⟩
  · intro entry hentry hkind hroot field hfield
    cases registered_of_build hpages h hentry with
    | output _ houtput => exact (houtput field hfield).advertises
    | input hinput _ =>
        rw [hkind] at hinput
        cases hinput
    | mutation hsome => exact absurd hsome hroot
  · intro root hsome
    obtain ⟨field, hfields, hmutation⟩ := hoffers.mutation root hsome
    exact ⟨field, hfields, hmutation.type⟩

end Schema

end JsonSelection
