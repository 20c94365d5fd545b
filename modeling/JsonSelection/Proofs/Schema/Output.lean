import JsonSelection.Proofs.Schema.Serving

/-!
# Output types

The fields that a query can select are of output types: scalars, raw JSON, lists
with a page size, and object types that are registered. A field takes the
arguments of the page of its type and no others.

## What this module delivers

- `TypeRef.Output`, `Field.Output`, `NamedType.Output`: output types, fields of
  them, and types all of whose fields are such.
- `Inference.inferType_offers`: inference registers nothing else.
- `Schema.Offers`: a schema whose output fields lead to registered types again.
- `Schema.offers_of_build`: every schema that is built is of this form.

The statements are for any set of page sizes that all lists in the values have,
so that they can be used for the sizes of pages, too (`Proofs/Schema/Pages`).
-/

set_option autoImplicit false

namespace JsonSelection

namespace TypeRef

/-- A type of results, in which object types have names of some kind and lists
have pages of some kind. -/
inductive Output (names : String → Prop) (pages : Int → Prop) : TypeRef → Prop where
  | scalar (type : Scalar) : Output names pages (.scalar type)
  | json : Output names pages .json
  | list {item : TypeRef} {page : Int} :
      Output names pages item → pages page → Output names pages (.list item (some page))
  | named {name : String} : names name → Output names pages (.named name)

theorem Output.imp {names more : String → Prop} {pages : Int → Prop} {type : TypeRef}
    (h : type.Output names pages) (himp : ∀ name, names name → more name) :
    type.Output more pages := by
  induction h with
  | scalar type => exact .scalar type
  | json => exact .json
  | list _ hpage ih => exact .list ih hpage
  | named hname => exact .named (himp _ hname)

end TypeRef

/-- A field of an output type that takes the arguments of its page, and that can
be read from some sources. -/
structure Field.Output (names : String → Prop) (pages : Int → Prop) (sources : Json → Prop)
    (field : Field) : Prop where
  type : field.type.Output names pages
  arguments : field.arguments = Field.pageArguments field.type
  readable : ∀ source, sources source → ∃ value, field.reader.read source = .ok value

/-- A type all of whose fields are output fields. -/
def NamedType.Output (names : String → Prop) (pages : Int → Prop) (sources : Json → Prop)
    (type : NamedType) : Prop :=
  ∀ field ∈ type.fields, field.Output names pages sources

theorem Field.Output.imp {names more : String → Prop} {pages : Int → Prop}
    {sources fewer : Json → Prop} {field : Field} (h : field.Output names pages sources)
    (hnames : ∀ name, names name → more name)
    (hsources : ∀ source, fewer source → sources source) :
    field.Output more pages fewer :=
  ⟨h.type.imp hnames, h.arguments, fun source hsource =>
    h.readable source (hsources source hsource)⟩

theorem NamedType.Output.imp {names more : String → Prop} {pages : Int → Prop}
    {sources fewer : Json → Prop} {type : NamedType} (h : type.Output names pages sources)
    (hnames : ∀ name, names name → more name)
    (hsources : ∀ source, fewer source → sources source) :
    type.Output more pages fewer :=
  fun field hfield => (h field hfield).imp hnames hsources

namespace Registry

/-- A registered name that is not the name of a root. Such a name has an
underscore in it. -/
def Offered (types : Registry) (name : String) : Prop :=
  Underscored name ∧ types.has name = true

theorem Extends.offered {types types' : Registry} (h : Extends types types') (name : String)
    (hname : types.Offered name) : types'.Offered name :=
  ⟨hname.1, h.has hname.2⟩

/-- All registered types have output fields, which refer to registered types only. -/
def Output (pages : Int → Prop) (types : Registry) : Prop :=
  ∀ entry ∈ types, entry.2.Output types.Offered pages fun _ => True

theorem output_nil (pages : Int → Prop) : Output pages [] := by
  intro entry hentry
  cases hentry

theorem Output.typeNamed {pages : Int → Prop} {types : Registry} (h : types.Output pages)
    (name : String) : (types.typeNamed name).Output types.Offered pages fun _ => True := by
  rw [Registry.typeNamed]
  cases hfind : Entries.find? types name with
  | none =>
      intro field hfield
      cases hfield
  | some type => exact h _ (Entries.mem_of_find? hfind)

end Registry

/-! ### Types that are formed by a walk

A walk over values makes output types. What its types lead to is registered when
the walk is over, although it may not be when the type is made. -/

section Formed

variable {walk : Walk} {names : String → Prop} {pages : Int → Prop} {place owner : String}

/-- What is known of a walk that finds output types: it finds no input types,
and the lists that it finds have pages of some kind. -/
structure Walk.Offering (walk : Walk) (pages : Int → Prop) : Prop where
  output : walk.isInput = false
  sized : ∀ page, walk.pages page → ∃ n, page = some n ∧ pages n

theorem Walk.offering_overValues {limits : Limits}
    (hpages : ∀ levels items page, Cost.pageSize limits levels items = .ok page → pages page)
    (values : Json → Prop) : (Walk.overValues limits values).Offering pages where
  output := rfl
  sized := by
    rintro _ ⟨levels, items, n, -, hsize, rfl⟩
    exact ⟨n, rfl, hpages levels items n hsize⟩

theorem TypeRef.FormedAt.output {type : TypeRef} (h : type.FormedAt walk names place)
    (hwalk : walk.Offering pages) :
    type.Output (fun name => names name ∧ Below place name) pages := by
  induction h with
  | scalar place type => exact .scalar type
  | json place => exact .json
  | list hpage _ ih =>
      obtain ⟨n, rfl, hn⟩ := hwalk.sized _ hpage
      exact .list (ih.imp fun _ hname => ⟨hname.1, Below.trans (.item .here) hname.2⟩) hn
  | named htitled hname => exact .named ⟨hname, htitled.below⟩
  | nonNull hinput _ _ =>
      rw [hwalk.output] at hinput
      cases hinput

/-- The fields of a type that a walk adds are output fields, which lead to
places of their own. -/
theorem NamedType.Formed.output {type : NamedType} (h : type.Formed walk names owner)
    (hwalk : walk.Offering pages) :
    type.Output (fun name => Underscored name ∧ names name) pages fun _ => True := by
  intro field hfield
  obtain ⟨htype, harguments⟩ := h.fields field hfield
  refine ⟨?_, ?_, ?_⟩
  · exact (htype.output hwalk).imp fun _ hname =>
      ⟨hname.2.underscored (underscored_join owner _), hname.1⟩
  · rw [harguments, Walk.arguments, hwalk.output]
    rfl
  · rcases h.made with ⟨keys, -, hmade⟩ | ⟨-, hempty⟩
    · obtain ⟨key, -, hreader⟩ := hmade.exists_key hfield
      rw [hreader]
      exact fun _ _ => ⟨_, rfl⟩
    · rw [hempty, List.mem_singleton] at hfield
      rw [hfield]
      exact fun _ _ => ⟨.null, rfl⟩

end Formed

namespace Registry

variable {walk : Walk} {pages : Int → Prop} {place : String} {types added types' : Registry}

/-- Whatever types lead to after a walk is registered then. -/
theorem Adds.has_of_scope {names : String → Prop} (h : types.Adds walk names place added types')
    {name : String} (hname : walk.Scope types added name) : types'.has name = true := by
  rw [Entries.has_iff_mem_keys, h.appended, Entries.keys_append]
  exact hname.elim (List.mem_append_right _) fun hold => List.mem_append_left _ hold.2

/-- A walk that finds output types registers nothing else. -/
theorem Adds.output (h : types.Adds walk (walk.Scope types added) place added types')
    (hwalk : walk.Offering pages) (htypes : types.Output pages) : types'.Output pages := by
  intro entry hentry
  rw [h.appended] at hentry
  rcases List.mem_append.mp hentry with hold | hadded
  · exact (htypes entry hold).imp h.extends.offered fun _ => id
  · exact ((h.formed entry hadded).output hwalk).imp
      (fun _ hname => ⟨hname.1, h.has_of_scope hname.2⟩) fun _ => id

end Registry

/-- Inference gives output types, with the pages that lists can have, and
registers nothing else. The object types in the type that it gives are named as
told or are not named like a root. -/
theorem Inference.inferType_offers {pages : Int → Prop} {limits : Limits}
    (hpages : ∀ levels items page, Cost.pageSize limits levels items = .ok page → pages page)
    (levels : Nat) {value : Json} {typeName : String} {conflicts : List String}
    {types types' : Registry} {type : TypeRef} (htypes : types.Output pages)
    (h : inferType limits levels value typeName conflicts types = .ok (type, types')) :
    type.Output (fun name => (name = typeName ∨ Underscored name) ∧
      types'.has name = true) pages ∧
      types'.Output pages ∧ types.Extends types' := by
  obtain ⟨added, hadds, hformed⟩ := inferType_finds (hereditary_all limits) levels trivial h
  have hwalk := Walk.offering_overValues hpages fun _ => True
  refine ⟨?_, hadds.output hwalk htypes, hadds.extends⟩
  exact (hformed.output hwalk).imp fun _ hname =>
    ⟨hname.2.eq_or_underscored, hadds.has_of_scope hname.1⟩

/-- The type of a list leads to object types that are not named like a root. -/
theorem Inference.listType_offers {pages : Int → Prop} {limits : Limits}
    (hpages : ∀ levels items page, Cost.pageSize limits levels items = .ok page → pages page)
    {levels : Nat} {items : List Json} {typeName : String} {types types' : Registry}
    {type : TypeRef} (htypes : types.Output pages)
    (h : listType limits levels (inferType limits levels) items typeName types =
      .ok (type, types')) : type.Output types'.Offered pages ∧ types'.Output pages := by
  have hlist : inferType limits (levels + 1) (.arr items) typeName [] types = .ok (type, types') :=
    h
  obtain ⟨added, hadds, hformed⟩ :=
    inferType_finds (hereditary_all limits) (levels + 1) trivial hlist
  have hwalk := Walk.offering_overValues hpages fun _ => True
  refine ⟨?_, hadds.output hwalk htypes⟩
  rcases eq_json_or_list h with rfl | ⟨item, page, rfl⟩
  · exact .json
  · cases hformed with
    | list hpage hitem =>
        obtain ⟨n, rfl, hn⟩ := hwalk.sized _ hpage
        exact .list ((hitem.output hwalk).imp fun _ hname =>
          ⟨hname.2.underscored (underscored_item typeName), hadds.has_of_scope hname.1⟩) hn

/-! ### Schemas

The input types that a request body adds later stand under names of their own,
so whatever object type an output field leads to has output fields. -/

namespace Schema

variable {pages : Int → Prop}

/-- A schema that offers output fields: at its root for some sources, and for
any source under every name that its output fields refer to. -/
structure Offers (schema : Schema) (names : String → Prop) (pages : Int → Prop)
    (sources : Json → Prop) : Prop where
  query : schema.query.Output names pages sources
  registered : schema.typeNamed "Query" = schema.query
  inside : ∀ name, names name → (schema.typeNamed name).Output names pages fun _ => True
  mutation : ∀ root, schema.mutation = some root → ∃ field, root.fields = [field] ∧
    MutationField field

/-- A mutation root has no other field. -/
theorem Offers.mutationField {schema : Schema} {names : String → Prop} {sources : Json → Prop}
    (h : schema.Offers names pages sources) {root : NamedType} (hroot : schema.mutation = some root)
    {field : Field} (hfield : field ∈ root.fields) : MutationField field := by
  obtain ⟨only, hfields, hmutation⟩ := h.mutation root hroot
  rw [hfields] at hfield
  obtain rfl := List.mem_singleton.mp hfield
  exact hmutation

theorem itemsType_offers {limits : Limits}
    (hpages : ∀ levels items page, Cost.pageSize limits levels items = .ok page → pages page)
    {items : List Json} {baseName : String} {type : TypeRef} {types : Registry}
    (h : itemsType limits items baseName = .ok (type, types)) :
    type.Output types.Offered pages ∧ types.Output pages := by
  simp only [itemsType] at h
  split at h
  · obtain ⟨page, hpage, heq⟩ := Outcome.map_eq_ok_iff.mp h
    obtain ⟨rfl, rfl⟩ := Prod.mk.inj heq
    exact ⟨.list .json (hpages _ items page hpage), Registry.output_nil pages⟩
  · cases hlevels : limits.levelsFrom (-1) with
    | zero =>
        rw [hlevels] at h
        obtain ⟨rfl, rfl⟩ := Prod.mk.inj (Except.ok.inj h)
        exact ⟨.json, Registry.output_nil pages⟩
    | succ levels =>
        rw [hlevels] at h
        exact Inference.listType_offers hpages (Registry.output_nil pages) h

/-- The root type of a response has output fields that can be read from every
value of the kind of the response. -/
theorem queryRoot_offers {limits : Limits}
    (hpages : ∀ levels items page, Cost.pageSize limits levels items = .ok page → pages page)
    {data : Json} {baseName : String} {query : NamedType} {types : Registry}
    (h : queryRoot limits data baseName = .ok (query, types)) :
    (query.Output types.Offered pages fun source => source.kind = data.kind) ∧
      types.Output pages := by
  cases data with
  | arr items =>
      obtain ⟨⟨type, types'⟩, htype, heq⟩ := Outcome.map_eq_ok_iff.mp h
      obtain ⟨rfl, rfl⟩ := Prod.mk.inj heq
      obtain ⟨houtput, htypes⟩ := itemsType_offers hpages htype
      refine ⟨?_, htypes⟩
      intro field hfield
      simp only [queryType, List.mem_cons, List.not_mem_nil, or_false] at hfield
      rcases hfield with rfl | rfl
      · exact ⟨houtput, rfl, fun source _ => ⟨source, rfl⟩⟩
      · -- the length is read from arrays, which have one
        refine ⟨.scalar _, rfl, ?_⟩
        intro source hsource
        cases source with
        | arr elements => exact ⟨.int elements.length, rfl⟩
        | _ => cases hsource
  | obj entries =>
      obtain ⟨⟨type, types'⟩, htype, heq⟩ := Outcome.map_eq_ok_iff.mp h
      obtain ⟨-, htypes, -⟩ :=
        Inference.inferType_offers hpages _ (Registry.output_nil pages) htype
      simp only at heq
      split at heq
      · next name =>
          obtain ⟨rfl, rfl⟩ := Prod.mk.inj heq
          refine ⟨?_, htypes⟩
          intro field hfield
          exact (htypes.typeNamed name field hfield).imp (fun _ => id) fun _ _ => trivial
      · obtain ⟨rfl, rfl⟩ := Prod.mk.inj heq
        refine ⟨?_, htypes⟩
        intro field hfield
        rw [List.mem_singleton.mp hfield]
        exact ⟨.json, rfl, fun _ _ => ⟨_, rfl⟩⟩
  | _ =>
      obtain ⟨rfl, rfl⟩ := Prod.mk.inj (Except.ok.inj h)
      refine ⟨?_, Registry.output_nil pages⟩
      intro field hfield
      rw [List.mem_singleton.mp hfield]
      exact ⟨.scalar _, rfl, fun _ _ => ⟨_, rfl⟩⟩

/-- A schema that is built offers output fields, which can be read from every
value of the kind of the response that it is built from. -/
theorem offers_of_build {limits : Limits}
    (hpages : ∀ levels items page, Cost.pageSize limits levels items = .ok page → pages page)
    {data : Json} {method path : String} {body : Option Json} {schema : Schema}
    (h : build limits data method path body = .ok schema) :
    ∃ names, schema.Offers names pages fun source => source.kind = data.kind := by
  obtain ⟨types, types', hroot, hgrows, hnamed, hmutation⟩ := build_cases h
  obtain ⟨hquery, htypes⟩ := queryRoot_offers hpages hroot
  refine ⟨types.Offered, hquery, registered_of_grows hgrows hnamed, ?_, hmutation⟩
  intro name hname
  obtain ⟨hroot', hmutation'⟩ := ne_of_underscored hname.1
  -- the types that a request body adds have names of their own
  obtain ⟨type, htype⟩ := Option.isSome_iff_exists.mp hname.2
  have hfound : Entries.find? types' name = some type := by
    apply hgrows.kept
    rw [Entries.find?_put_of_ne types schema.query hroot']
    exact htype
  have houtput := htypes.typeNamed name
  rw [Registry.typeNamed, htype] at houtput
  rw [hnamed name hmutation', Registry.typeNamed, hfound]
  exact houtput

end Schema

end JsonSelection
