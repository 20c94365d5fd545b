import JsonSelection.Proofs.Schema.Adding
import JsonSelection.Proofs.Schema.Output
import JsonSelection.Proofs.Schema.Reaching
import JsonSelection.Schema.Definition

/-!
# Closed schemas

The definition of a schema that is built has a block for every type that its
blocks refer to, no two blocks of one name, and no block without fields. Types
that fields lead to are output types, and types that arguments lead to are input
types.

## What this module delivers

- `Schema.WellFormed`: all of this, together with the text as the join of the
  blocks.
- `Schema.Arrives`: the names that a walk over fields and arguments comes to,
  with the kind of types that it should find there.
- `Schema.Declares`: names of output types and of input types that are closed
  under such a walk.
- `Schema.Declares.wellFormed`: a schema with such names is well formed.
- `Schema.wellFormed_of_build`: every schema that is built is.

The blocks are those of the types that `Schema.reachable` meets. It goes by
names, so the proof follows the names that the roots can lead to. Names that are
not declared in the document are those of the scalars and of raw JSON, and no
type has one of these.
-/

set_option autoImplicit false

namespace JsonSelection

/-- The names of the scalar types and of raw JSON. -/
def scalarNames : List String :=
  ["String", "Int", "Float", "Boolean", "JSON"]

theorem not_mem_scalarNames {name : String} (h : Underscored name) : name ∉ scalarNames := by
  intro hmem
  simp only [scalarNames, List.mem_cons, List.not_mem_nil, or_false] at hmem
  rw [Underscored] at h
  rcases hmem with rfl | rfl | rfl | rfl | rfl <;> revert h <;> decide

namespace Registry

variable {types types' : Registry}

theorem AddsOutputs.declared {name : String} (h : AddsOutputs [] types)
    (hname : types.has name = true) :
    (types.typeNamed name).Declared false name := by
  obtain ⟨added, rfl, hadded⟩ := h
  obtain ⟨type, htype⟩ := Option.isSome_iff_exists.mp hname
  rw [Registry.typeNamed, htype]
  exact hadded _ (Entries.mem_of_find? htype)

/-- An added type is found under its name. -/
theorem AddsInputs.found {added : Registry} (h : AddsInputs types added types') {name : String}
    (hname : name ∈ Entries.keys added) :
    (types'.typeNamed name).Declared true name ∧
    (types'.typeNamed name).LeadsTo (Entries.keys added) := by
  obtain ⟨entry, hentry, rfl⟩ := List.mem_map.mp hname
  have hfree : Entries.find? types entry.1 = none := by
    rw [← Option.not_isSome_iff_eq_none]
    intro hused
    exact h.free entry hentry ((Entries.has_iff_mem_keys types entry.1).mp hused)
  obtain ⟨type, htype⟩ := Option.isSome_iff_exists.mp
    ((Entries.has_iff_mem_keys added entry.1).mpr hname)
  have hmem := Entries.mem_of_find? htype
  rw [h.appended, Registry.typeNamed, Entries.find?_append, hfree, Option.none_or, htype]
  exact ⟨h.declared _ hmem, h.leads _ hmem⟩

/-- What was registered stays when input types are added. -/
theorem AddsInputs.kept {added : Registry} (h : AddsInputs types added types') {name : String}
    (hname : types.has name = true) : types'.typeNamed name = types.typeNamed name := by
  obtain ⟨type, htype⟩ := Option.isSome_iff_exists.mp hname
  rw [h.appended, Registry.typeNamed, Registry.typeNamed, Entries.find?_append, htype]
  rfl

end Registry

namespace Schema

variable {limits : Limits} {data : Json} {method path baseName : String} {body : Option Json}
  {schema : Schema}

/-! ### The types of a response

Inference adds output types under names with an underscore, or under the name of
the operation. The root comes on top. -/

/-- Page sizes do not matter to what a schema refers to. -/
def AnyPage : Int → Prop :=
  fun _ => True

theorem anyPage (limits : Limits) (levels : Nat) (items : List Json) (page : Int)
    (_ : Cost.pageSize limits levels items = .ok page) : AnyPage page :=
  trivial

theorem itemsType_adds {items : List Json} {type : TypeRef} {types : Registry}
    (hname : Token.IsName baseName) (h : itemsType limits items baseName = .ok (type, types)) :
    Registry.AddsOutputs [] types := by
  simp only [itemsType] at h
  split at h
  · obtain ⟨page, -, heq⟩ := Outcome.map_eq_ok_iff.mp h
    obtain ⟨-, rfl⟩ := Prod.mk.inj heq
    exact .refl []
  · exact Inference.inferType_adds limits _ hname h

/-- A root type is an output type under its own name. -/
theorem declared_queryType {fields : List Field} (h : (queryType fields).Legible) :
    (queryType fields).Declared false "Query" :=
  ⟨rfl, rfl, ⟨'Q', "uery".toList, rfl, rfl, List.all_eq_true.mp rfl⟩, h⟩

theorem legible_value {field : Field} (h : field.name = "value") : (queryType [field]).Legible :=
  NamedType.legible_single rfl (h ▸ (selectable_rawField fun _ => True).name)

/-- The root type of a response is declared beside the output types that it needs. -/
theorem queryRoot_declared {query : NamedType} {types : Registry} (hname : Token.IsName baseName)
    (h : queryRoot limits data baseName = .ok (query, types)) :
    query.Declared false "Query" ∧ Registry.AddsOutputs [] types := by
  cases data with
  | arr items =>
      obtain ⟨⟨type, types'⟩, htype, heq⟩ := Outcome.map_eq_ok_iff.mp h
      obtain ⟨rfl, rfl⟩ := Prod.mk.inj heq
      refine ⟨declared_queryType ⟨List.cons_ne_nil _ _, ?_, ?_⟩, itemsType_adds hname htype⟩
      · exact show ["items", "_count"].Nodup by decide
      · intro name hmem
        have hmem : name = "items" ∨ name = "_count" := by
          simpa [NamedType.fieldNames, queryType, itemsField, countField] using hmem
        rcases hmem with rfl | rfl
        · exact ⟨'i', "tems".toList, rfl, rfl, List.all_eq_true.mp rfl⟩
        · exact (selectable_countField items).name
  | obj entries =>
      obtain ⟨⟨type, types'⟩, htype, heq⟩ := Outcome.map_eq_ok_iff.mp h
      have hadds := Inference.inferType_adds limits _ hname htype
      obtain ⟨houtput, -, -⟩ :=
        Inference.inferType_offers (anyPage limits) _ (Registry.output_nil AnyPage) htype
      simp only at heq
      split at heq
      · next name =>
          obtain ⟨rfl, rfl⟩ := Prod.mk.inj heq
          cases houtput with
          | named hoffered =>
              -- the root shows the fields of the type of the response
              have hlegible := (hadds.declared hoffered.2).legible
              exact ⟨declared_queryType ⟨hlegible.filled, hlegible.distinct, hlegible.names⟩,
                hadds⟩
      · obtain ⟨rfl, rfl⟩ := Prod.mk.inj heq
        exact ⟨declared_queryType (legible_value rfl), hadds⟩
  | _ =>
      obtain ⟨rfl, rfl⟩ := Prod.mk.inj (Except.ok.inj h)
      exact ⟨declared_queryType (legible_value rfl), .refl []⟩

/-! ### The types of a mutation -/

/-- What a mutation takes leads to the input types that are added for it. -/
theorem takes_adds {types types' : Registry} {properties : List (String × Property)}
    {arguments : List Argument} (hname : Token.IsName baseName)
    (h : Takes limits baseName types properties arguments types') :
    ∃ added, Registry.AddsInputs types added types' ∧
      (∀ name ∈ Entries.keys added, Underscored name) ∧
      ∀ argument ∈ arguments, argument.type.Inside (· ∈ Entries.keys added) := by
  cases h with
  | nothing => exact ⟨[], Registry.addsInputs_nil types, by simp [Entries.keys], by simp⟩
  | @input properties name types' hfilled hinput =>
      have htitle : Token.IsName (baseName ++ "_Input") :=
        hname.append (List.all_eq_true.mp (show "_Input".toList.all Token.isNameChar =
          true from rfl))
      have hunderscored : Underscored (baseName ++ "_Input") := by simp [Underscored]
      obtain ⟨added, hadds, hbelow, hmem⟩ := InputType.ofProperties_adds hfilled htitle hinput
      refine ⟨added, hadds, fun other hother => (hbelow other hother).underscored hunderscored,
        ?_⟩
      intro argument hargument other hother
      rw [List.mem_singleton.mp hargument] at hother
      rw [← Option.some.inj hother]
      exact hmem

/-! ### Where the types of a schema come from

Every entry of the registry of a schema is one of the response, the query root
among them, an input type that the request body adds, or the mutation root. Its
origin tells what kind of type it is and what it leads to. -/

/-- Where an entry of the registry comes from: it is one of the response, the
query root among them, an input type that the request body adds, or the mutation
root. -/
inductive Origin (limits : Limits) (method baseName : String) (types : Registry) (schema : Schema)
    (entry : String × NamedType) : Prop where
  | response : entry ∈ Entries.put types "Query" schema.query →
      Origin limits method baseName types schema entry
  | input {properties : List (String × Property)} {arguments : List Argument}
      {added types' : Registry} :
      Takes limits baseName (Entries.put types "Query" schema.query) properties arguments types' →
      Registry.AddsInputs (Entries.put types "Query" schema.query) added types' →
      (∀ name ∈ Entries.keys added, Underscored name) → entry ∈ added →
      Origin limits method baseName types schema entry
  | mutation {arguments : List Argument} {inputs : List String} :
      (∀ name ∈ inputs, Underscored name) →
      (∀ argument ∈ arguments, argument.type.Inside (· ∈ inputs)) →
      entry = ("Mutation", ⟨"Mutation", [mutationField method baseName arguments], false⟩) →
      schema.mutation = some entry.2 → Origin limits method baseName types schema entry

/-- The registry of a schema that is built holds nothing else. -/
theorem origins_of_build (h : build limits data method path body = .ok schema) :
    ∃ types, queryRoot limits data (TypeName.derive (Text.upper method) path) =
        .ok (schema.query, types) ∧
      ∀ entry ∈ schema.types, Origin limits (Text.upper method)
        (TypeName.derive (Text.upper method) path) types schema entry := by
  obtain ⟨types, hroot, hcompleted⟩ := completed_of_build h
  refine ⟨types, hroot, ?_⟩
  intro entry hentry
  cases hcompleted with
  | reading _ _ hregistry =>
      rw [hregistry] at hentry
      exact .response hentry
  | writing _ _ hmutation hsome hregistry =>
      obtain ⟨properties, arguments, -, htakes, rfl⟩ := mutationRoot_takes hmutation
      obtain ⟨added, hadds, hunderscored, harguments⟩ :=
        takes_adds (TypeName.derive_isName (Text.upper method) path) htakes
      rw [hregistry] at hentry
      rcases Entries.mem_put hentry with hentry | rfl
      · -- the types of the response come first, and the input types of the body after them
        rw [hadds.appended] at hentry
        rcases List.mem_append.mp hentry with hold | hnew
        · exact .response hold
        · exact .input htakes hadds hunderscored hnew
      · exact .mutation hunderscored harguments rfl hsome

theorem declared_mutation (arguments : List Argument) (hwrite : isWrite method = true)
    (hname : Token.IsName baseName) :
    NamedType.Declared false "Mutation"
      ⟨"Mutation", [mutationField method baseName arguments], false⟩ :=
  ⟨rfl, rfl, ⟨'M', "utation".toList, rfl, rfl, List.all_eq_true.mp rfl⟩,
    NamedType.legible_single rfl ((isName_toLower hwrite).join hname)⟩

/-! ### The names that the roots lead to

The kind of types that a walk should find is carried along: it is that of the
type for a field, and that of input types for an argument. -/

/-- A type that is declared under its name and leads to output types and input
types of some names. -/
structure Led (names : Bool → String → Prop) (isInput : Bool) (name : String)
    (type : NamedType) : Prop
    where
  declared : type.Declared isInput name
  fields : ∀ field ∈ type.fields, field.type.Inside (names isInput)
  arguments : ∀ field ∈ type.fields, ∀ argument ∈ field.arguments,
    argument.type.Inside (names true)
  proper : name ∉ scalarNames

/-- The names of the output types and of the input types that the roots of a
schema can lead to. -/
structure Declares (schema : Schema) (names : Bool → String → Prop) : Prop where
  own : schema.SelfNamed
  roots : ∀ name ∈ schema.roots, names false name
  led : ∀ isInput name, names isInput name → Led names isInput name (schema.typeNamed name)

/-- The names that a walk over fields and arguments comes to, with the kind of
types that it should find there: what a field leads to is of the kind of its
type, what an argument leads to is an input type. -/
inductive Arrives (schema : Schema) : Bool → String → Prop where
  | root {name : String} : name ∈ schema.roots → Arrives schema false name
  | field {isInput : Bool} {name other : String} {field : Field} : Arrives schema isInput name →
      field ∈ (schema.typeNamed name).fields → field.type.namedInside? = some other →
      Arrives schema isInput other
  | argument {isInput : Bool} {name other : String} {field : Field} {argument : Argument} :
      Arrives schema isInput name → field ∈ (schema.typeNamed name).fields →
      argument ∈ field.arguments → argument.type.namedInside? = some other →
      Arrives schema true other

variable {names : Bool → String → Prop}

theorem Declares.arrives (h : schema.Declares names) {isInput : Bool} {name : String}
    (harrives : schema.Arrives isInput name) : names isInput name := by
  induction harrives with
  | root hroot => exact h.roots _ hroot
  | field _ hfield hother ih => exact (h.led _ _ ih).fields _ hfield _ hother
  | argument _ hfield hargument hother ih =>
      exact (h.led _ _ ih).arguments _ hfield _ hargument _ hother

theorem reference_iff {type : NamedType} {name : String} : name ∈ type.references ↔
    ∃ field ∈ type.fields, field.type.namedInside? = some name ∨
      ∃ argument ∈ field.arguments, argument.type.namedInside? = some name := by
  simp only [NamedType.references, List.mem_flatMap, List.mem_filterMap,
    List.mem_cons, List.mem_map]
  constructor
  · rintro ⟨field, hfield, _, rfl | ⟨argument, hargument, rfl⟩, hinside⟩
    · exact ⟨field, hfield, Or.inl hinside⟩
    · exact ⟨field, hfield, Or.inr ⟨argument, hargument, hinside⟩⟩
  · rintro ⟨field, hfield, hinside | ⟨argument, hargument, hinside⟩⟩
    · exact ⟨field, hfield, _, Or.inl rfl, hinside⟩
    · exact ⟨field, hfield, _, Or.inr ⟨argument, hargument, rfl⟩, hinside⟩

theorem arrives_of_reaches {name : String} (h : schema.Reaches name) :
    ∃ isInput, schema.Arrives isInput name := by
  induction h with
  | root hroot => exact ⟨false, .root hroot⟩
  | reference _ hother ih =>
      obtain ⟨isInput, harrives⟩ := ih
      obtain ⟨field, hfield, hinside | ⟨argument, hargument, hinside⟩⟩ :=
        reference_iff.mp hother
      · exact ⟨isInput, .field harrives hfield hinside⟩
      · exact ⟨true, .argument harrives hfield hargument hinside⟩

theorem reaches_of_arrives {isInput : Bool} {name : String} (h : schema.Arrives isInput name) :
    schema.Reaches name := by
  induction h with
  | root hroot => exact .root hroot
  | field _ hfield hother ih =>
      exact .reference ih (reference_iff.mpr ⟨_, hfield, Or.inl hother⟩)
  | argument _ hfield hargument hother ih =>
      exact .reference ih (reference_iff.mpr ⟨_, hfield, Or.inr ⟨_, hargument, hother⟩⟩)

/-! ### Well-formed schemas -/

/-- The blocks of the definition of a schema. -/
def blocks (schema : Schema) : List String :=
  (if Definition.usesOpaque schema.reachable then [Definition.opaqueBlock] else []) ++
    schema.reachable.map Definition.block

/-- A schema whose definition is closed and well formed. -/
structure WellFormed (schema : Schema) : Prop where
  printed : schema.definition = "\n\n".intercalate schema.blocks ++ "\n"
  /-- No two blocks have one name. -/
  distinct : (schema.reachable.map NamedType.name).Nodup
  /-- No type is named like a scalar. -/
  proper : ∀ type ∈ schema.reachable, type.name ∉ scalarNames
  /-- The roots and every type that a field or an argument refers to have a block. -/
  roots : ∀ name ∈ schema.roots, name ∈ schema.reachable.map NamedType.name
  closed : ∀ type ∈ schema.reachable, ∀ name ∈ type.references,
    name ∈ schema.reachable.map NamedType.name
  /-- The scalar of raw JSON has a block exactly when some field holds raw JSON. -/
  opaqueScalar : Definition.opaqueBlock ∈ schema.blocks ↔
    ∃ type ∈ schema.reachable, ∃ field ∈ type.fields, field.type.innermost = .json
  /-- Every type has fields, of distinct names. -/
  legible : ∀ type ∈ schema.reachable, Token.IsName type.name ∧ type.Legible
  /-- Fields lead to types of the kind of their own type, from output types on,
  and arguments lead to input types. -/
  kinds : ∀ isInput name, schema.Arrives isInput name →
    ∃ type ∈ schema.reachable, type.name = name ∧ type.isInput = isInput

theorem block_ne_opaqueBlock (type : NamedType) :
    Definition.block type ≠ Definition.opaqueBlock := by
  -- a block begins with a keyword, that of the scalar with a quote
  have hrest : type.fields.flatMap Definition.field ++ ["\x7d"] ≠ [] := by simp
  have hblock : Definition.block type =
      (if type.isInput then "input" else "type") ++ " " ++ type.name ++ " \x7b" ++ "\n" ++
        "\n".intercalate (type.fields.flatMap Definition.field ++ ["\x7d"]) :=
    String.intercalate_cons_of_ne_nil hrest
  intro heq
  have hhead := congrArg (fun text => text.toList.head?) heq
  have hquote : Definition.opaqueBlock.toList.head? = some '"' := by decide +kernel
  simp only [hquote, hblock, String.toList_append] at hhead
  cases hkind : type.isInput with
  | true => simp [hkind] at hhead
  | false => simp [hkind] at hhead

theorem Declares.wellFormed (h : schema.Declares names) : schema.WellFormed := by
  obtain ⟨hwalk, hroots⟩ := walk_reachable h.own
  -- whatever the walk meets, fields and arguments arrive at
  have hled : ∀ type ∈ schema.reachable, ∃ isInput, Led names isInput type.name type := by
    intro type htype
    obtain ⟨isInput, harrives⟩ := arrives_of_reaches
      ((mem_reachable_iff h.own type.name).mp (List.mem_map_of_mem htype))
    have hfound := h.led isInput type.name (h.arrives harrives)
    rw [← hwalk.own type htype] at hfound
    exact ⟨isInput, hfound⟩
  refine ⟨rfl, nodup_discover h.own _ List.nodup_nil, ?_, hroots, ?_, ?_, ?_, ?_⟩
  · intro type htype
    obtain ⟨isInput, htype⟩ := hled type htype
    exact htype.proper
  · intro type htype name hname
    exact (hwalk.followed type htype name hname).elim id fun hnone => absurd hnone List.not_mem_nil
  · rw [blocks, List.mem_append]
    constructor
    · -- no block of a type is that of the scalar
      rintro (hmem | hmem)
      · split at hmem
        · next huses =>
            simpa [Definition.usesOpaque] using huses
        · cases hmem
      · obtain ⟨type, -, heq⟩ := List.mem_map.mp hmem
        exact absurd heq (block_ne_opaqueBlock type)
    · intro hopaque
      have huses : Definition.usesOpaque schema.reachable = true := by
        simpa [Definition.usesOpaque] using hopaque
      rw [if_pos huses]
      exact Or.inl List.mem_cons_self
  · intro type htype
    obtain ⟨isInput, htype⟩ := hled type htype
    exact ⟨htype.declared.title, htype.declared.legible⟩
  · intro isInput name harrives
    have hname := (h.led isInput name (h.arrives harrives)).declared
    have hmem := (mem_reachable_iff h.own name).mpr (reaches_of_arrives harrives)
    obtain ⟨type, htype, rfl⟩ := List.mem_map.mp hmem
    refine ⟨type, htype, rfl, ?_⟩
    rw [hwalk.own type htype]
    exact hname.kind

/-! ### Schemas that are built

The output types are the roots and the types of the response, and the input
types those that the request body adds. Neither set leads out of both. -/

/-- The names that the roots lead to: those of the roots and of the types of the
response for output types, and those of the types that are added for the request
body for input types. -/
def ledTo (schema : Schema) (types added : Registry) : Bool → String → Prop
  | false, name => name ∈ schema.roots ∨ types.Offered name
  | true, name => name ∈ Entries.keys added

theorem inside_of_output {outputs : String → Prop} {pages : Int → Prop} {type : TypeRef}
    (h : type.Output outputs pages) : type.Inside outputs := by
  induction h with
  | scalar type => exact TypeRef.inside_of_none rfl _
  | json => exact TypeRef.inside_of_none rfl _
  | list _ _ ih => exact ih
  | named hname =>
      intro other hother
      rw [← Option.some.inj hother]
      exact hname

theorem inside_pageArguments (type : TypeRef) (inputs : String → Prop) :
    ∀ argument ∈ Field.pageArguments type, argument.type.Inside inputs := by
  intro argument hargument
  cases type with
  | list item page =>
      simp only [Field.pageArguments, List.mem_cons, List.not_mem_nil, or_false] at hargument
      rcases hargument with rfl | rfl
      · exact TypeRef.inside_of_none rfl _
      · exact TypeRef.inside_of_none rfl _
  | _ => cases hargument

/-- An output type leads to output types only. -/
theorem led_of_output {types added : Registry} {sources : Json → Prop} {name : String}
    {type : NamedType} (hdeclared : type.Declared false name)
    (houtput : type.Output types.Offered AnyPage sources) (hproper : name ∉ scalarNames) :
    Led (schema.ledTo types added) false name type := by
  refine ⟨hdeclared, ?_, ?_, hproper⟩
  · intro field hfield
    exact (inside_of_output (houtput field hfield).type).imp fun _ => Or.inr
  · intro field hfield
    rw [(houtput field hfield).arguments]
    exact inside_pageArguments field.type _

/-- An input type leads to input types only. -/
theorem led_of_leadsTo {types added : Registry} {name : String} {type : NamedType}
    (hdeclared : type.Declared true name) (hleads : type.LeadsTo (Entries.keys added))
    (hproper : name ∉ scalarNames) : Led (schema.ledTo types added) true name type := by
  refine ⟨hdeclared, fun field hfield => (hleads field hfield).2, ?_, hproper⟩
  intro field hfield argument hargument
  rw [(hleads field hfield).1] at hargument
  cases hargument

/-- The mutation root of a schema, if it has one, is declared and takes input
types that were added. -/
def MutationDeclared (schema : Schema) (added : Registry) : Prop :=
  ∀ root, schema.mutation = some root → schema.typeNamed "Mutation" = root ∧
    root.Declared false "Mutation" ∧ ∀ field ∈ root.fields, field.type = .named "Query" ∧
      ∀ argument ∈ field.arguments, argument.type.Inside (· ∈ Entries.keys added)

/-- The names that the roots lead to are declared when the response and the
request body are put together: the output types lead to output types of the
response, the input types to input types that were added with them. -/
theorem declares_of_parts {types added final : Registry} {sources : Json → Prop}
    (hquery : schema.query.Declared false "Query") (hadds : Registry.AddsOutputs [] types)
    (hfields : schema.query.Output types.Offered AnyPage sources) (htypes : types.Output AnyPage)
    (hinputs : Registry.AddsInputs (Entries.put types "Query" schema.query) added final)
    (hunderscored : ∀ name ∈ Entries.keys added, Underscored name) (hown : schema.SelfNamed)
    (hnamed : ∀ name, name ≠ "Mutation" → schema.typeNamed name = final.typeNamed name)
    (hmutation : schema.MutationDeclared added) :
    schema.Declares (schema.ledTo types added) := by
  have hroot : "Query" ∈ schema.roots := by
    rw [roots, hquery.own]
    exact List.mem_cons_self
  refine ⟨hown, fun name hname => Or.inl hname, ?_⟩
  intro isInput name hname
  -- an input type was added, an output type is a root or a type of the response
  cases isInput with
  | true =>
      rw [hnamed name (ne_of_underscored (hunderscored name hname)).2]
      obtain ⟨hdeclared, hleads⟩ := hinputs.found hname
      exact led_of_leadsTo hdeclared hleads (not_mem_scalarNames (hunderscored name hname))
  | false =>
      rcases hname with hname | hname
      · rcases List.mem_cons.mp hname with rfl | hname
        · rw [hquery.own, hnamed "Query" (by decide),
            hinputs.kept (Registry.has_put_self types "Query" schema.query),
            Registry.typeNamed_put_self]
          exact led_of_output hquery hfields (by decide)
        · obtain ⟨root, hsome, rfl⟩ := Option.map_eq_some_iff.mp (Option.mem_toList.mp hname)
          obtain ⟨hfound, hdeclared, hroots⟩ := hmutation root hsome
          rw [hdeclared.own, hfound]
          refine ⟨hdeclared, ?_, fun field hfield => (hroots field hfield).2, by decide⟩
          intro field hfield other hother
          rw [(hroots field hfield).1] at hother
          rw [← Option.some.inj hother]
          exact Or.inl hroot
      · -- the roots are written under names without underscore, so they hide no type
        -- of the response
        obtain ⟨hnotQuery, hnotMutation⟩ := ne_of_underscored hname.1
        rw [hnamed name hnotMutation, hinputs.kept (Registry.has_put types "Query" _ hname.2),
          Registry.typeNamed_put_of_ne types schema.query hnotQuery]
        exact led_of_output (hadds.declared hname.2) (htypes.typeNamed name)
          (not_mem_scalarNames hname.1)

/-- Every type of a registry has the name under which it is registered. -/
theorem selfNamed_of_entries (h : ∀ entry ∈ schema.types, entry.2.name = entry.1) :
    schema.SelfNamed := by
  intro name
  rw [typeNamed, Registry.typeNamed]
  cases hfind : Entries.find? schema.types name with
  | none => rfl
  | some type => exact h _ (Entries.mem_of_find? hfind)

theorem own_of_parts {types added final : Registry} (hquery : schema.query.Declared false "Query")
    (hadds : Registry.AddsOutputs [] types)
    (hinputs : Registry.AddsInputs (Entries.put types "Query" schema.query) added final) :
    ∀ entry ∈ final, entry.2.name = entry.1 := by
  obtain ⟨outputs, rfl, houtputs⟩ := hadds
  rw [hinputs.appended]
  intro entry hentry
  rcases List.mem_append.mp hentry with hentry | hentry
  · rcases Entries.mem_put hentry with hentry | rfl
    · exact (houtputs entry hentry).own
    · exact hquery.own
  · exact (hinputs.declared entry hentry).own

theorem declares_of_build (h : build limits data method path body = .ok schema) :
    ∃ names, schema.Declares names := by
  obtain ⟨types, hroot, hcompleted⟩ := completed_of_build h
  have hname := TypeName.derive_isName (Text.upper method) path
  obtain ⟨hquery, hadds⟩ := queryRoot_declared hname hroot
  obtain ⟨hfields, htypes⟩ := queryRoot_offers (anyPage limits) hroot
  -- a mutation and its input type are put on top of what the response gives
  cases hcompleted with
  | reading _ hnone hregistry =>
      have hinputs := Registry.addsInputs_nil (Entries.put types "Query" schema.query)
      have hown := own_of_parts hquery hadds hinputs
      rw [← hregistry] at hown
      refine ⟨_, declares_of_parts hquery hadds hfields htypes hinputs (by simp [Entries.keys])
        (selfNamed_of_entries hown) ?_ ?_⟩
      · intro name _
        rw [typeNamed, hregistry]
      · intro root hsome
        rw [hnone] at hsome
        cases hsome
  | writing hwrite _ hmutation hsome hregistry =>
      obtain ⟨properties, arguments, -, htakes, rfl⟩ := mutationRoot_takes hmutation
      obtain ⟨added, hinputs, hunderscored, harguments⟩ := takes_adds hname htakes
      have hdeclared := declared_mutation arguments hwrite hname
      have hown : schema.SelfNamed := by
        apply selfNamed_of_entries
        rw [hregistry]
        intro entry hentry
        rcases Entries.mem_put hentry with hentry | rfl
        · exact own_of_parts hquery hadds hinputs entry hentry
        · exact hdeclared.own
      refine ⟨_, declares_of_parts hquery hadds hfields htypes hinputs hunderscored hown ?_ ?_⟩
      · intro name hne
        rw [typeNamed, hregistry]
        exact Registry.typeNamed_put_of_ne _ _ hne
      · intro root hroot
        obtain rfl := Option.some.inj (hsome.symm.trans hroot)
        refine ⟨?_, hdeclared, ?_⟩
        · rw [typeNamed, hregistry]
          exact Registry.typeNamed_put_self _ _ _
        · intro field hfield
          rw [List.mem_singleton.mp hfield]
          exact ⟨rfl, harguments⟩

end Schema

end JsonSelection
