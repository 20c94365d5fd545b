import JsonSelection.Proofs.Schema.Roots
import JsonSelection.Proofs.Schema.Selectable

/-!
# Schemas that serve a value

A schema that is built from a value can be used on that value: its root fields
can be read from it, and every object type that a field leads to can be selected
from, whatever the source (`Schema.Serves`).

The root of an object or of an array reads the response in ways of its own,
which is why its fields are only read from the response. All other types are
made by inference, and their fields read a key. The main result is
`Schema.serves_of_build`.
-/

set_option autoImplicit false

namespace JsonSelection

theorem NamedType.Selectable.restrict {type : NamedType} (h : type.Selectable fun _ => True)
    (sources : Json → Prop) : type.Selectable sources := by
  refine ⟨h.distinct, ?_⟩
  intro field hfield
  have hselectable := h.fields field hfield
  exact ⟨hselectable.name, hselectable.ordinary, fun source _ =>
    hselectable.readable source trivial,
    hselectable.paged, hselectable.inside⟩

/-- The field of a mutation root: it gives the query root for the whole source,
and takes nothing but an input. -/
structure MutationField (field : Field) : Prop where
  name : Token.IsName field.name
  ordinary : field.name ≠ Execution.typeNameField
  whole : field.reader = .whole
  paged : Field.Paged field.arguments
  input : ∀ argument ∈ field.arguments, argument.name = "input"
  type : field.type = .named "Query"

namespace Schema

/-- A schema that can be used on a value. The root is only asked to be readable
from this value, all other types from any value. -/
structure Serves (schema : Schema) (data : Json) : Prop where
  query : schema.query.Selectable fun source => source = data
  registered : schema.typeNamed "Query" = schema.query
  inside : ∀ name, Underscored name → (schema.typeNamed name).Selectable fun _ => True
  mutation : ∀ root, schema.mutation = some root → ∃ field, root.fields = [field] ∧
    MutationField field

theorem selectable_itemsField {items : List Json} {type : TypeRef}
    (hpaged : Field.Paged (Field.pageArguments type)) (hinside : type.Inside Underscored) :
    (itemsField type).Selectable fun source => source = .arr items where
  name := show Token.IsName "items" from ⟨'i', "tems".toList, rfl, rfl, List.all_eq_true.mp rfl⟩
  ordinary := show "items" ≠ Execution.typeNameField by decide
  readable := fun source _ => ⟨source, rfl⟩
  paged := hpaged
  inside := hinside

theorem selectable_countField (items : List Json) :
    countField.Selectable fun source => source = .arr items where
  name := ⟨'_', "count".toList, rfl, rfl, List.all_eq_true.mp rfl⟩
  ordinary := by decide
  readable := by
    rintro source rfl
    exact ⟨.int items.length, rfl⟩
  paged := Field.paged_nil
  inside := TypeRef.inside_of_none rfl _

theorem selectable_scalarField (sources : Json → Prop) : scalarField.Selectable sources where
  name := ⟨'v', "alue".toList, rfl, rfl, List.all_eq_true.mp rfl⟩
  ordinary := by decide
  readable := fun _ _ => ⟨_, rfl⟩
  paged := Field.paged_nil
  inside := TypeRef.inside_of_none rfl _

theorem selectable_rawField (sources : Json → Prop) : rawField.Selectable sources where
  name := ⟨'v', "alue".toList, rfl, rfl, List.all_eq_true.mp rfl⟩
  ordinary := by decide
  readable := fun _ _ => ⟨_, rfl⟩
  paged := Field.paged_nil
  inside := TypeRef.inside_of_none rfl _

theorem selectable_single {sources : Json → Prop} {field : Field} (h : field.Selectable sources) :
    (queryType [field]).Selectable sources := by
  refine ⟨by simp [queryType, NamedType.fieldNames], ?_⟩
  intro other hother
  rw [List.mem_singleton.mp hother]
  exact h

theorem itemsType_keeps {limits : Limits} (hmin : 0 ≤ limits.minListLimit)
    (hmax : 0 ≤ limits.maxListLimit) {items : List Json} {baseName : String} {type : TypeRef}
    {types : Registry} (h : itemsType limits items baseName = .ok (type, types)) :
    type.Inside Underscored ∧ Field.Paged (Field.pageArguments type) ∧ types.Selectable := by
  have hnone : Registry.Selectable [] := by
    intro entry hentry
    cases hentry
  simp only [itemsType] at h
  split at h
  · obtain ⟨page, hpage, heq⟩ := Outcome.map_eq_ok_iff.mp h
    obtain ⟨rfl, rfl⟩ := Prod.mk.inj heq
    refine ⟨TypeRef.inside_of_none rfl _, Field.paged_list .json ?_, hnone⟩
    intro n heq
    rw [← Option.some.inj heq]
    exact Inference.pageSize_nonneg hmin hmax hpage
  · cases hlevels : limits.levelsFrom (-1) with
    | zero =>
        rw [hlevels] at h
        obtain ⟨rfl, rfl⟩ := Prod.mk.inj (Except.ok.inj h)
        exact ⟨TypeRef.inside_of_none rfl _, Field.paged_nil, hnone⟩
    | succ levels =>
        rw [hlevels] at h
        have hvalues := Inference.hereditary_all limits
        obtain ⟨added, hadds, hformed⟩ := Inference.listType_finds
          (Inference.inferType_finds hvalues levels) hvalues trivial h
        have hpaged := Walk.paged_overValues hmin hmax fun _ => True
        refine ⟨?_, hformed.paged hpaged, hadds.selectable hpaged hnone⟩
        -- an array gives raw JSON where the levels end, and a list otherwise
        rcases Inference.eq_json_or_list h with rfl | ⟨item, page, rfl⟩
        · exact TypeRef.inside_of_none rfl _
        · exact hformed.underscored

/-- The root type of a response can be selected from for the response. -/
theorem queryRoot_keeps {limits : Limits} (hmin : 0 ≤ limits.minListLimit)
    (hmax : 0 ≤ limits.maxListLimit) {data : Json} {baseName : String} {query : NamedType}
    {types : Registry} (h : queryRoot limits data baseName = .ok (query, types)) :
    (query.Selectable fun source => source = data) ∧ types.Selectable := by
  have hnone : Registry.Selectable [] := by
    intro entry hentry
    cases hentry
  cases data with
  | arr items =>
      obtain ⟨⟨type, types'⟩, htype, heq⟩ := Outcome.map_eq_ok_iff.mp h
      obtain ⟨rfl, rfl⟩ := Prod.mk.inj heq
      obtain ⟨hinside, hpaged, htypes⟩ := itemsType_keeps hmin hmax htype
      refine ⟨⟨show ["items", "_count"].Nodup by decide, ?_⟩, htypes⟩
      intro field hfield
      simp only [queryType, List.mem_cons, List.not_mem_nil, or_false] at hfield
      rcases hfield with rfl | rfl
      · exact selectable_itemsField hpaged hinside
      · exact selectable_countField items
  | obj entries =>
      obtain ⟨⟨type, types'⟩, htype, heq⟩ := Outcome.map_eq_ok_iff.mp h
      have htypes := Inference.inferType_keeps hmin hmax _ hnone htype
      simp only at heq
      split at heq
      -- the query root has the fields of the root object under another name
      · next name =>
          obtain ⟨rfl, rfl⟩ := Prod.mk.inj heq
          have htype := (htypes.typeNamed name).restrict fun source => source = .obj entries
          exact ⟨⟨htype.distinct, htype.fields⟩, htypes⟩
      · obtain ⟨rfl, rfl⟩ := Prod.mk.inj heq
        exact ⟨selectable_single (selectable_rawField _), htypes⟩
  | _ =>
      obtain ⟨rfl, rfl⟩ := Prod.mk.inj (Except.ok.inj h)
      exact ⟨selectable_single (selectable_scalarField _), hnone⟩

theorem not_underscored_query : ¬ Underscored "Query" := by
  rw [Underscored]
  decide

theorem not_underscored_mutation : ¬ Underscored "Mutation" := by
  rw [Underscored]
  decide

/-- A write method in lower case is a name. -/
theorem isName_toLower {method : String} (h : isWrite method = true) :
    Token.IsName method.toLower := by
  have hlist : method.toLower.toList = method.toList.map Char.toLower := String.toList_map
  have hmethod : method ∈ writeMethods := by
    simpa [isWrite] using h
  rw [Token.IsName, hlist]
  simp only [writeMethods, List.mem_cons, List.not_mem_nil, or_false] at hmethod
  rcases hmethod with rfl | rfl | rfl | rfl
  · exact ⟨'p', ['o', 's', 't'], rfl, rfl, List.all_eq_true.mp rfl⟩
  · exact ⟨'p', ['u', 't'], rfl, rfl, List.all_eq_true.mp rfl⟩
  · exact ⟨'d', ['e', 'l', 'e', 't', 'e'], rfl, rfl, List.all_eq_true.mp rfl⟩
  · exact ⟨'p', ['a', 't', 'c', 'h'], rfl, rfl, List.all_eq_true.mp rfl⟩

/-- The name of a mutation field is not that of the type name. -/
theorem mutationName_ordinary {method : String} (h : isWrite method = true) (baseName : String) :
    method.toLower ++ "_" ++ baseName ≠ Execution.typeNameField := by
  intro heq
  have hlist := congrArg (fun text => text.toList.head?) heq
  have hmethod : method ∈ writeMethods := by
    simpa [isWrite] using h
  have hlower : method.toLower.toList = method.toList.map Char.toLower := String.toList_map
  simp only [writeMethods, List.mem_cons, List.not_mem_nil, or_false] at hmethod
  simp only [String.toList_append, hlower] at hlist
  rcases hmethod with rfl | rfl | rfl | rfl <;> cases hlist

theorem mutationField_of {method path : String} (h : isWrite method = true)
    {arguments : List Argument} (hpaged : Field.Paged arguments)
    (hinput : ∀ argument ∈ arguments, argument.name = "input") :
    MutationField
      { name := method.toLower ++ "_" ++ TypeName.derive method path
        reader := .whole
        type := .named "Query"
        arguments := arguments } where
  name := (isName_toLower h).join (TypeName.derive_isName method path)
  ordinary := mutationName_ordinary h _
  whole := rfl
  paged := hpaged
  input := hinput
  type := rfl

/-- A mutation root has one field, and its input type adds selectable types. -/
theorem mutationRoot_grows {limits : Limits} {method path : String} {body : Json}
    {types types' : Registry} {root : NamedType} (hwrite : isWrite method = true)
    (h : mutationRoot limits method (TypeName.derive method path) body types = .ok (root, types')) :
    (∃ field, root.fields = [field] ∧ MutationField field) ∧ Registry.Grows types types' := by
  obtain ⟨properties, arguments, -, htakes, rfl⟩ := mutationRoot_takes h
  cases htakes with
  | nothing =>
      exact ⟨⟨_, rfl, mutationField_of hwrite Field.paged_nil (by simp)⟩, .refl types⟩
  | input _ hinput =>
      have hunderscored : Underscored (TypeName.derive method path ++ "_Input") := by
        simp [Underscored]
      refine ⟨⟨_, rfl, mutationField_of hwrite ?_ ?_⟩,
        InputType.ofProperties_grows hunderscored hinput⟩
      · intro argument hargument n hn
        rw [List.mem_singleton.mp hargument] at hn
        cases hn
      · intro argument hargument
        rw [List.mem_singleton.mp hargument]

/-- A schema has the root of its response, and beside it the types of the
response and those that a request body adds. -/
theorem build_cases {limits : Limits} {data : Json} {method path : String} {body : Option Json}
    {schema : Schema} (h : build limits data method path body = .ok schema) :
    ∃ types types', queryRoot limits data (TypeName.derive (Text.upper method) path) =
        .ok (schema.query, types) ∧
      Registry.Grows (Entries.put types "Query" schema.query) types' ∧
      (∀ name, name ≠ "Mutation" → schema.typeNamed name = types'.typeNamed name) ∧
      ∀ root, schema.mutation = some root → ∃ field, root.fields = [field] ∧
        MutationField field := by
  obtain ⟨types, hquery, hcompleted⟩ := completed_of_build h
  -- the mutation is registered last, over whatever has its name
  cases hcompleted with
  | reading _ hnone htypes =>
      refine ⟨types, _, hquery, .refl _, ?_, ?_⟩
      · intro name _
        rw [typeNamed, htypes]
      · intro root hsome
        rw [hnone] at hsome
        cases hsome
  | writing hwrite _ hmutation hsome htypes =>
      obtain ⟨hfield, hgrows⟩ := mutationRoot_grows hwrite hmutation
      refine ⟨types, _, hquery, hgrows, ?_, ?_⟩
      · intro name hname
        rw [typeNamed, htypes]
        exact Registry.typeNamed_put_of_ne _ _ hname
      · intro root hroot
        obtain rfl := Option.some.inj (hsome.symm.trans hroot)
        exact hfield

theorem ne_of_underscored {name : String} (h : Underscored name) :
    name ≠ "Query" ∧ name ≠ "Mutation" := by
  constructor
  · rintro rfl
    exact not_underscored_query h
  · rintro rfl
    exact not_underscored_mutation h

/-- The root of a schema is the type that is registered under its name. -/
theorem registered_of_grows {schema : Schema} {types types' : Registry}
    (hgrows : Registry.Grows (Entries.put types "Query" schema.query) types')
    (hnamed : ∀ name, name ≠ "Mutation" → schema.typeNamed name = types'.typeNamed name) :
    schema.typeNamed "Query" = schema.query := by
  rw [hnamed "Query" (by decide), Registry.typeNamed, hgrows.roots "Query" not_underscored_query]
  exact Registry.typeNamed_put_self types "Query" schema.query

/-- A schema that is built from a value can be used on it. -/
theorem serves_of_build {limits : Limits} (hmin : 0 ≤ limits.minListLimit)
    (hmax : 0 ≤ limits.maxListLimit) {data : Json} {method path : String} {body : Option Json}
    {schema : Schema} (h : build limits data method path body = .ok schema) :
    schema.Serves data := by
  obtain ⟨types, types', hroot, hgrows, hnamed, hmutation⟩ := build_cases h
  obtain ⟨hquery, htypes⟩ := queryRoot_keeps hmin hmax hroot
  refine ⟨hquery, registered_of_grows hgrows hnamed, ?_, hmutation⟩
  intro name hname
  rw [hnamed name (ne_of_underscored hname).2]
  refine hgrows.inside ?_ name hname
  intro other hother
  rw [Registry.typeNamed_put_of_ne types schema.query (ne_of_underscored hother).1]
  exact htypes.typeNamed other

end Schema

end JsonSelection
