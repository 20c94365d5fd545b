import JsonSelection.Proofs.Schema.Serving

/-!
# Queries that run

Whether a query without arguments runs depends on the schema alone. Selections
that fit a type have a result for every source that the type can be read from.

- `Execution.Admits`: selections without aliases and arguments that fit a type.
  Exactly the fields with an object type inside have selections of their own.
- `Execution.Admits.runs`: these have a result.
- `Execution.runOne_missing`: a field with an object type inside that is
  selected without a selection of its own has none.
- `Schema.Serves.runs`, `Schema.Serves.runs_mutation`: the same from the roots
  of a schema that serves some data.

The defaults of page arguments are never negative in such a schema, so the
arguments of a field that is given none are accepted.
-/

set_option autoImplicit false

namespace JsonSelection

namespace Argument

/-- No value is a negative integer. Page arguments of this kind are not refused. -/
def NoneNegative (values : Entries Json) : Prop :=
  ∀ name value, Entries.find? values name = some value → isNegative value = false

theorem noneNegative_withDefault {values : Entries Json} (h : NoneNegative values)
    {argument : Argument} (hpaged : ∀ n, argument.default = some n → 0 ≤ n) :
    NoneNegative (withDefault values argument) := by
  unfold withDefault
  split
  · exact h
  · next default hdefault =>
      split
      · intro name value hfind
        -- the default is the only value that is written
        by_cases heq : name = argument.name
        · rw [heq, Entries.find?_put_self] at hfind
          obtain rfl := Option.some.inj hfind
          have hnonneg := hpaged default hdefault
          simp only [isNegative, decide_eq_false_iff_not]
          omega
        · rw [Entries.find?_put_of_ne values _ heq] at hfind
          exact h name value hfind
      · exact h

theorem noneNegative_defaults {arguments : List Argument} (hpaged : Field.Paged arguments)
    {values : Entries Json} (h : NoneNegative values) :
    NoneNegative (arguments.foldl withDefault values) := by
  induction arguments generalizing values with
  | nil => exact h
  | cons argument rest ih =>
      refine ih (fun other hother => hpaged other (List.mem_cons_of_mem _ hother)) ?_
      exact noneNegative_withDefault h (hpaged argument List.mem_cons_self)

/-- The values of the arguments of a selection that gives none are the defaults. -/
theorem resolve_none (schema : Schema) (owner : NamedType) {field : Field}
    (hpaged : Field.Paged field.arguments) (path : ResponsePath) :
    resolve schema owner field path [] = .ok (field.arguments.foldl withDefault []) := by
  have hnone : NoneNegative ([] : Entries Json) := by
    intro name value hfind
    cases hfind
  have hvalues := noneNegative_defaults hpaged hnone
  -- no default is negative, so none is refused
  have hnegative : negative? (field.arguments.foldl withDefault []) = none := by
    rw [negative?, List.find?_eq_none]
    intro name _ hany
    cases hfind : Entries.find? (field.arguments.foldl withDefault []) name with
    | none =>
        rw [hfind] at hany
        cases hany
    | some value =>
        rw [hfind, Option.any_some, hvalues name value hfind] at hany
        cases hany
  have hgiven : given schema owner field path [] = .ok [] := rfl
  simp only [resolve, hgiven, Outcome.ok_bind, hnegative]
  rfl

end Argument

namespace Execution

theorem mapM_succeeds {α β : Type} {f : α → Outcome β} {items : List α}
    (h : ∀ item ∈ items, ∃ value, f item = .ok value) : ∃ values,
    items.mapM f = .ok values := by
  induction items with
  | nil => exact ⟨[], rfl⟩
  | cons item rest ih =>
      obtain ⟨value, hvalue⟩ := h item List.mem_cons_self
      obtain ⟨values, hvalues⟩ := ih fun other hother => h other (List.mem_cons_of_mem _ hother)
      refine ⟨value :: values, ?_⟩
      rw [List.mapM_cons, hvalue, Outcome.ok_bind, hvalues, Outcome.ok_bind]
      rfl

/-- A value has a result of every type whose object types have one. -/
theorem complete_succeeds {object : String → Json → Outcome Json} (type : TypeRef)
    (hobject : type.Inside fun name => ∀ value, ∃ result, object name value = .ok result)
    (value : Json) (page : Option PageWindow) :
    ∃ result, complete object type value page = .ok result := by
  induction type generalizing value page with
  | scalar type => exact ⟨_, rfl⟩
  | json => exact ⟨_, rfl⟩
  | nonNull inner ih => exact ih hobject value page
  | named name =>
      cases value with
      | null => exact ⟨.null, rfl⟩
      | _ => exact hobject name rfl _
  | list item size ih =>
      have hitems : ∀ items : List Json, ∃ result,
          ((cut items (page.getD ⟨size, 0⟩)).mapM fun element =>
            complete object item element none).map
            Json.arr = .ok result := by
        intro items
        obtain ⟨values, hvalues⟩ := mapM_succeeds fun element
          (_ : element ∈ cut items (page.getD ⟨size, 0⟩)) => ih hobject element none
        exact ⟨.arr values, by rw [hvalues]; rfl⟩
      cases value with
      | null => exact ⟨.null, rfl⟩
      | _ => exact hitems _

/-- Whether braces are needed does not depend on what stands in them. -/
theorem checkSelection_congr (schema : Schema) (type : TypeRef) (name : String)
    {children others : List Selection} (h : children.isEmpty = others.isEmpty)
    (path : ResponsePath) :
    checkSelection schema type name children path = checkSelection schema type name
      others path := by
  rw [checkSelection, checkSelection, h]

theorem checkSelection_leaf (schema : Schema) {type : TypeRef} (h : type.namedInside? = none)
    (name : String) (path : ResponsePath) : checkSelection schema type name [] path = .ok () := by
  unfold checkSelection
  split
  · rfl
  · next inner hinner =>
      rw [TypeRef.namedInside?, hinner] at h
      cases h
  · rfl

theorem checkSelection_node (schema : Schema) {type : TypeRef} {inner : String}
    (h : type.namedInside? = some inner) (name : String) {children : List Selection}
    (hchildren : children ≠ []) (path : ResponsePath) :
    checkSelection schema type name children path = .ok () := by
  have hinner : type.innermost = .named inner := by
    rw [TypeRef.namedInside?] at h
    split at h
    · next heq => rw [heq, Option.some.inj h]
    · cases h
  simp [checkSelection, hinner, hchildren]

theorem checkSelection_missing (schema : Schema) {type : TypeRef} {inner : String}
    (h : type.namedInside? = some inner) (name : String) (path : ResponsePath) :
    ∃ error, checkSelection schema type name [] path = .error error := by
  have hinner : type.innermost = .named inner := by
    rw [TypeRef.namedInside?] at h
    split at h
    · next heq => rw [heq, Option.some.inj h]
    · cases h
  exact ⟨_, by simp [checkSelection, hinner]; rfl⟩

/-- Selections without aliases and arguments that fit a type: exactly the fields
with an object type inside have selections of their own, which fit that type. -/
inductive Admits (schema : Schema) : NamedType → List Selection → Prop where
  | nil {type : NamedType} : Admits schema type []
  | leaf {type : NamedType} {name : String} {field : Field} {rest : List Selection} :
      type.field? name = some field → field.type.namedInside? = none →
      Admits schema type rest →
        Admits schema type (⟨name, none, [], []⟩ :: rest)
  | node {type : NamedType} {name inner : String} {field : Field} {children rest : List Selection} :
      type.field? name = some field → field.type.namedInside? = some inner → children ≠ [] →
        Admits schema (schema.typeNamed inner) children → Admits schema type rest →
        Admits schema type (⟨name, none, [], children⟩ :: rest)

theorem name_of_field? {type : NamedType} {name : String} {field : Field}
    (h : type.field? name = some field) : field ∈ type.fields ∧ field.name = name :=
  ⟨List.mem_of_find?_eq_some h, by simpa using List.find?_some h⟩

/-- The values of the arguments of a field when a selection gives none.
Arguments without default have no value then. -/
def defaults (field : Field) : Entries Json :=
  field.arguments.foldl Argument.withDefault []

/-- A selection without alias and arguments shows the value that its field reads. -/
theorem runOne_eq {schema : Schema} {type : NamedType} {name : String} {field : Field}
    {children : List Selection} (hfield : type.field? name = some field)
    (hordinary : field.name ≠ typeNameField) (hpaged : Field.Paged field.arguments)
    {source value : Json} (hvalue : field.reader.read source = .ok value) {path : ResponsePath}
    (hcheck : checkSelection schema field.type name children path = .ok ()) :
    runOne schema ⟨name, none, [], children⟩ type source path =
      complete
        (fun inner element =>
          (runAll schema children (schema.typeNamed inner) element path []).map Json.obj)
        field.type value (pageOf field.type (defaults field)) := by
  have hname : name ≠ typeNameField := by
    rw [← (name_of_field? hfield).2]
    exact hordinary
  simp only [runOne, if_neg hname, hfield, hcheck, ofQuery, Outcome.mapError_ok, Outcome.ok_bind,
    Argument.resolve_none schema type hpaged path, hvalue]
  rfl

/-- A selected field has a result when its object type has one for every value. -/
theorem runOne_succeeds {schema : Schema} {type : NamedType} {sources : Json → Prop}
    {name : String} {field : Field} {children : List Selection}
    (hfield : type.field? name = some field) (hselectable : field.Selectable sources)
    {source : Json} (hsource : sources source) {path : ResponsePath}
    (hcheck : checkSelection schema field.type name children path = .ok ())
    (hchildren : field.type.Inside fun inner => ∀ value, ∃ result,
      runAll schema children (schema.typeNamed inner) value path [] = .ok result) :
    ∃ result, runOne schema ⟨name, none, [], children⟩ type source path = .ok result := by
  obtain ⟨value, hvalue⟩ := hselectable.readable source hsource
  have hobjects : field.type.Inside fun inner => ∀ element, ∃ result,
      (runAll schema children (schema.typeNamed inner) element path []).map Json.obj =
        .ok result := by
    intro inner hinner element
    obtain ⟨result, hresult⟩ := hchildren inner hinner element
    exact ⟨.obj result, by rw [hresult]; rfl⟩
  rw [runOne_eq hfield hselectable.ordinary hselectable.paged hvalue hcheck]
  exact complete_succeeds field.type hobjects value _

/-- Selections that fit a type have a result for every source that the type can
be read from. -/
theorem Admits.runs {schema : Schema}
    (hinside : ∀ name, Underscored name → (schema.typeNamed name).Selectable fun _ => True)
    {type : NamedType} {selections : List Selection} (h : Admits schema type selections)
    {sources : Json → Prop} (htype : type.Selectable sources) {source : Json}
    (hsource : sources source) (path : ResponsePath) (done : Entries Json) :
    ∃ result, runAll schema selections type source path done = .ok result := by
  induction h generalizing sources source path done with
  | nil => exact ⟨done, rfl⟩
  | @leaf type name field rest hfield hleaf _ ih =>
      have hselectable := htype.fields field (name_of_field? hfield).1
      -- the rest of the selections runs whatever is written under this key
      obtain ⟨value, hvalue⟩ := runOne_succeeds hfield hselectable hsource
        (checkSelection_leaf schema hleaf name (path ++ [name])) (TypeRef.inside_of_none hleaf _)
      obtain ⟨result, hresult⟩ := ih htype hsource path (Entries.put done name value)
      refine ⟨result, ?_⟩
      rw [runAll]
      simp only [Selection.responseKey, Option.getD_none, hvalue]
      exact hresult
  | @node type name inner field children rest hfield hnode hnonempty _ _ ihChildren ih =>
      have hselectable := htype.fields field (name_of_field? hfield).1
      have hchildren : field.type.Inside fun inner => ∀ value, ∃ result,
          runAll schema children (schema.typeNamed inner) value (path ++ [name]) [] =
            .ok result := by
        intro inner' hinner' value
        rw [hnode] at hinner'
        obtain rfl := Option.some.inj hinner'
        exact ihChildren (hinside inner (hselectable.inside inner hnode)) trivial _ _
      obtain ⟨value, hvalue⟩ := runOne_succeeds hfield hselectable hsource
        (checkSelection_node schema hnode name hnonempty (path ++ [name])) hchildren
      obtain ⟨result, hresult⟩ := ih htype hsource path (Entries.put done name value)
      refine ⟨result, ?_⟩
      rw [runAll]
      simp only [Selection.responseKey, Option.getD_none, hvalue]
      exact hresult

/-- When selections have a result, each of them has one. -/
theorem runOne_of_runAll {schema : Schema} {selections : List Selection} {type : NamedType}
    {source : Json} {path : ResponsePath} {done result : Entries Json}
    (h : runAll schema selections type source path done = .ok result) :
    ∀ selection ∈ selections, ∃ value,
      runOne schema selection type source (path ++ [selection.responseKey]) = .ok value := by
  induction selections generalizing done with
  | nil => simp
  | cons first rest ih =>
      rw [runAll] at h
      split at h
      · cases h
      · next value hvalue =>
          intro selection hmem
          rcases List.mem_cons.mp hmem with rfl | hmem
          · exact ⟨value, hvalue⟩
          · exact ih h selection hmem

/-- A field with an object type inside that is selected without a selection of
its own has no result. -/
theorem runOne_missing {schema : Schema} {type : NamedType} {name inner : String} {field : Field}
    (hfield : type.field? name = some field) (hordinary : field.name ≠ typeNameField)
    (hinner : field.type.namedInside? = some inner) (source : Json) (path : ResponsePath) :
    ∃ error, runOne schema ⟨name, none, [], []⟩ type source path = .error error := by
  have hname : name ≠ typeNameField := by
    rw [← (name_of_field? hfield).2]
    exact hordinary
  obtain ⟨error, herror⟩ := checkSelection_missing schema hinner name path
  refine ⟨.query error, ?_⟩
  simp only [runOne, if_neg hname, hfield, herror]
  rfl

end Execution

namespace Schema

/-- Selections that fit the query root run on the value that the schema serves. -/
theorem Serves.runs {schema : Schema} {data : Json} (h : schema.Serves data)
    {selections : List Selection} (hadmits : Execution.Admits schema schema.query selections) :
    ∃ result, Execution.runOperation schema data ⟨.query, none, selections⟩ = .ok result :=
  hadmits.runs h.inside h.query rfl [] []

/-- The field of a mutation root runs with selections that fit the query root. -/
theorem Serves.runs_mutation {schema : Schema} {data : Json} (h : schema.Serves data)
    {root : NamedType} (hroot : schema.mutation = some root) {field : Field}
    (hfield : field ∈ root.fields) {selections : List Selection}
    (hadmits : Execution.Admits schema schema.query selections) (hnonempty : selections ≠ []) :
    ∃ result, Execution.runOperation schema data
      ⟨.mutation, none, [⟨field.name, none, [], selections⟩]⟩ = .ok result := by
  obtain ⟨only, hfields, hmutation⟩ := h.mutation root hroot
  rw [hfields] at hfield
  obtain rfl := List.mem_singleton.mp hfield
  have hfind : root.field? field.name = some field := by
    simp [NamedType.field?, hfields]
  have hnode : field.type.namedInside? = some "Query" := by
    rw [hmutation.type]
    rfl
  have hread : field.reader.read data = .ok data := by
    rw [hmutation.whole]
    rfl
  have hone := Execution.runOne_eq hfind hmutation.ordinary hmutation.paged hread
    (Execution.checkSelection_node schema hnode field.name hnonempty [field.name])
  have hobject : ∃ result, (Execution.runAll schema selections (schema.typeNamed "Query") data
      [field.name] []).map Json.obj = .ok result := by
    obtain ⟨result, hresult⟩ := hadmits.runs h.inside h.query rfl [field.name] []
    exact ⟨.obj result, by rw [h.registered, hresult]; rfl⟩
  have hvalue : ∃ value, Execution.runOne schema ⟨field.name, none, [], selections⟩ root data
      [field.name] = .ok value := by
    rw [hone, hmutation.type]
    -- of `null` nothing is selected
    cases data with
    | null => exact ⟨.null, rfl⟩
    | _ => exact hobject
  obtain ⟨value, hvalue⟩ := hvalue
  refine ⟨[(field.name, value)], ?_⟩
  simp only [Execution.runOperation, Execution.rootOf, hroot, Execution.ofQuery,
    Outcome.mapError_ok,
    Outcome.ok_bind, Execution.runAll, Selection.responseKey, Option.getD_none,
    List.nil_append, hvalue]
  rfl

end Schema

end JsonSelection
