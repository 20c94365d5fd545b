import JsonSelection.Proofs.Query.Restoring
import JsonSelection.Proofs.Sample
import JsonSelection.Proofs.Schema.Building

/-!
# The query that selects everything

For every schema of an object without arrays there is a query that selects every
field, and what it shows of the object gives the object again if and only if the
query is not nested too deeply and the types of the schema describe the object.

## What this module delivers

- `SelectsAll.exists_written`: the selection of all fields exists and can be
  written as a text. The names of types grow on the way down, so it comes to an
  end.
- `SelectsAll.shows`: it shows every field as it can be restored.
- `Outline.ofJson_describing`: types that are inferred describe their object, if
  the names of the types are apart.
- `Schema.showsAll_iff_describes`: the equivalence for whole queries.

Both conditions hold as long as no two objects inside are given one type name
and the object is not too deep. When two are given one name, the later one is
shown by the fields of the first; the example at the end is such an object.
-/

set_option autoImplicit false

namespace JsonSelection

/-- Below the root types every registered type can be selected from and is plain. -/
structure Registry.Legible (types : Registry) : Prop where
  selectable : ∀ name, Underscored name → (types.typeNamed name).Selectable fun _ => True
  plain : ∀ name, Underscored name → types.has name = true →
    (types.typeNamed name).Plain types name

/-- The object type in a plain field has the name of its place, and it is
registered. -/
theorem Field.Plain.object {types : Registry} {owner inner : String} {field : Field}
    (h : field.Plain types owner) (hinner : field.type.namedInside? = some inner) :
    field.type = .named inner ∧ inner = owner ++ "_" ++ field.name ∧
    types.has inner = true := by
  have htype := h.type
  generalize field.type = type at hinner htype
  cases htype with
  | scalar type => cases hinner
  | json => cases hinner
  | object hhas =>
      obtain rfl := Option.some.inj hinner
      exact ⟨rfl, rfl, hhas⟩

namespace SelectsAll

open Execution Query

variable {types : Registry}

theorem ne_nil {fields : List Field} {selections : List Selection}
    (h : SelectsAll types fields selections) (hfields : fields ≠ []) : selections ≠ [] := by
  cases h with
  | nil => exact absurd rfl hfields
  | leaf _ _ => exact List.cons_ne_nil _ _
  | node _ _ _ => exact List.cons_ne_nil _ _

/-! ### There is such a query -/

theorem of_children {fields : List Field}
    (h : ∀ field ∈ fields, ∀ inner, field.type.namedInside? = some inner →
      ∃ children, SelectsAll types (types.typeNamed inner).fields children) :
    ∃ selections, SelectsAll types fields selections := by
  induction fields with
  | nil => exact ⟨[], .nil⟩
  | cons field rest ih =>
      obtain ⟨selections, hselections⟩ := ih fun other hother =>
        h other (List.mem_cons_of_mem _ hother)
      cases hinner : field.type.namedInside? with
      | none => exact ⟨_, .leaf hinner hselections⟩
      | some inner =>
          obtain ⟨children, hchildren⟩ := h field List.mem_cons_self inner hinner
          exact ⟨_, .node hinner hchildren hselections⟩

theorem exists_bound (types : Registry) :
    ∃ bound, ∀ name, types.has name = true → name.length ≤ bound := by
  have hkeys : ∃ bound, ∀ name ∈ Entries.keys types, name.length ≤ bound := by
    generalize Entries.keys types = names
    induction names with
    | nil => exact ⟨0, by simp⟩
    | cons first rest ih =>
        obtain ⟨bound, hbound⟩ := ih
        refine ⟨max first.length bound, ?_⟩
        intro name hname
        rcases List.mem_cons.mp hname with rfl | hname
        · exact Nat.le_max_left _ _
        · exact Nat.le_trans (hbound name hname) (Nat.le_max_right _ _)
  obtain ⟨bound, hbound⟩ := hkeys
  exact ⟨bound, fun name hname => hbound name ((Entries.has_iff_mem_keys types name).mp hname)⟩

/-- The names of types grow on the way down, so the selection of all fields
comes to an end. -/
theorem exists_of_plain (hlegible : types.Legible) {type : NamedType} {owner : String}
    (hplain : type.Plain types owner) : ∃ selections,
    SelectsAll types type.fields selections := by
  obtain ⟨bound, hbound⟩ := exists_bound types
  have hfuel : ∃ fuel, bound < owner.length + fuel := ⟨bound + 1, by omega⟩
  -- the fuel is the length that is left to the names of types
  obtain ⟨fuel, hfuel⟩ := hfuel
  induction fuel generalizing type owner with
  | zero =>
      refine of_children ?_
      intro field hfield inner hinner
      obtain ⟨-, rfl, hhas⟩ := (hplain.fields field hfield).object hinner
      have hlonger := Inference.length_lt_join owner field.name
      have hshort := hbound _ hhas
      omega
  | succ fuel ih =>
      refine of_children ?_
      intro field hfield inner hinner
      obtain ⟨-, rfl, hhas⟩ := (hplain.fields field hfield).object hinner
      have hlonger := Inference.length_lt_join owner field.name
      exact ih (hlegible.plain _ (underscored_join owner field.name) hhas) (by omega)

/-- The selection of all fields can be written. -/
theorem exists_written (hlegible : types.Legible) {fields : List Field}
    {selections : List Selection} (h : SelectsAll types fields selections) {type : NamedType}
    {sources : Json → Prop} {owner : String} (htype : type.Selectable sources)
    (hplain : type.Plain types owner) (hsub : ∀ field ∈ fields, field ∈ type.fields) :
    ∃ words height, Written selections words height := by
  induction h generalizing type sources owner with
  | nil => exact ⟨[], 0, .nil⟩
  | @leaf field fields selections _ _ ih =>
      obtain ⟨words, height, hwritten⟩ :=
        ih htype hplain fun other hother => hsub other (List.mem_cons_of_mem _ hother)
      have hname := (htype.fields field (hsub field List.mem_cons_self)).name
      exact ⟨_, _, .leaf hname hwritten⟩
  | @node field inner fields children selections hinner hchildren _ ihChildren ih =>
      obtain ⟨words, height, hwritten⟩ :=
        ih htype hplain fun other hother => hsub other (List.mem_cons_of_mem _ hother)
      have hfield := hsub field List.mem_cons_self
      have hname := (htype.fields field hfield).name
      obtain ⟨-, rfl, hhas⟩ := (hplain.fields field hfield).object hinner
      have hunderscored := underscored_join owner field.name
      have hplainInner := hlegible.plain _ hunderscored hhas
      obtain ⟨inside, below, hinside⟩ :=
        ihChildren (hlegible.selectable _ hunderscored) hplainInner fun _ => id
      exact ⟨_, _, .node hname hinside (hchildren.ne_nil hplainInner.nonempty) hwritten⟩

/-! ### What it shows -/

/-- Selections that show fields of a source, each as it can be restored. There
is one selection for each field, in order. -/
def Shows (schema : Schema) (fields : List Field) (selections : List Selection) (type : NamedType)
    (source : Json) : Prop :=
  ∀ (path : ResponsePath) (done : Entries Json),
    (∀ field ∈ fields, field.name ∉ Entries.keys done) →
    ∃ result : Field → Json,
      runAll schema selections type source path done =
        .ok (done ++ fields.map fun field => (field.name, result field)) ∧
      ∀ field ∈ fields, field.Restored schema.types source (result field)

theorem shows_nil (schema : Schema) (type : NamedType) (source : Json) :
    Shows schema [] [] type source := by
  intro path done _
  refine ⟨fun _ => .null, ?_, by simp⟩
  rw [runAll, List.map_nil, List.append_nil]

theorem Shows.cons {schema : Schema} {field : Field} {fields : List Field} {selection : Selection}
    {selections : List Selection} {type : NamedType} {source : Json}
    (h : Shows schema fields selections type source) (hkey : selection.responseKey = field.name)
    (hnew : field.name ∉ fields.map Field.name)
    (hone : ∀ path, ∃ shown, runOne schema selection type source path = .ok shown ∧
      field.Restored schema.types source shown) :
    Shows schema (field :: fields) (selection :: selections) type source := by
  intro path done hdone
  obtain ⟨shown, hshown, hrestored⟩ := hone (path ++ [field.name])
  have hfresh := hdone field List.mem_cons_self
  have hdone' : ∀ other ∈ fields,
      other.name ∉ Entries.keys (done ++ [(field.name, shown)]) := by
    intro other hother hmem
    rw [Entries.keys_append, List.mem_append] at hmem
    rcases hmem with hmem | hmem
    · exact hdone other (List.mem_cons_of_mem _ hother) hmem
    · have heq : other.name = field.name := List.mem_singleton.mp hmem
      exact hnew (heq ▸ List.mem_map_of_mem hother)
  obtain ⟨result, hrun, hresult⟩ := h path _ hdone'
  -- the fields have names of their own, so what they show can be told by one function
  obtain ⟨result', hfirst, hothers⟩ : ∃ result' : Field → Json, result' field = shown ∧
      ∀ other ∈ fields, result' other = result other := by
    refine ⟨fun other => if other = field then shown else result other, if_pos rfl, ?_⟩
    intro other hother
    refine if_neg ?_
    rintro rfl
    exact hnew (List.mem_map_of_mem hother)
  refine ⟨result', ?_, ?_⟩
  · have hmap : fields.map (fun other => (other.name, result' other)) =
        fields.map fun other => (other.name, result other) :=
      List.map_congr_left fun other hother => by rw [hothers other hother]
    rw [runAll, List.map_cons, hmap, hfirst]
    simp only [hkey, hshown, Entries.put_of_not_mem shown hfresh, hrun, List.append_assoc,
      List.singleton_append]
  · intro other hother
    rcases List.mem_cons.mp hother with rfl | hother
    · rw [hfirst]
      exact hrestored
    · rw [hothers other hother]
      exact hresult other hother

/-- A selected field is shown as it can be restored, if every value it can read is. -/
theorem shown_of_complete {schema : Schema} {type : NamedType} {sources : Json → Prop}
    {owner : String} (htype : type.Selectable sources) (hplain : type.Plain schema.types owner)
    {field : Field} (hfield : field ∈ type.fields) {children : List Selection}
    {path : ResponsePath}
    (hcheck : checkSelection schema field.type field.name children path = .ok ())
    (h : ∀ value, ∃ shown,
      complete (fun inner element =>
          (runAll schema children (schema.typeNamed inner) element path []).map Json.obj)
        field.type value (pageOf field.type (defaults field)) = .ok shown ∧
      Restores schema.types field.type value shown) (source : Json) :
    ∃ shown, runOne schema ⟨field.name, none, [], children⟩ type source path = .ok shown ∧
      field.Restored schema.types source shown := by
  have hselectable := htype.fields field hfield
  obtain ⟨value, hvalue⟩ := (hplain.fields field hfield).readable source
  obtain ⟨shown, hshown, hrestores⟩ := h value
  refine ⟨shown, ?_, value, hvalue, hrestores⟩
  rw [runOne_eq (NamedType.field?_of_mem htype hfield) hselectable.ordinary hselectable.paged
    hvalue hcheck]
  exact hshown

/-- A value of an object type is shown as it can be restored, if the selection
below shows every field of the type. -/
theorem restores_named {schema : Schema} {name owner : String} {sources : Json → Prop}
    (htype : (schema.types.typeNamed name).Selectable sources)
    (hplain : (schema.types.typeNamed name).Plain schema.types owner) {children : List Selection}
    (hchildren : ∀ source, Shows schema (schema.types.typeNamed name).fields children
      (schema.types.typeNamed name) source)
    (path : ResponsePath) (value : Json) (page : Option PageWindow) :
    ∃ shown,
      complete (fun inner element =>
          (runAll schema children (schema.typeNamed inner) element path []).map Json.obj)
        (.named name) value page = .ok shown ∧
      Restores schema.types (.named name) value shown := by
  by_cases hnull : value = .null
  · subst hnull
    exact ⟨.null, by rw [complete], restores_null schema.types name⟩
  · obtain ⟨result, hrun, hresult⟩ := hchildren value path [] (by simp [Entries.keys])
    rw [List.nil_append] at hrun
    refine ⟨_, ?_, restores_object hplain
      (fun other hother => NamedType.field?_of_mem htype hother) hnull hresult⟩
    rw [complete]
    · exact Outcome.map_eq_ok_iff.mpr ⟨_, hrun, rfl⟩
    · exact hnull

/-- The selection of all fields shows every one of them as it can be restored. -/
theorem shows {schema : Schema} (hlegible : schema.types.Legible) {fields : List Field}
    {selections : List Selection} (h : SelectsAll schema.types fields selections) {type : NamedType}
    {sources : Json → Prop} {owner : String} (htype : type.Selectable sources)
    (hplain : type.Plain schema.types owner) (hsub : ∀ field ∈ fields, field ∈ type.fields)
    (hnames : (fields.map Field.name).Nodup) (source : Json) :
    Shows schema fields selections type source := by
  induction h generalizing type sources owner source with
  | nil => exact shows_nil schema type source
  | @leaf field fields selections hleaf _ ih =>
      rw [List.map_cons, List.nodup_cons] at hnames
      have hothers := ih htype hplain (fun other hother =>
        hsub other (List.mem_cons_of_mem _ hother)) hnames.2 source
      refine hothers.cons rfl hnames.1 fun path => ?_
      have hfield := hsub field List.mem_cons_self
      refine shown_of_complete htype hplain hfield
        (checkSelection_leaf schema hleaf field.name path) (fun value => ?_) source
      exact restores_leaf (hplain.fields field hfield).type hleaf _ value _
  | @node field inner fields children selections hinner hchildren _ ihChildren ih =>
      rw [List.map_cons, List.nodup_cons] at hnames
      have hothers := ih htype hplain (fun other hother =>
        hsub other (List.mem_cons_of_mem _ hother)) hnames.2 source
      refine hothers.cons rfl hnames.1 fun path => ?_
      have hfield := hsub field List.mem_cons_self
      -- the type below is named after its place, so it is one of the legible types
      obtain ⟨htypeName, rfl, hhas⟩ := (hplain.fields field hfield).object hinner
      have hunderscored := underscored_join owner field.name
      have hselectableInner := hlegible.selectable _ hunderscored
      have hplainInner := hlegible.plain _ hunderscored hhas
      refine shown_of_complete htype hplain hfield (checkSelection_node schema hinner field.name
        (hchildren.ne_nil hplainInner.nonempty) path) (fun value => ?_) source
      rw [htypeName]
      exact restores_named hselectableInner hplainInner (fun source =>
        ihChildren hselectableInner hplainInner (fun _ => id) hselectableInner.distinct source)
        path value _

end SelectsAll

/-! ### Types with names of their own

An outline is what the inference says of a value before types are registered.
With names that are apart it describes the value, and it is no higher than its
levels. -/

namespace Outline

open Inference

/-- An outline of values without arrays describes each of them. -/
def Describing (outline : Child) : Prop :=
  ∀ ⦃value typeName⦄ ⦃types : Registry⦄, value.ArrayFree → value.WellFormed →
    Held types (outline value typeName []).2 → types.Describes (outline value typeName []).1 value

theorem same_scalarType (value : Json) : Json.Same ((scalarType value).serialize value) value := by
  cases value with
  | float x =>
      rw [scalarType]
      split
      · rw [Scalar.serialize]
        split
        · next hn => exact .integral hn
        · exact .refl _
      · exact .refl _
  | _ => exact .refl _

theorem labels_fields (child : Child) (typeName : String) (used : List String)
    (entries : Entries Json) :
    (fields child typeName [] used entries).1.map Field.label = Entries.keys entries := by
  induction entries generalizing used with
  | nil => rfl
  | cons entry rest ih => exact congrArg (entry.1 :: ·) (ih _)

theorem objectType_describing {child : Child} (hchild : Describing child) {entries : Entries Json}
    (hfree : (Json.obj entries).ArrayFree) (hformed : (Json.obj entries).WellFormed)
    {typeName : String} {types : Registry}
    (hheld : Held types (objectType child entries typeName []).2) :
    types.Describes (.named typeName) (.obj entries) := by
  cases entries with
  | nil =>
      refine .empty ?_
      rw [NamedType.labels, hheld _ List.mem_cons_self]
      rfl
  | cons entry rest =>
      have hfields : (types.typeNamed typeName).fields =
          (fields child typeName [] [] (entry :: rest)).1 := hheld _ List.mem_cons_self
      have hfield : ∀ field ∈ (types.typeNamed typeName).fields, ∀ value,
          Entries.find? (entry :: rest) field.label = some value →
            field.reader.read (.obj (entry :: rest)) = .ok value ∧
            types.Describes field.type value := by
        intro field hmem value hvalue
        rw [hfields] at hmem
        -- the label of a field is its key, so the value read is the one of that
        -- entry
        obtain ⟨key, value', name, hentry, rfl, htypes⟩ := mem_fields hmem
        have hfind := Entries.find?_of_mem hformed.1 hentry
        obtain rfl : value = value' := Option.some.inj (hvalue.symm.trans hfind)
        constructor
        · have hmember : Json.member? (.obj (entry :: rest)) key = some value := hfind
          rw [typedField, Reader.read, hmember]
          rfl
        · refine hchild (Json.entriesArrayFree_iff _ |>.mp hfree _ hentry)
            (hformed.value hentry) ?_
          exact fun other hother => hheld other (List.mem_cons_of_mem _ (htypes other hother))
      refine .object (fun key => ?_) (fun field hmem value hvalue =>
        (hfield field hmem value hvalue).1)
        fun field hmem value hvalue => (hfield field hmem value hvalue).2
      rw [NamedType.labels, hfields, labels_fields, Entries.has_iff_mem_keys]

/-- What an outline says of a value without arrays describes the value. -/
theorem ofJson_describing (limits : Limits) (levels : Nat) : Describing (ofJson limits levels) := by
  induction levels with
  | zero =>
      intro value typeName types _ _ _
      cases value with
      | null => exact .scalar (.refl .null)
      | _ => exact .json
  | succ levels ih =>
      intro value typeName types hfree hformed hheld
      cases value with
      | null => exact .scalar (.refl .null)
      | arr items => exact hfree.elim
      | obj entries =>
          have hdescribes := objectType_describing ih hfree hformed hheld
          cases entries <;> exact hdescribes
      | _ => exact .scalar (same_scalarType _)

/-- The selection of all fields of an object type is lower than a bound. -/
def Low (types : Registry) (bound : Nat) (name : String) : Prop :=
  ∀ selections words height, SelectsAll types (types.typeNamed name).fields selections →
    Query.Written selections words height → height < bound

/-- The selection of all fields of an outline is lower than a bound. The bound
is what a parser can descend. -/
def LowerThan (bound : Nat) (outline : Child) : Prop :=
  ∀ ⦃value typeName⦄ ⦃types : Registry⦄, value.ArrayFree →
    Held types (outline value typeName []).2 →
    (outline value typeName []).1.Inside (Low types bound)

theorem height_le_of_children {types : Registry} {fields : List Field} {bound : Nat}
    (h : ∀ field ∈ fields, field.type.Inside (Low types bound)) {selections : List Selection}
    (hall : SelectsAll types fields selections) {words : List String} {height : Nat}
    (hwritten : Query.Written selections words height) : height ≤ bound := by
  induction hall generalizing words height with
  | nil =>
      cases hwritten
      exact Nat.zero_le bound
  | leaf _ _ ih =>
      cases hwritten with
      | leaf _ hwritten =>
          exact ih (fun other hother => h other (List.mem_cons_of_mem _ hother)) hwritten
      | node _ _ hnonempty _ => exact absurd rfl hnonempty
  | @node field inner fields children selections hinner hchildren _ _ ih =>
      cases hwritten with
      | leaf _ hwritten =>
          exact ih (fun other hother => h other (List.mem_cons_of_mem _ hother)) hwritten
      | node _ hinside _ hwritten =>
          have hbelow := h field List.mem_cons_self inner hinner _ _ _ hchildren hinside
          have hothers := ih (fun other hother => h other (List.mem_cons_of_mem _ hother)) hwritten
          exact Nat.max_le.mpr ⟨hbelow, hothers⟩

theorem objectType_lowerThan {bound : Nat} {child : Child} (hchild : LowerThan bound child)
    {entries : Entries Json} (hfree : (Json.obj entries).ArrayFree) {typeName : String}
    {types : Registry} (hheld : Held types (objectType child entries typeName []).2)
    {selections : List Selection}
    (hall : SelectsAll types (types.typeNamed typeName).fields selections) {words : List String}
    {height : Nat} (hwritten : Query.Written selections words height) :
    height ≤ bound := by
  refine height_le_of_children ?_ hall hwritten
  intro field hfield inner hinner
  cases entries with
  | nil =>
      have hfields : (types.typeNamed typeName).fields = [emptyField] := hheld _ List.mem_cons_self
      -- the field of an empty object has no object type inside
      rw [hfields, List.mem_singleton] at hfield
      rw [hfield] at hinner
      cases hinner
  | cons entry rest =>
      have hfields : (types.typeNamed typeName).fields =
          (fields child typeName [] [] (entry :: rest)).1 := hheld _ List.mem_cons_self
      rw [hfields] at hfield
      obtain ⟨key, value, name, hentry, rfl, htypes⟩ := mem_fields hfield
      refine hchild (Json.entriesArrayFree_iff _ |>.mp hfree _ hentry) ?_ inner hinner
      exact fun other hother => hheld other (List.mem_cons_of_mem _ (htypes other hother))

/-- The selection of all fields of an outline is not higher than the levels that
the outline has. -/
theorem ofJson_lowerThan (limits : Limits) (levels : Nat) :
    LowerThan levels (ofJson limits levels) := by
  induction levels with
  | zero =>
      intro value typeName types _ _ inner hinner
      cases value <;> cases hinner
  | succ levels ih =>
      intro value typeName types hfree hheld inner hinner selections words height hall hwritten
      cases value with
      | arr items => exact hfree.elim
      | obj entries =>
          have hname : inner = typeName := by
            cases entries <;> exact (Option.some.inj hinner).symm
          rw [hname] at hall
          exact Nat.lt_succ_of_le (objectType_lowerThan ih hfree hheld hall hwritten)
      | _ => cases hinner

end Outline

namespace Schema

open Query Execution

/-- A query shows all of a value: it has a result, which under the original keys
is the value. -/
def ShowsAll (schema : Schema) (data : Json) (text : String) : Prop :=
  ∃ result, run schema data text = .ok result ∧
    Json.Same (restore schema.types (.named "Query") (.obj result)) data

/-- A query that selects every field shows all of an object if and only if it is
not too high for the parser and the types describe the object. -/
theorem Serves.showsAll_iff {schema : Schema} {entries : List (String × Json)}
    (hserves : schema.Serves (.obj entries)) (hlegible : schema.types.Legible) {owner : String}
    (hplain : schema.query.Plain schema.types owner) {selections : List Selection}
    (hall : SelectsAll schema.types schema.query.fields selections) {words : List String}
    {height : Nat} (hwritten : Written selections words height) :
    schema.ShowsAll (.obj entries) (" ".intercalate ("\x7b" :: (words ++ ["\x7d"]))) ↔
      height < nesting ∧ schema.types.Describes (.named "Query") (.obj entries) := by
  have hnonempty := hall.ne_nil hplain.nonempty
  have hquery : schema.types.typeNamed "Query" = schema.query := hserves.registered
  obtain ⟨result, hrun, hresult⟩ := hall.shows hlegible hserves.query hplain (fun _ => id)
    hserves.query.distinct (.obj entries) [] [] (by simp [Entries.keys])
  have hplain' : (schema.types.typeNamed "Query").Plain schema.types owner := by
    rw [hquery]
    exact hplain
  have hrestores := restores_object hplain'
    (fun field hfield => by
      rw [hquery] at hfield ⊢
      exact NamedType.field?_of_mem hserves.query hfield)
    (show Json.obj entries ≠ .null from fun hnull => by cases hnull)
      (by rw [hquery]; exact hresult)
  rw [hquery] at hrestores
  constructor
  · rintro ⟨shown, hshown, hsame⟩
    -- the text can only be parsed to the selections that it writes
    obtain ⟨operation, hparse, hoperation⟩ := Outcome.bind_eq_ok_iff.mp hshown
    obtain ⟨rfl, hheight⟩ :=
      (parse_written_iff hwritten hnonempty operation).mp (Outcome.mapError_eq_ok_iff.mp hparse)
    have heq := hrun.symm.trans hoperation
    rw [List.nil_append] at heq
    obtain rfl := Except.ok.inj heq
    exact ⟨hheight, hrestores.same_iff.mp hsame⟩
  · rintro ⟨hheight, hdescribes⟩
    refine ⟨_, ?_, hrestores.same_iff.mpr hdescribes⟩
    simp only [run, parse_written hwritten hnonempty hheight, ofQuery, Outcome.mapError_ok,
      Outcome.ok_bind]
    exact hrun

theorem legible_ofObject {types : Registry} (hplain : types.Plain) {method path : String}
    {data : Json} (hserves : (ofObject types method path).Serves data) :
    (ofObject types method path).types.Legible := by
  refine ⟨hserves.inside, ?_⟩
  intro name hname hhas
  have hne : name ≠ "Query" := by
    rintro rfl
    exact not_underscored_query hname
  obtain ⟨type, htype⟩ := Option.isSome_iff_exists.mp hhas
  have hfind : Entries.find? types name = some type := by
    rw [← Entries.find?_put_of_ne types (ofObject types method path).query hne]
    exact htype
  have hnamed : (ofObject types method path).types.typeNamed name = type := by
    rw [Registry.typeNamed, htype]
    rfl
  rw [hnamed]
  exact (hplain name type hfind).mono fun _ => Registry.has_put types "Query" _

theorem plain_ofObject {types : Registry} (hplain : types.Plain) {method path baseName : String}
    (hbase : TypeName.derive (Text.upper method) path = baseName)
    (hhas : types.has baseName = true) :
    (ofObject types method path).query.Plain (ofObject types method path).types baseName := by
  obtain ⟨type, htype⟩ := Option.isSome_iff_exists.mp hhas
  have hquery : (ofObject types method path).query = queryType type.fields := by
    rw [ofObject, hbase, Registry.typeNamed, htype]
    rfl
  have htypePlain := (hplain baseName type htype).mono fun _ =>
    Registry.has_put types "Query" (ofObject types method path).query
  rw [hquery]
  exact ⟨htypePlain.nonempty, htypePlain.distinct, htypePlain.fields⟩

/-- When the names of the types are apart, the schema of an object holds the
outline of the object. -/
theorem held_ofObject {entries : List (String × Json)} {method path baseName : String}
    (hbase : TypeName.derive (Text.upper method) path = baseName)
    (hapart : NamesApart (.obj entries) method path) {types : Registry}
    (hbuild : build {} (.obj entries) method path none = .ok (ofObject types method path)) :
    Outline.Held (ofObject types method path).types
        (Outline.objectType (Outline.ofJson {} 7) entries baseName []).2 ∧
      (ofObject types method path).query.fields =
        ((ofObject types method path).types.typeNamed baseName).fields := by
  rw [NamesApart, hbase] at hapart
  have hlevels : Limits.levelsFrom {} 0 = 7 + 1 := rfl
  have hqueryRoot : queryRoot {} (.obj entries) baseName = _ :=
    queryRoot_eq_shared (by decide) (.obj entries) baseName
  rw [rootType_object hlevels] at hqueryRoot
  have hheld := held_rootType {} (.obj entries) baseName
  rw [rootType_object hlevels] at hheld
  rw [Outline.shared_eq_ofResponse hapart] at hqueryRoot hheld
  subst hbase
  rw [build_of_queryRoot hqueryRoot] at hbuild
  rw [← Except.ok.inj hbuild]
  rw [ofResponse_object hlevels, ← Outline.objectType_eq_cons] at hheld
  exact ⟨hheld, hheld.ownFields.symm⟩

/-- For every object without arrays there is a query that selects all fields of
its schema. It shows all of the object if and only if it is not too high for the
parser and the types of the schema describe the object; it does so when the
names of the types are apart. -/
theorem showsAll_iff_describes (method path : String) {entries : List (String × Json)}
    (hformed : (Json.obj entries).WellFormed) (hfree : (Json.obj entries).ArrayFree) :
    ∃ schema selections words height, build {} (.obj entries) method path none = .ok schema ∧
      SelectsAll schema.types schema.query.fields selections ∧ Written selections words height ∧
      (schema.ShowsAll (.obj entries) (" ".intercalate ("\x7b" :: (words ++ ["\x7d"]))) ↔
        height < nesting ∧ schema.types.Describes (.named "Query") (.obj entries)) ∧
      (NamesApart (.obj entries) method path →
        schema.ShowsAll (.obj entries) (" ".intercalate ("\x7b" :: (words ++ ["\x7d"])))) := by
  obtain ⟨types, htypes, hbuild⟩ :=
    build_object (by decide) (show Limits.levelsFrom {} 0 = 7 + 1 from rfl) entries method path
  have hserves := serves_of_build (by decide) (by decide) hbuild
  obtain ⟨hbase, hplain⟩ := Inference.inferType_plain {} (7 + 1) hfree hformed htypes
  have hlegible := legible_ofObject hplain hserves
  have hroot : (ofObject types method path).query.Plain (ofObject types method path).types
      (TypeName.derive (Text.upper method) path) := by
    refine plain_ofObject hplain rfl ?_
    cases hbase with
    | object hhas => exact hhas
  obtain ⟨selections, hall⟩ := SelectsAll.exists_of_plain hlegible hroot
  obtain ⟨words, height, hwritten⟩ :=
    hall.exists_written hlegible hserves.query hroot fun _ => id
  have hiff := hserves.showsAll_iff hlegible hroot hall hwritten
  refine ⟨_, selections, words, height, hbuild, hall, hwritten, hiff, fun hapart => ?_⟩
  -- with names that are apart the registry holds the outline of the object, which
  -- is no higher than the levels of the inference
  obtain ⟨hheld, hfields⟩ := held_ofObject rfl hapart hbuild
  refine hiff.mpr ⟨?_, ?_⟩
  · rw [hfields] at hall
    have hheight : height ≤ 7 :=
      Outline.objectType_lowerThan (Outline.ofJson_lowerThan {} 7) hfree hheld hall hwritten
    exact Nat.lt_of_le_of_lt hheight (by decide)
  · refine (Outline.objectType_describing (Outline.ofJson_describing {} 7) hfree hformed
      hheld).rename ?_
    rw [← hfields, ← hserves.registered]
    rfl

/-- An object with an object, an empty object and a number inside. -/
def nested : List (String × Json) :=
  [("a", .obj [("b-c", .int 1)]), ("d", .obj []), ("e", .str "text")]

theorem showsAll_nested : ∃ schema text, build {} (.obj nested) "GET" "/" none = .ok schema ∧
    schema.ShowsAll (.obj nested) text := by
  have hformed : (Json.obj nested).WellFormed := by
    simp [nested, Json.WellFormed, Json.EntriesWellFormed, Entries.Distinct, Entries.keys]
  have hfree : (Json.obj nested).ArrayFree := by
    simp [nested, Json.ArrayFree, Json.EntriesArrayFree]
  have hapart : NamesApart (.obj nested) "GET" "/" := by
    rw [NamesApart, Entries.Distinct]
    decide +kernel
  obtain ⟨schema, _, _, _, hbuild, -, -, -, hshows⟩ :=
    showsAll_iff_describes "GET" "/" hformed hfree
  exact ⟨schema, _, hbuild, hshows hapart⟩

/-- Two objects with one type name: the second one is shown by the field of the
first. -/
example :
    (match build {} (.obj [("a", .obj [("b", .obj [("x", .int 1)])]),
      ("a_b", .obj [("y", .int 2)])])
        "GET" "/" none with
      | .ok schema =>
          match run schema
              (.obj [("a", .obj [("b", .obj [("x", .int 1)])]), ("a_b", .obj [("y", .int 2)])])
              "\x7b a \x7b b \x7b x \x7d \x7d a_b \x7b x \x7d \x7d" with
          | .ok [_, ("a_b", .obj [("x", .null)])] => true
          | _ => false
      | .error _ => false) = true := by
  decide +kernel

end Schema

end JsonSelection
