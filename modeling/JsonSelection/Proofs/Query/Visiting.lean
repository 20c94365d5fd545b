import JsonSelection.Proofs.Query.Arguments
import JsonSelection.Proofs.Schema.Output

/-!
# Where a run comes to

A selection stands at a site: it selects a field of a type, and it shows under a
path. Whether a site is faulty depends on the schema alone, but a run comes to a
site only where every field around it shows an element.

## What this module delivers

- `Site.Accepts`, `Site.Faulty`: a site passes its own checks or fails one of
  them (`Site.accepts_or_faulty`). None of them looks at a value.
- `Execution.Elements`: the values with an object type that a page of a value
  shows.
- `Execution.Visits`: the sites that a run comes to.
- `Execution.runAll_error`: a run without a result comes to a faulty site, and
  its error is one of the query.
- `Execution.runAll_faulty`: a run that comes to a faulty site has no result.

The two directions are stated for objects of types whose fields can be read
(`Execution.Closed`), so that no run fails for a length that there is none of.
-/

set_option autoImplicit false

namespace JsonSelection

/-- Induction over selections: those below the first one come before it. -/
@[elab_as_elim]
theorem Selection.induct {motive : List Selection → Prop} (nil : motive [])
    (cons : ∀ selection rest, motive selection.children → motive rest →
      motive (selection :: rest)) :
    ∀ selections, motive selections
  | [] => nil
  | ⟨name, aliasName, arguments, children⟩ :: rest =>
      cons ⟨name, aliasName, arguments, children⟩ rest (Selection.induct nil cons children)
        (Selection.induct nil cons rest)

/-- A selection of a field of a type that shows under a path. A visit to it has
a source, of which the field is shown. -/
structure Site where
  owner : NamedType
  path : ResponsePath
  selection : Selection

namespace Site

/-- A site whose selection passes its own checks: it selects a field, has
selections of its own if it needs them, and has arguments that the field
takes. -/
structure Accepts (schema : Schema) (site : Site) (field : Field)
    (values : Entries Json) : Prop where
  ordinary : site.selection.name ≠ Execution.typeNameField
  known : site.owner.field? site.selection.name = some field
  braces : Execution.checkSelection schema field.type site.selection.name site.selection.children
    site.path = .ok ()
  arguments : Argument.resolve schema site.owner field site.path
    site.selection.arguments = .ok values

/-- A site whose selection fails one of its own checks, none of which looks at a
value. -/
inductive Faulty (schema : Schema) (site : Site) : Prop where
  | unknownField : site.selection.name ≠ Execution.typeNameField →
      site.owner.field? site.selection.name = none → Faulty schema site
  | braces {field : Field} {error : QueryError} :
      site.selection.name ≠ Execution.typeNameField →
      site.owner.field? site.selection.name = some field →
      Execution.checkSelection schema field.type site.selection.name
        site.selection.children site.path =
        .error error → Faulty schema site
  | arguments {field : Field} {error : QueryError} :
      site.selection.name ≠ Execution.typeNameField →
      site.owner.field? site.selection.name = some field →
      Argument.resolve schema site.owner field site.path site.selection.arguments = .error error →
        Faulty schema site

theorem accepts_or_faulty (schema : Schema) {site : Site}
    (hordinary : site.selection.name ≠ Execution.typeNameField) :
    (∃ field values, site.Accepts schema field values) ∨ site.Faulty schema := by
  cases hfield : site.owner.field? site.selection.name with
  | none => exact Or.inr (.unknownField hordinary hfield)
  | some field =>
      cases hbraces : Execution.checkSelection schema field.type site.selection.name
          site.selection.children site.path with
      | error error => exact Or.inr (.braces hordinary hfield hbraces)
      | ok _ =>
          cases hvalues : Argument.resolve schema site.owner field site.path
              site.selection.arguments with
          | error error => exact Or.inr (.arguments hordinary hfield hvalues)
          | ok values => exact Or.inl ⟨field, values, hordinary, hfield, hbraces, hvalues⟩

end Site

namespace Execution

/-! ### Elements of a page

The list case and the object case of `Execution.complete` are what the other
proofs use; the recursion on the type is not opened again. -/

/-- The values with an object type that a page of a value shows. A value that is
not an array stands for a list of one element, and an inner list shows the page
of its type. -/
inductive Elements : TypeRef → Json → Option PageWindow → String → Json → Prop where
  | named {name : String} {value : Json} {page : Option PageWindow} :
      value ≠ .null → Elements (.named name) value page name value
  | nonNull {inner : TypeRef} {value element : Json} {page : Option PageWindow} {name : String} :
      Elements inner value page name element → Elements (.nonNull inner) value page name element
  | list {item : TypeRef} {size : Option Int} {value shown element : Json}
      {page : Option PageWindow} {name : String} :
      value ≠ .null → shown ∈ cut (value.items?.getD [value]) (page.getD ⟨size, 0⟩) →
      Elements item shown none name element → Elements (.list item size) value page name element

/-- The object types of elements are the ones that an output type refers to. -/
theorem Elements.names {names : String → Prop} {pages : Int → Prop} {type : TypeRef}
    {value element : Json} {page : Option PageWindow} {name : String}
    (h : Elements type value page name element) (htype : type.Output names pages) : names name := by
  induction h with
  | named _ =>
      cases htype with
      | named hname => exact hname
  | nonNull _ _ => cases htype
  | list _ _ _ ih =>
      cases htype with
      | list hitem _ => exact ih hitem

/-- The list case of `complete`: `null` is shown as it is, all else element by
element. -/
theorem complete_list {object : String → Json → Outcome Json} (item : TypeRef)
    (size : Option Int) {value : Json} (hvalue : value ≠ .null) (page : Option PageWindow) :
    complete object (.list item size) value page =
      ((cut (value.items?.getD [value]) (page.getD ⟨size, 0⟩)).mapM fun element =>
        complete object item element none).map Json.arr := by
  cases value with
  | null => exact absurd rfl hvalue
  | _ => rfl

theorem complete_named {object : String → Json → Outcome Json} (name : String) {value : Json}
    (hvalue : value ≠ .null) (page : Option PageWindow) :
    complete object (.named name) value page = object name value := by
  cases value with
  | null => exact absurd rfl hvalue
  | _ => rfl

/-- A value without a result has an element without one. -/
theorem complete_error {object : String → Json → Outcome Json} {type : TypeRef} {value : Json}
    {page : Option PageWindow} {error : ExecutionError}
    (h : complete object type value page = .error error) :
    ∃ name element, Elements type value page name element ∧
    object name element = .error error := by
  induction type generalizing value page with
  | scalar type => cases h
  | json => cases h
  | nonNull inner ih =>
      obtain ⟨name, element, helement, herror⟩ := ih h
      exact ⟨name, element, .nonNull helement, herror⟩
  | named name =>
      by_cases hvalue : value = .null
      · subst hvalue
        cases h
      -- only an object can have no result, and `null` is none
      · rw [complete_named name hvalue] at h
        exact ⟨name, value, .named hvalue, h⟩
  | list item size ih =>
      by_cases hvalue : value = .null
      · subst hvalue
        cases h
      · rw [complete_list item size hvalue] at h
        obtain ⟨shown, hshown, herror⟩ := Outcome.mapM_error (Outcome.map_error h)
        obtain ⟨name, element, helement, herror⟩ := ih herror
        exact ⟨name, element, .list hvalue hshown helement, herror⟩

/-- A value with an element without a result has none. -/
theorem complete_fails {object : String → Json → Outcome Json} {type : TypeRef}
    {value element : Json} {page : Option PageWindow} {name : String}
    (helement : Elements type value page name element)
    (h : ∃ error, object name element = .error error) :
    ∃ error, complete object type value page = .error error := by
  induction helement with
  | named hvalue =>
      rw [complete_named _ hvalue]
      exact h
  | nonNull _ ih => exact ih h
  | list hvalue hshown _ ih =>
      rw [complete_list _ _ hvalue]
      obtain ⟨error, herror⟩ :=
        Outcome.mapM_fails (f := fun shown => complete object _ shown none) hshown (ih h)
      exact ⟨error, by rw [herror]; rfl⟩

/-! ### Single selections -/

/-- What is shown for an object type: the selections below a site. The path is
not made longer by the elements of lists. -/
def objectAt (schema : Schema) (site : Site) (name : String) (element : Json) : Outcome Json :=
  (runAll schema site.selection.children (schema.typeNamed name) element site.path []).map Json.obj

/-- An accepted selection reads a value and shows it. -/
theorem runOne_eq_bind {schema : Schema} {site : Site} {field : Field} {values : Entries Json}
    (h : site.Accepts schema field values) (source : Json) :
    runOne schema site.selection site.owner source site.path =
      field.reader.read source >>= fun value =>
        complete (objectAt schema site) field.type value (pageOf field.type values) := by
  obtain ⟨owner, path, ⟨name, aliasName, arguments, children⟩⟩ := site
  simp only [runOne, if_neg h.ordinary, h.known, h.braces, h.arguments, ofQuery,
    Outcome.mapError_ok,
    Outcome.ok_bind]
  rfl

theorem runOne_of_accepts {schema : Schema} {site : Site} {field : Field} {values : Entries Json}
    (h : site.Accepts schema field values) {source value : Json}
    (hvalue : field.reader.read source = .ok value) :
    runOne schema site.selection site.owner source site.path =
      complete (objectAt schema site) field.type value (pageOf field.type values) := by
  rw [runOne_eq_bind h, hvalue, Outcome.ok_bind]

/-- A faulty selection has no result for any source. -/
theorem runOne_of_faulty {schema : Schema} {site : Site} (h : site.Faulty schema) (source : Json) :
    ∃ error, runOne schema site.selection site.owner source site.path =
      .error (.query error) := by
  obtain ⟨owner, path, ⟨name, aliasName, arguments, children⟩⟩ := site
  cases h with
  | unknownField hordinary hfield =>
      refine ⟨.unknownField path name owner, ?_⟩
      simp only [runOne, if_neg hordinary, hfield]
  | @braces field error hordinary hfield hbraces =>
      refine ⟨error, ?_⟩
      simp only [runOne, if_neg hordinary, hfield, hbraces]
      rfl
  | @arguments field error hordinary hfield hvalues =>
      -- a fault of the arguments shows only if the braces are right
      cases hbraces : checkSelection schema field.type name children path with
      | error other =>
          refine ⟨other, ?_⟩
          simp only [runOne, if_neg hordinary, hfield, hbraces]
          rfl
      | ok _ =>
          refine ⟨error, ?_⟩
          simp only [runOne, if_neg hordinary, hfield, hbraces, hvalues]
          rfl

theorem runOne_typeName {schema : Schema} {selection : Selection}
    (h : selection.name = typeNameField) (owner : NamedType) (source : Json) (path : ResponsePath) :
    runOne schema selection owner source path = .ok (.str owner.name) := by
  obtain ⟨name, aliasName, arguments, children⟩ := selection
  simp only [runOne, if_pos h]

/-! ### Whole runs -/

/-- The sites that a run comes to: all those of the outermost selections, and
those below a selection that is accepted for every element that it shows. -/
inductive Visits (schema : Schema) :
    List Selection → NamedType → Json → ResponsePath → Site → Prop where
  | here {selections : List Selection} {selection : Selection} {owner : NamedType} {source : Json}
      {path : ResponsePath} : selection ∈ selections →
        Visits schema selections owner source path
          ⟨owner, path ++ [selection.responseKey], selection⟩
  | inside {selections : List Selection} {selection : Selection} {owner : NamedType}
      {source value element : Json} {path : ResponsePath} {field : Field} {values : Entries Json}
      {name : String} {site : Site} : selection ∈ selections →
        Site.Accepts schema ⟨owner, path ++ [selection.responseKey], selection⟩ field values →
        field.reader.read source = .ok value →
        Elements field.type value (pageOf field.type values) name element →
        Visits schema selection.children (schema.typeNamed name) element
          (path ++ [selection.responseKey]) site →
        Visits schema selections owner source path site

/-- Objects of types whose fields can be read, as long as an execution goes on
from one to those that it shows. -/
def Closed (schema : Schema) (serves : NamedType → Json → Prop) : Prop :=
  ∀ owner source, serves owner source → ∀ field ∈ owner.fields,
    ∃ value, field.reader.read source = .ok value ∧
      ∀ page name element, Elements field.type value page name element →
        serves (schema.typeNamed name) element

theorem Visits.cons {schema : Schema} {selection : Selection} {rest : List Selection}
    {owner : NamedType} {source : Json} {path : ResponsePath} {site : Site}
    (h : Visits schema rest owner source path site) :
    Visits schema (selection :: rest) owner source path site := by
  cases h with
  | here hmem => exact .here (List.mem_cons_of_mem _ hmem)
  | inside hmem haccepts hvalue helement hsite =>
      exact .inside (List.mem_cons_of_mem _ hmem) haccepts hvalue helement hsite

/-- A run without a result comes to a faulty site, and its error is one of the
query. -/
theorem runAll_error {schema : Schema} {serves : NamedType → Json → Prop}
    (hclosed : Closed schema serves) (selections : List Selection) {owner : NamedType}
    {source : Json} (hserves : serves owner source) {path : ResponsePath} {done : Entries Json}
    {error : ExecutionError} (h : runAll schema selections owner source path done = .error error) :
    (∃ fault, error = .query fault) ∧
      ∃ site, Visits schema selections owner source path site ∧ site.Faulty schema := by
  induction selections using Selection.induct generalizing owner source path done error with
  | nil => cases h
  | cons selection rest ihBelow ihRest =>
      rw [runAll] at h
      split at h
      · next failure hone =>
          obtain rfl := Except.error.inj h
          let site : Site := ⟨owner, path ++ [selection.responseKey], selection⟩
          have hordinary : selection.name ≠ typeNameField := by
            intro hname
            rw [runOne_typeName hname] at hone
            cases hone
          -- the selection fails its own checks, or an element that it shows has no result
          rcases Site.accepts_or_faulty schema
            (show site.selection.name ≠ typeNameField from hordinary)
            with ⟨field, values, haccepts⟩ | hfaulty
          · obtain ⟨value, hvalue, hnext⟩ := hclosed owner source hserves field
              (List.mem_of_find?_eq_some haccepts.known)
            have hcomplete := (runOne_of_accepts haccepts hvalue).symm.trans hone
            obtain ⟨name, element, helement, hbelow⟩ := complete_error hcomplete
            obtain ⟨hquery, found, hvisits, hfaulty⟩ :=
              ihBelow (hnext _ name element helement) (Outcome.map_error hbelow)
            exact ⟨hquery, found,
              .inside List.mem_cons_self haccepts hvalue helement hvisits, hfaulty⟩
          · obtain ⟨fault, hfault⟩ := runOne_of_faulty hfaulty source
            have hsame : ExecutionError.query fault = failure :=
              Except.error.inj (hfault.symm.trans hone)
            exact ⟨⟨fault, hsame.symm⟩, site, .here List.mem_cons_self, hfaulty⟩
      · obtain ⟨hquery, site, hvisits, hfaulty⟩ := ihRest hserves h
        exact ⟨hquery, site, hvisits.cons, hfaulty⟩

/-- Selections of which one has no result have none. -/
theorem runAll_fails {schema : Schema} {selections : List Selection} {selection : Selection}
    (hmem : selection ∈ selections) {owner : NamedType} {source : Json} {path : ResponsePath}
    (h : ∃ error, runOne schema selection owner source
      (path ++ [selection.responseKey]) = .error error)
    (done : Entries Json) :
    ∃ error, runAll schema selections owner source path done = .error error := by
  induction selections generalizing done with
  | nil => cases hmem
  | cons first rest ih =>
      rw [runAll]
      cases hfirst : runOne schema first owner source (path ++ [first.responseKey]) with
      | error error => exact ⟨error, rfl⟩
      | ok value =>
          rcases List.mem_cons.mp hmem with rfl | hrest
          · obtain ⟨error, herror⟩ := h
            rw [hfirst] at herror
            cases herror
          · exact ih hrest _

/-- A run that comes to a faulty site has no result. -/
theorem runAll_faulty {schema : Schema} {selections : List Selection} {owner : NamedType}
    {source : Json} {path : ResponsePath} {site : Site}
    (hvisits : Visits schema selections owner source path site) (hfaulty : site.Faulty schema)
    (done : Entries Json) :
    ∃ error, runAll schema selections owner source path done = .error error := by
  induction hvisits generalizing done with
  | here hmem =>
      obtain ⟨fault, hfault⟩ := runOne_of_faulty hfaulty _
      exact runAll_fails hmem ⟨_, hfault⟩ done
  | @inside _ selection owner _ _ element path _ _ name _ hmem haccepts hvalue helement _ ih =>
      -- the failure below is passed up through the values around it
      obtain ⟨error, herror⟩ := ih hfaulty []
      let here : Site := ⟨owner, path ++ [selection.responseKey], selection⟩
      have hobject : ∃ error, objectAt schema here name element = .error error :=
        ⟨error, by rw [objectAt, herror]; rfl⟩
      have hcomplete := complete_fails helement hobject
      rw [← runOne_of_accepts haccepts hvalue] at hcomplete
      exact runAll_fails hmem hcomplete done

end Execution

end JsonSelection
