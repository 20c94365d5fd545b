import JsonSelection.Proofs.Query.Conversion

/-!
# Queries that are refused

A query has a result or is refused, and nothing else can happen to it.

## What this module delivers

- `Field.Built`: what a field of a schema can be. The page arguments of each are
  integers with a default (`Field.Built.counts`).
- `Execution.Served`: the objects that a run can come to. A run goes on from
  these to these (`Execution.closed_of_offers`).
- `Execution.Places`: the sites of a query, known from the schema alone.
- `Execution.run_cases`: a query runs to a result, or comes to a faulty site and
  is refused.
- `Execution.run_returns_or_refuses`: on the value that a schema is built from,
  any text has a result or is refused, and the page arguments are integers
  wherever they are compared.
- `Execution.refused_iff_faulty`: a text is refused exactly for the faulty sites
  that its run comes to.

Which of the places a run comes to depends on the value: where a field shows no
element, what is selected below it is not looked at. The one refusal that is no
error of the query is that of an integer with too many digits.
-/

set_option autoImplicit false

namespace JsonSelection

/-- The page arguments of a site are integers when they are compared with zero.
So the comparison, which is total here, is never made of anything else. -/
def Site.Comparable (schema : Schema) (site : Site) : Prop :=
  ∀ field literals, site.owner.field? site.selection.name = some field →
    Argument.given schema site.owner field site.path site.selection.arguments = .ok literals →
    ∀ name ∈ ["limit", "offset"], ∀ value,
      Entries.find? (field.arguments.foldl Argument.withDefault literals) name = some value →
        ∃ n, value = .int n

theorem Field.Output.counts {names : String → Prop} {pages : Int → Prop}
    {sources : Json → Prop} {field : Field} (h : field.Output names pages sources) :
    Argument.Counts field := by
  obtain ⟨htype, harguments, -⟩ := h
  cases hshape : field.type with
  | list item size =>
      rw [hshape] at htype
      cases htype with
      | list _ _ => exact Argument.counts_of_output hshape harguments
  | _ =>
      -- only lists have pages
      intro name _ argument hargument
      rw [Field.argument?, harguments, hshape] at hargument
      cases hargument

theorem MutationField.counts {field : Field} (h : MutationField field) : Argument.Counts field := by
  intro name hname argument hargument
  have hinput := h.input argument (List.mem_of_find?_eq_some hargument)
  have hsame : argument.name = name := by
    simpa using List.find?_some hargument
  rw [← hsame, hinput] at hname
  exact absurd hname (by decide)

/-- What a field of a schema can be: an output field, a field of an input type,
which takes no arguments, or the field of the mutation root. -/
inductive Field.Built (field : Field) : Prop where
  | output {names : String → Prop} {pages : Int → Prop} {sources : Json → Prop} :
      field.Output names pages sources → Field.Built field
  | input : field.arguments = [] → Field.Built field
  | mutation : MutationField field → Field.Built field

/-- The page arguments of all of these are integers with a default. -/
theorem Field.Built.counts {field : Field} (h : field.Built) : Argument.Counts field := by
  cases h with
  | output houtput => exact houtput.counts
  | input hnone =>
      intro name _ argument hargument
      rw [Field.argument?, hnone] at hargument
      cases hargument
  | mutation hmutation => exact hmutation.counts

theorem Schema.offers_any {limits : Limits} {data : Json} {method path : String}
    {body : Option Json} {schema : Schema} (h : build limits data method path body = .ok schema) :
    ∃ names, schema.Offers names (fun _ => True) fun source => source.kind = data.kind :=
  offers_of_build (fun _ _ _ _ => trivial) h

namespace Execution

/-! ### Objects that a run comes to

The only field that cannot be read from every value asks for a length, and it
stands at a root that is served with an array. -/

/-- The objects of a run on a value of some kind: the value itself at a root,
and any value at an object type that an output field leads to. -/
inductive Served (schema : Schema) (names : String → Prop) (pages : Int → Prop) (kind : Kind) :
    NamedType → Json → Prop where
  | query {source : Json} : source.kind = kind →
      Served schema names pages kind schema.query source
  | mutation {root : NamedType} {source : Json} : schema.mutation = some root →
      source.kind = kind →
      Served schema names pages kind root source
  | inside {name : String} {source : Json} : names name →
      Served schema names pages kind (schema.typeNamed name) source

variable {schema : Schema} {names : String → Prop} {pages : Int → Prop} {kind : Kind}

theorem served_rootOf {operation : OperationKind} {root : NamedType}
    (hroot : rootOf schema operation = .ok root) {source : Json} (hkind : source.kind = kind) :
    Served schema names pages kind root source := by
  cases operation with
  | query =>
      obtain rfl := Except.ok.inj hroot
      exact .query hkind
  | mutation =>
      simp only [rootOf] at hroot
      split at hroot
      · next found hfound =>
          obtain rfl := Except.ok.inj hroot
          exact .mutation hfound hkind
      · cases hroot

/-- A run goes on from served objects to served objects. -/
theorem closed_of_offers (h : schema.Offers names pages fun source => source.kind = kind) :
    Closed schema (Served schema names pages kind) := by
  intro owner source hserved field hfield
  cases hserved with
  | query hkind =>
      have houtput := h.query field hfield
      obtain ⟨value, hvalue⟩ := houtput.readable source hkind
      exact ⟨value, hvalue, fun page name element helement =>
        .inside (helement.names houtput.type)⟩
  | inside hname =>
      have houtput := h.inside _ hname field hfield
      obtain ⟨value, hvalue⟩ := houtput.readable source trivial
      exact ⟨value, hvalue, fun page name element helement =>
        .inside (helement.names houtput.type)⟩
  | mutation hroot hkind =>
      -- the field of a mutation root gives the query root for the whole source
      have hmutation := h.mutationField hroot hfield
      refine ⟨source, by rw [hmutation.whole]; rfl, ?_⟩
      intro page name element helement
      rw [hmutation.type] at helement
      cases helement with
      | named _ =>
          rw [h.registered]
          exact .query hkind

/-- The fields of served objects are output fields or the field of a mutation root. -/
theorem Served.built (h : schema.Offers names pages fun source => source.kind = kind)
    {owner : NamedType} {source : Json} (hserved : Served schema names pages kind owner source)
    {field : Field} (hfield : field ∈ owner.fields) : field.Built := by
  cases hserved with
  | query _ => exact .output (h.query field hfield)
  | inside hname => exact .output (h.inside _ hname field hfield)
  | mutation hroot _ => exact .mutation (h.mutationField hroot hfield)

/-- What holds of the objects of a run holds wherever it comes to. -/
theorem Visits.served {serves : NamedType → Json → Prop} (hclosed : Closed schema serves)
    {selections : List Selection} {owner : NamedType} {source : Json}
    {path : ResponsePath} {site : Site} (hvisits : Visits schema selections owner source path site)
    (hserves : serves owner source) :
    ∃ element, serves site.owner element := by
  induction hvisits with
  | here _ => exact ⟨_, hserves⟩
  | inside _ haccepts hvalue helement _ ih =>
      obtain ⟨value, hread, hnext⟩ :=
        hclosed _ _ hserves _ (List.mem_of_find?_eq_some haccepts.known)
      obtain rfl := Except.ok.inj (hvalue.symm.trans hread)
      exact ih (hnext _ _ _ helement)

/-! ### Places of a query -/

/-- The sites of a query, whatever it is run on: those of the outermost
selections, and those below a selected field with an object type inside. -/
inductive Places (schema : Schema) : List Selection → NamedType → ResponsePath →
    Site → Prop where
  | here {selections : List Selection} {selection : Selection} {owner : NamedType}
      {path : ResponsePath} : selection ∈ selections →
        Places schema selections owner path ⟨owner, path ++ [selection.responseKey], selection⟩
  | inside {selections : List Selection} {selection : Selection} {owner : NamedType}
      {path : ResponsePath} {field : Field} {name : String} {site : Site} :
      selection ∈ selections →
        owner.field? selection.name = some field → field.type.namedInside? = some name →
        Places schema selection.children (schema.typeNamed name)
          (path ++ [selection.responseKey]) site →
        Places schema selections owner path site

theorem Elements.namedInside? {type : TypeRef} {value element : Json} {page : Option PageWindow}
    {name : String} (h : Elements type value page name element) :
    type.namedInside? = some name := by
  induction h with
  | named _ => rfl
  | nonNull _ ih => exact ih
  | list _ _ _ ih => exact ih

/-- A run comes to places of its query only. -/
theorem Visits.places {selections : List Selection} {owner : NamedType} {source : Json}
    {path : ResponsePath} {site : Site} (h : Visits schema selections owner source path site) :
    Places schema selections owner path site := by
  induction h with
  | here hmem => exact .here hmem
  | inside hmem haccepts _ helement _ ih =>
      exact .inside hmem haccepts.known helement.namedInside? ih

/-! ### Runs of a text -/

/-- A text that is a query starts to run with its outermost selections at a root
of the schema. -/
def Starts (schema : Schema) (text : String) (selections : List Selection)
    (root : NamedType) : Prop :=
  ∃ operation, Query.parse text = .ok operation ∧ rootOf schema operation.kind = .ok root ∧
    operation.selections = selections

theorem run_of_starts {text : String} {selections : List Selection} {root : NamedType}
    (h : Starts schema text selections root) (source : Json) :
    run schema source text = runAll schema selections root source [] [] := by
  obtain ⟨operation, hparse, hroot, rfl⟩ := h
  simp only [run, runOperation, hparse, hroot, ofQuery, Outcome.mapError_ok, Outcome.ok_bind]

theorem starts_or_refused (schema : Schema) (text : String) :
    (∃ selections root, Starts schema text selections root) ∨
      (∀ source, ∃ error, run schema source text = .error (.query error)) ∧
        ∀ selections root, ¬ Starts schema text selections root := by
  cases hparse : Query.parse text with
  | error error =>
      refine Or.inr ⟨fun source => ⟨error, by simp only [run, hparse]; rfl⟩, ?_⟩
      rintro selections root ⟨operation, hother, -, -⟩
      rw [hparse] at hother
      cases hother
  | ok operation =>
      -- the text is parsed, but there may be no root for its kind of operation
      cases hroot : rootOf schema operation.kind with
      | ok root => exact Or.inl ⟨operation.selections, root, operation, hparse, hroot, rfl⟩
      | error error =>
          refine Or.inr ⟨?_, ?_⟩
          · intro source
            refine ⟨error, ?_⟩
            simp only [run, runOperation, hparse, hroot, ofQuery, Outcome.mapError_ok,
              Outcome.ok_bind]
            rfl
          · rintro selections root ⟨other, hother, hotherRoot, -⟩
            rw [hparse] at hother
            obtain rfl := Except.ok.inj hother
            rw [hroot] at hotherRoot
            cases hotherRoot

/-- A query runs to a result, or comes to a faulty site and is refused. -/
theorem run_cases (hoffers : schema.Offers names pages fun source => source.kind = kind)
    {text : String} {selections : List Selection} {root : NamedType}
    (hstarts : Starts schema text selections root) {source : Json} (hkind : source.kind = kind) :
    (∃ result, run schema source text = .ok result) ∨
      (∃ error, run schema source text = .error (.query error)) ∧
        ∃ site, Visits schema selections root source [] site ∧ site.Faulty schema := by
  have hrun := run_of_starts hstarts source
  obtain ⟨operation, -, hroot, rfl⟩ := hstarts
  rw [hrun]
  cases hresult : runAll schema operation.selections root source [] [] with
  | ok result => exact Or.inl ⟨result, rfl⟩
  | error failure =>
      obtain ⟨⟨error, rfl⟩, hfaulty⟩ :=
        runAll_error (closed_of_offers hoffers) operation.selections
        (served_rootOf hroot hkind) hresult
      exact Or.inr ⟨⟨error, rfl⟩, hfaulty⟩

/-- The schema of an object inside an object. -/
def innerSchema : Schema where
  types :=
    [("GET", ⟨"GET", [Inference.typedField "a" "a" (.named "GET_a")], false⟩),
      ("GET_a", ⟨"GET_a", [Inference.typedField "x" "x" (.scalar .int)], false⟩),
      ("Query", ⟨"Query", [Inference.typedField "a" "a" (.named "GET_a")], false⟩)]
  query := ⟨"Query", [Inference.typedField "a" "a" (.named "GET_a")], false⟩
  mutation := none
  baseName := "GET"
  method := "GET"
  path := "/"

section Built

variable {limits : Limits} {data : Json} {method path : String} {body : Option Json}

/-- Any text that is run on the value that a schema is built from has a result
or is refused, with an error of the query unless an integer in the text is too
long to be converted. Wherever its run comes to, the page arguments are integers
when they are compared. -/
theorem run_returns_or_refuses (h : Schema.build limits data method path body = .ok schema)
    (text : String) :
    ((∃ result, run schema data text = .ok result) ∨
        ∃ error, run schema data text = .error (.query error) ∧
          (error.isConversion = true → Query.HasLong text)) ∧
      ∀ selections root site, Starts schema text selections root →
        Visits schema selections root data [] site → site.Comparable schema := by
  obtain ⟨names, hoffers⟩ := Schema.offers_any h
  constructor
  · rcases starts_or_refused schema text with ⟨selections, root, hstarts⟩ | ⟨hrefused, -⟩
    · rcases run_cases hoffers hstarts rfl with hresult | ⟨herror, -⟩
      · exact Or.inl hresult
      · obtain ⟨error, herror⟩ := herror
        exact Or.inr ⟨error, herror, hasLong_of_run herror⟩
    · obtain ⟨error, herror⟩ := hrefused data
      exact Or.inr ⟨error, herror, hasLong_of_run herror⟩
  · intro selections root site hstarts hvisits field literals hfield hgiven name hname value hvalue
    obtain ⟨operation, -, hroot, -⟩ := hstarts
    obtain ⟨element, hserved⟩ :=
      hvisits.served (closed_of_offers hoffers) (served_rootOf hroot rfl)
    have hcounts := (hserved.built hoffers (List.mem_of_find?_eq_some hfield)).counts
    exact Argument.int_of_given hcounts hgiven hname hvalue

/-- The limit `null` of a page is replaced by the default before it is compared. -/
theorem run_returns_or_refuses_nullLimit :
    ∃ schema, Schema.build {} (.arr [.int 1, .int 2]) "GET" "/" none = .ok schema ∧
      ∃ result, run schema (.arr [.int 1, .int 2]) "\x7b items(limit: null) _count \x7d" =
        .ok result := by
  have hshown : (match Schema.build {} (.arr [.int 1, .int 2]) "GET" "/" none with
      | .ok schema =>
          (run schema (.arr [.int 1, .int 2]) "\x7b items(limit: null) _count \x7d").isOk
      | .error _ => false) = true := by
    decide +kernel
  cases hbuild : Schema.build {} (.arr [.int 1, .int 2]) "GET" "/" none with
  | error _ =>
      rw [hbuild] at hshown
      cases hshown
  | ok schema =>
      refine ⟨schema, rfl, ?_⟩
      rcases (run_returns_or_refuses hbuild "\x7b items(limit: null) _count \x7d").1 with
        hresult | ⟨error, herror, -⟩
      · exact hresult
      · simp only [hbuild, herror] at hshown
        cases hshown

/-- Whether a query is refused depends on the sites that its run comes to, for
every value of the kind that the schema is built for: a text is refused if it is
no query or has no root, and else if it comes to a faulty site. A query without
any faulty place is refused for no value. -/
theorem refused_iff_faulty (h : Schema.build limits data method path body = .ok schema)
    {source : Json} (hkind : source.kind = data.kind) (text : String) :
    ((∃ error, run schema source text = .error (.query error)) ↔
        ∀ selections root, Starts schema text selections root →
          ∃ site, Visits schema selections root source [] site ∧ site.Faulty schema) ∧
      ∀ selections root, Starts schema text selections root →
        (∀ site, Visits schema selections root source [] site →
          Places schema selections root [] site) ∧
          ((∀ site, Places schema selections root [] site → ¬ site.Faulty schema) →
            ∃ result, run schema source text = .ok result) := by
  obtain ⟨names, hoffers⟩ := Schema.offers_any h
  refine ⟨⟨?_, ?_⟩, ?_⟩
  · rintro ⟨error, herror⟩ selections root hstarts
    rcases run_cases hoffers hstarts hkind with ⟨result, hresult⟩ | ⟨-, hfaulty⟩
    · rw [herror] at hresult
      cases hresult
    · exact hfaulty
  · intro hfaulty
    rcases starts_or_refused schema text with ⟨selections, root, hstarts⟩ | ⟨hrefused, -⟩
    · -- a run to a faulty site has no result, and only errors of the query are left
      obtain ⟨site, hvisits, hsite⟩ := hfaulty selections root hstarts
      obtain ⟨failure, hfailure⟩ := runAll_faulty hvisits hsite []
      rcases run_cases hoffers hstarts hkind with ⟨result, hresult⟩ | ⟨herror, -⟩
      · rw [run_of_starts hstarts, hfailure] at hresult
        cases hresult
      · exact herror
    · exact hrefused source
  · intro selections root hstarts
    refine ⟨fun site => Visits.places, ?_⟩
    intro hsound
    rcases run_cases hoffers hstarts hkind with hresult | ⟨-, site, hvisits, hfaulty⟩
    · exact hresult
    · exact absurd hfaulty (hsound site hvisits.places)

/-- An unknown field inside an object is found in a value with that object. The
text runs on a value that has `null` in its place, although nothing was
corrected. -/
theorem refused_iff_faulty_unseen :
    Schema.build {} (.obj [("a", .obj [("x", .int 1)])]) "GET" "/" none = .ok innerSchema ∧
      (∀ selections root, Starts innerSchema "\x7b a \x7b nope \x7d \x7d" selections root →
        ∃ site, Visits innerSchema selections root (.obj [("a", .obj [("x", .int 1)])])
        [] site ∧
          site.Faulty innerSchema) ∧
      ∃ result, run innerSchema (.obj [("a", .null)]) "\x7b a \x7b nope \x7d \x7d" =
        .ok result := by
  have hbuild : Schema.build {} (.obj [("a", .obj [("x", .int 1)])]) "GET" "/" none =
      .ok innerSchema := rfl
  refine ⟨hbuild, ?_, ?_⟩
  · apply (refused_iff_faulty hbuild rfl "\x7b a \x7b nope \x7d \x7d").1.mp
    -- the text is refused, so a fault is visited
    have hrefused : (match run innerSchema (.obj [("a", .obj [("x", .int 1)])])
        "\x7b a \x7b nope \x7d \x7d" with
        | .error (.query _) => true
        | _ => false) = true := by
      decide +kernel
    split at hrefused
    · next error herror => exact ⟨error, herror⟩
    · cases hrefused
  · have hshown : (run innerSchema (.obj [("a", .null)]) "\x7b a \x7b nope \x7d \x7d").isOk =
        true := by
      decide +kernel
    cases hrun : run innerSchema (.obj [("a", .null)]) "\x7b a \x7b nope \x7d \x7d" with
    | ok result => exact ⟨result, rfl⟩
    | error error =>
        rw [hrun] at hshown
        cases hshown

end Built

end Execution

end JsonSelection
