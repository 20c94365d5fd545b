import JsonSelection.Proofs.Query.Lexis
import JsonSelection.Proofs.Query.Parsing
import JsonSelection.Proofs.Query.Refusal
import JsonSelection.Proofs.Query.Running
import JsonSelection.Proofs.Schema.Bodies
import JsonSelection.Proofs.Schema.Pages

/-!
# Page arguments that say the default

A page argument can be left out, be given as `null` or be given as the default
that its field advertises. A query from which all arguments of the last two
kinds are taken out runs as it did before.

## What this module delivers

- `Field.isDefault`: whether an argument says no more than the default.
- `Operation.withoutDefaults`: an operation without such arguments, at any
  depth.
- `Argument.resolve_telling`: a field shows the same page, or refuses its
  arguments with the same error, without them.
- `Execution.run_eq_withoutDefaults`: so does a whole run, on every value.
- `Schema.paging_of_build`: in a schema that is built, what a list field
  advertises is what is shown. Two queries that differ in such arguments only
  have the same result or the same error.

The one hypothesis on the fields is that their page arguments are integers with
a default (`Argument.Counts`), which all fields of built schemas satisfy.
Arguments of one name are never repeated in a query that is parsed
(`Selection.Separate`).
-/

set_option autoImplicit false

namespace JsonSelection

/-- Whether an argument says no more than the default of the page: it is `null`,
or the default itself. -/
def Field.isDefault (field : Field) (entry : String × Json) : Bool :=
  ["limit", "offset"].contains entry.1 &&
    match (field.argument? entry.1).bind Argument.default, entry.2 with
    | some _, .null => true
    | some default, .int n => n == default
    | _, _ => false

/-- The arguments of a selected field that do not merely say the default. Saying
`null` for an argument with a default says the default, too. -/
def Field.telling (field : Field) (arguments : List (String × Json)) : List (String × Json) :=
  arguments.filter fun entry => !field.isDefault entry

namespace Selection

mutual

/-- A selection of a field of a type, at no depth with an argument that says the
default. -/
def withoutDefaults (schema : Schema) : NamedType → Selection → Selection
  | owner, ⟨name, aliasName, arguments, children⟩ =>
      match owner.field? name with
      | none => ⟨name, aliasName, arguments, children⟩
      | some field =>
          ⟨name, aliasName, field.telling arguments,
            match field.type.namedInside? with
            | none => children
            | some inner => allWithoutDefaults schema (schema.typeNamed inner) children⟩

/-- Selections of fields of a type, at no depth with an argument that says the
default. -/
def allWithoutDefaults (schema : Schema) : NamedType → List Selection → List Selection
  | _, [] => []
  | owner, selection :: rest =>
      selection.withoutDefaults schema owner :: allWithoutDefaults schema owner rest

end

mutual

/-- At no depth two arguments of one name are given to a selected field. Every
selection that the grammar derives is of this form. -/
def Separate : Selection → Prop
  | ⟨_, _, arguments, children⟩ => Entries.Distinct arguments ∧ AllSeparate children

/-- At no depth of the selections two arguments of one name are given to a
selected field. -/
def AllSeparate : List Selection → Prop
  | [] => True
  | selection :: rest => selection.Separate ∧ AllSeparate rest

end

theorem separate_iff (selection : Selection) : selection.Separate ↔
    Entries.Distinct selection.arguments ∧ AllSeparate selection.children := by
  obtain ⟨name, aliasName, arguments, children⟩ := selection
  rw [Separate]

end Selection

/-- An operation without the arguments that say the default. -/
def Operation.withoutDefaults (schema : Schema) (operation : Operation) : Operation :=
  match Execution.rootOf schema operation.kind with
  | .ok root =>
      { operation with selections := Selection.allWithoutDefaults schema root operation.selections }
  | .error _ => operation

/-! ### Arguments of parsed queries -/

namespace Grammar

theorem distinct_of_arguments {tokens : List Token} {entries : List (String × Json)} {height : Nat}
    (h : Arguments tokens entries height) : Entries.Distinct entries := by
  cases h with
  | none => exact List.nodup_nil
  | given _ _ hdistinct _ => exact hdistinct

theorem star_of_braced {tokens : List Token} {selections : List Selection} {height : Nat}
    (h : Braced Selected tokens selections height) :
    ∃ tokens' height', Star Selected tokens' selections height' := by
  cases h with
  | mk _ hstar _ _ => exact ⟨_, _, hstar⟩

/-- The grammar keeps the arguments of a field apart. -/
theorem allSeparate_of_star {tokens : List Token} {selections : List Selection} {height : Nat}
    (h : Star Selected tokens selections height) : Selection.AllSeparate selections := by
  induction selections using Selection.induct generalizing tokens height with
  | nil => exact trivial
  | cons selection rest ihBelow ihRest =>
      cases h with
      | cons hselected hothers =>
          refine ⟨?_, ihRest hothers⟩
          cases hselected with
          | leaf _ harguments => exact ⟨distinct_of_arguments harguments, trivial⟩
          | node _ harguments hset =>
              obtain ⟨_, _, hstar⟩ := star_of_braced hset
              exact ⟨distinct_of_arguments harguments, ihBelow hstar⟩

theorem allSeparate_of_parse {text : String} {operation : Operation}
    (h : Query.parse text = .ok operation) : Selection.AllSeparate operation.selections := by
  obtain ⟨tokens, htokens, hparse⟩ := Outcome.bind_eq_ok_iff.mp h
  obtain ⟨height, hdocument, -⟩ :=
    Query.parseTokens_sound (Token.lexical_of_tokenize htokens) hparse
  have hbraced : ∃ tokens' height', Braced Selected tokens' operation.selections height' := by
    cases hdocument with
    | bare hset => exact ⟨_, _, hset⟩
    | headed _ _ hset => exact ⟨_, _, hset⟩
    | named _ _ _ hset => exact ⟨_, _, hset⟩
  obtain ⟨_, _, hset⟩ := hbraced
  obtain ⟨_, _, hstar⟩ := star_of_braced hset
  exact allSeparate_of_star hstar

end Grammar

/-! ### Arguments of one field

An argument that says the default is accepted, whatever stands before it, so
leaving it out changes neither the values after the defaults are filled in nor
the first error among the others. -/

namespace Entries

/-- Without repeated keys an entry is found under its key also after all entries
are written. -/
theorem find?_ofList_eq_some_iff {arguments : List (String × Json)}
    (hdistinct : Distinct arguments) {name : String} {literal : Json} :
    find? (ofList arguments) name = some literal ↔ (name, literal) ∈ arguments := by
  have hreverse : Distinct arguments.reverse := by
    rw [Distinct, keys, List.map_reverse]
    exact (List.reverse_perm _).nodup_iff.mpr hdistinct
  rw [find?_ofList, ← List.mem_reverse]
  constructor
  · exact mem_of_find?
  · intro hmem
    exact find?_of_mem hreverse hmem

end Entries

namespace Argument

/-- When some of the steps succeed from any start and no error depends on the
start, leaving those steps out leaves the error. -/
theorem foldlM_error_filter {step : Entries Json → String × Json →
    Except QueryError (Entries Json)} {keep : String × Json → Bool}
    (hsame : ∀ start start' entry error, step start entry = .error error →
      step start' entry = .error error)
    (hdropped : ∀ start entry, keep entry = false → ∃ next, step start entry = .ok next)
    (arguments : List (String × Json)) (start start' : Entries Json) (error : QueryError) :
    arguments.foldlM step start = .error error ↔
      (arguments.filter keep).foldlM step start' = .error error := by
  induction arguments generalizing start start' with
  | nil => exact ⟨fun h => (nomatch h), fun h => (nomatch h)⟩
  | cons entry rest ih =>
      rw [List.foldlM_cons]
      cases hkeep : keep entry with
      | false =>
          obtain ⟨next, hnext⟩ := hdropped start entry hkeep
          rw [List.filter_cons, if_neg (by rw [hkeep]; exact Bool.false_ne_true), hnext,
            Outcome.ok_bind]
          exact ih next start'
      | true =>
          rw [List.filter_cons, if_pos hkeep, List.foldlM_cons]
          -- a step that is kept fails from both starts or from neither
          cases hstep : step start entry with
          | error failure =>
              rw [hsame start start' entry failure hstep]
              exact Iff.rfl
          | ok next =>
              cases hstep' : step start' entry with
              | error failure =>
                  rw [hsame start' start entry failure hstep'] at hstep
                  cases hstep
              | ok next' => exact ih next next'

section Field

variable {schema : Schema} {owner : NamedType} {field : Field} {path : ResponsePath}
  {arguments : List (String × Json)}

/-- An argument that says the default is an integer argument of the page, and
its literal is accepted. -/
theorem default_cases (schema : Schema) (hcounts : Counts field) {entry : String × Json}
    (h : field.isDefault entry = true) (path : ResponsePath) :
    ∃ argument default, field.argument? entry.1 = some argument ∧
    argument.default = some default ∧
      (entry.2 = .null ∨ entry.2 = .int default) ∧
      coerce schema entry.2 path argument.type = .ok entry.2 := by
  obtain ⟨name, literal⟩ := entry
  rw [Field.isDefault, Bool.and_eq_true] at h
  obtain ⟨hname, h⟩ := h
  cases hargument : field.argument? name with
  | none =>
      simp only [hargument] at h
      cases h
  | some argument =>
      -- page arguments are integers with a default, so only two literals can say it
      obtain ⟨htype, default, hdefault⟩ :=
        hcounts name (List.contains_iff_mem.mp hname) argument hargument
      simp only [hargument, Option.bind_some, hdefault] at h
      refine ⟨argument, default, rfl, hdefault, ?_⟩
      rw [htype]
      cases literal with
      | null => exact ⟨Or.inl rfl, rfl⟩
      | int n =>
          obtain rfl := beq_iff_eq.mp h
          exact ⟨Or.inr rfl, rfl⟩
      | _ => cases h

/-- The check of one argument succeeds or fails whatever was checked before it. -/
theorem given_error_iff (hcounts : Counts field) (error : QueryError) :
    given schema owner field path arguments = .error error ↔
      given schema owner field path (field.telling arguments) = .error error := by
  apply foldlM_error_filter
  · intro start start' entry failure h
    revert h
    split
    · exact id
    · intro h
      -- the check of the literal fails, and it does not look at what was checked
      -- before
      have hcoerce := Outcome.map_error h
      rw [hcoerce]
      rfl
  · intro start entry hdropped
    have hdefault : field.isDefault entry = true := by simpa using hdropped
    obtain ⟨argument, default, hargument, -, -, hcoerce⟩ :=
      default_cases schema hcounts hdefault (path ++ [entry.1])
    rw [hargument]
    simp only [hcoerce, Outcome.map_ok]
    exact ⟨_, rfl⟩

/-- With the defaults filled in there is no difference whether the defaults were
given. -/
theorem find?_telling (hcounts : Counts field) (hdistinct : Entries.Distinct arguments)
    {values values' : Entries Json} (h : given schema owner field path arguments = .ok values)
    (h' : given schema owner field path (field.telling arguments) = .ok values') (name : String) :
    Entries.find? (field.arguments.foldl withDefault values) name =
      Entries.find? (field.arguments.foldl withDefault values') name := by
  have htelling : Entries.Distinct (field.telling arguments) :=
    List.Nodup.sublist (List.Sublist.map _ List.filter_sublist) hdistinct
  have hmem : ∀ literal, Entries.find? (Entries.ofList (field.telling arguments)) name =
    some literal ↔
      (name, literal) ∈ arguments ∧ field.isDefault (name, literal) = false := by
    intro literal
    rw [Entries.find?_ofList_eq_some_iff htelling, Field.telling, List.mem_filter,
      Bool.not_eq_true']
  rw [find?_defaults, find?_defaults]
  rcases given_cases h name with
    ⟨hnone, hvalue⟩ | ⟨literal, argument, value, hliteral, hargument, hcoerce, hvalue⟩
  · -- an argument that is not given is not given afterwards either
    rcases given_cases h' name with ⟨-, hvalue'⟩ | ⟨other, _, _, hother, -, -, -⟩
    · rw [hvalue, hvalue']
    · rw [(Entries.find?_ofList_eq_some_iff hdistinct).mpr ((hmem other).mp hother).1] at hnone
      cases hnone
  · have hgiven := (Entries.find?_ofList_eq_some_iff hdistinct).mp hliteral
    rcases given_cases h' name with
      ⟨hnone', hvalue'⟩ | ⟨other, argument', value', hother, hargument', hcoerce', hvalue'⟩
    · -- the argument was taken out, and its default is put in for it
      have hdefault : field.isDefault (name, literal) = true := by
        apply eq_true_of_ne_false
        intro hkept
        rw [(hmem literal).mpr ⟨hgiven, hkept⟩] at hnone'
        cases hnone'
      obtain ⟨found, default, hfound, hsome, hsays, hcoerced⟩ :=
        default_cases schema hcounts hdefault (path ++ [name])
      obtain rfl := Option.some.inj (hargument.symm.trans hfound)
      obtain rfl := Except.ok.inj (hcoerce.symm.trans hcoerced)
      rw [hvalue, hvalue', defaultFor?_of_argument? hargument hsome]
      rcases hsays with rfl | rfl
      · rfl
      · rfl
    · -- the argument was kept
      rw [(Entries.find?_ofList_eq_some_iff hdistinct).mpr ((hmem other).mp hother).1] at hliteral
      obtain rfl := Option.some.inj hliteral
      obtain rfl := Option.some.inj (hargument.symm.trans hargument')
      obtain rfl := Except.ok.inj (hcoerce.symm.trans hcoerce')
      rw [hvalue, hvalue']

theorem negative?_congr {values values' : Entries Json}
    (h : ∀ name, Entries.find? values name = Entries.find? values' name) :
    negative? values = negative? values' := by
  simp only [negative?, h]

theorem pageOf_congr {values values' : Entries Json}
    (h : ∀ name, Entries.find? values name = Entries.find? values' name) (type : TypeRef) :
    Execution.pageOf type values = Execution.pageOf type values' := by
  cases type with
  | list item size => simp only [Execution.pageOf, h]
  | _ => rfl

/-- A field shows the same page, or refuses its arguments with the same error,
when the defaults are not given. -/
theorem resolve_telling (hcounts : Counts field) (hdistinct : Entries.Distinct arguments) :
    (resolve schema owner field path (field.telling arguments)).map (Execution.pageOf field.type) =
      (resolve schema owner field path arguments).map (Execution.pageOf field.type) := by
  rw [resolve, resolve]
  cases hgiven : given schema owner field path arguments with
  | error error => rw [(given_error_iff hcounts error).mp hgiven]
  | ok values =>
      cases htelling : given schema owner field path (field.telling arguments) with
      | error error =>
          rw [(given_error_iff hcounts error).mpr htelling] at hgiven
          cases hgiven
      | ok values' =>
          have hsame := find?_telling hcounts hdistinct hgiven htelling
          simp only [Outcome.ok_bind, negative?_congr hsame]
          split
          · rfl
          · exact congrArg Except.ok (pageOf_congr hsame field.type).symm

/-- The arguments of a list field that say the default are the limit and the
offset, each as `null` or as the default that the field advertises. -/
theorem isDefault_iff {item : TypeRef} {page : Int} (htype : field.type = .list item (some page))
    (harguments : field.arguments = Field.pageArguments field.type) (entry : String × Json) :
    field.isDefault entry = true ↔
      entry ∈ [("limit", Json.null), ("limit", .int page), ("offset", .null),
        ("offset", .int 0)] := by
  rw [htype] at harguments
  have hlimit : (field.argument? "limit").bind Argument.default = some page := by
    rw [Field.argument?, harguments]
    rfl
  have hoffset : (field.argument? "offset").bind Argument.default = some 0 := by
    rw [Field.argument?, harguments]
    rfl
  obtain ⟨name, literal⟩ := entry
  rw [Field.isDefault]
  -- only these two names are looked up
  by_cases hname : name = "limit"
  · subst hname
    rw [hlimit]
    cases literal <;> simp
  · by_cases hname' : name = "offset"
    · subst hname'
      rw [hoffset]
      cases literal <;> simp
    · simp [hname, hname']

/-- A list field that is given no arguments shows the page that it advertises. -/
theorem resolve_nil {item : TypeRef} {page : Int} (hpage : 0 ≤ page)
    (htype : field.type = .list item (some page))
    (harguments : field.arguments = Field.pageArguments field.type) :
    ∃ values, resolve schema owner field path [] = .ok values ∧
      Execution.pageOf field.type values = some ⟨some page, 0⟩ := by
  have hgiven : given schema owner field path [] = .ok [] := rfl
  have hvalues : field.arguments.foldl withDefault [] =
      [("limit", .int page), ("offset", .int 0)] := by
    rw [harguments, htype]
    rfl
  have hnegative : negative? [("limit", .int page), ("offset", .int 0)] = none := by
    simp [negative?, Entries.find?, isNegative, hpage]
  refine ⟨[("limit", .int page), ("offset", .int 0)], ?_, ?_⟩
  · rw [resolve, hgiven, Outcome.ok_bind, hvalues]
    simp only [hnegative]
    rfl
  · rw [htype]
    rfl

end Field

end Argument

/-! ### Runs

A selection with its defaults taken out is checked and read as before; only the
selections below it have changed, and those run as before by induction. -/

namespace Execution

/-- What a value is shown as depends on what is shown for the object type inside
its type. -/
theorem complete_congr {object object' : String → Json → Outcome Json} {type : TypeRef}
    (h : ∀ name element, type.namedInside? = some name →
      object name element = object' name element)
    (value : Json) (page : Option PageWindow) :
    complete object type value page = complete object' type value page := by
  induction type generalizing value page with
  | scalar type => rfl
  | json => rfl
  | nonNull inner ih => exact ih h value page
  | named name =>
      by_cases hvalue : value = .null
      · subst hvalue
        rfl
      · rw [complete_named name hvalue, complete_named name hvalue]
        exact h name value rfl
  | list item size ih =>
      by_cases hvalue : value = .null
      · subst hvalue
        rfl
      -- the elements are shown without a page of their own
      · have hitem : (fun element => complete object item element none) =
            fun element => complete object' item element none :=
          funext fun element => ih h element none
        rw [complete_list item size hvalue, complete_list item size hvalue, hitem]

theorem isEmpty_allWithoutDefaults (schema : Schema) (owner : NamedType)
    (selections : List Selection) :
    (Selection.allWithoutDefaults schema owner selections).isEmpty = selections.isEmpty := by
  cases selections with
  | nil => rfl
  | cons selection rest => rfl

variable {schema : Schema}

/-- The selections below a selected field, without the arguments that say the
default. -/
def belowWithoutDefaults (schema : Schema) (field : Field) (children : List Selection) :
    List Selection :=
  match field.type.namedInside? with
  | none => children
  | some inner => Selection.allWithoutDefaults schema (schema.typeNamed inner) children

theorem isEmpty_belowWithoutDefaults (schema : Schema) (field : Field) (children : List Selection) :
    (belowWithoutDefaults schema field children).isEmpty = children.isEmpty := by
  rw [belowWithoutDefaults]
  split
  · rfl
  · exact isEmpty_allWithoutDefaults schema _ children

theorem withoutDefaults_of_unknown {owner : NamedType} {selection : Selection}
    (h : owner.field? selection.name = none) : selection.withoutDefaults schema owner =
      selection := by
  obtain ⟨name, aliasName, arguments, children⟩ := selection
  rw [Selection.withoutDefaults]
  simp only [h]

theorem withoutDefaults_of_field {owner : NamedType} {field : Field} {name : String}
    (h : owner.field? name = some field) (aliasName : Option String)
    (arguments : List (String × Json)) (children : List Selection) :
    Selection.withoutDefaults schema owner ⟨name, aliasName, arguments, children⟩ =
      ⟨name, aliasName, field.telling arguments,
        belowWithoutDefaults schema field children⟩ := by
  rw [Selection.withoutDefaults]
  simp only [h]
  rfl

/-- A selected field is checked, and then shows its value on the page that its
arguments select. -/
theorem runOne_of_field {owner : NamedType} {field : Field} {selection : Selection}
    (hordinary : selection.name ≠ typeNameField)
    (hfield : owner.field? selection.name = some field) (source : Json) (path : ResponsePath) :
    runOne schema selection owner source path =
      ofQuery (checkSelection schema field.type selection.name selection.children path) >>= fun _ =>
      ofQuery ((Argument.resolve schema owner field path selection.arguments).map
        (pageOf field.type)) >>= fun page =>
      field.reader.read source >>= fun value =>
      complete (objectAt schema ⟨owner, path, selection⟩) field.type value page := by
  obtain ⟨name, aliasName, arguments, children⟩ := selection
  simp only [runOne, if_neg hordinary, hfield]
  cases checkSelection schema field.type name children path with
  | error error => rfl
  | ok _ =>
      cases Argument.resolve schema owner field path arguments with
      | error error => rfl
      | ok values => rfl

/-- A selection runs as it does without the arguments that say the default, if
those below it do. -/
theorem runOne_withoutDefaults {owner : NamedType}
    (howner : ∀ field ∈ owner.fields, Argument.Counts field) {selection : Selection}
    (hdistinct : Entries.Distinct selection.arguments)
    (hbelow : ∀ inner element path, runAll schema
        (Selection.allWithoutDefaults schema (schema.typeNamed inner) selection.children)
        (schema.typeNamed inner) element path [] =
      runAll schema selection.children (schema.typeNamed inner) element path [])
    (source : Json) (path : ResponsePath) :
    runOne schema (selection.withoutDefaults schema owner) owner source path =
      runOne schema selection owner source path := by
  obtain ⟨name, aliasName, arguments, children⟩ := selection
  cases hfield : owner.field? name with
  | none => rw [withoutDefaults_of_unknown hfield]
  | some field =>
      have hcounts := howner field (List.mem_of_find?_eq_some hfield)
      rw [withoutDefaults_of_field hfield]
      by_cases hname : name = typeNameField
      · rw [runOne_typeName hname, runOne_typeName hname]
      · -- the checks and the page are the same, and so is what is shown for the objects inside
        have hchecks := checkSelection_congr schema field.type name
          (isEmpty_belowWithoutDefaults schema field children) path
        have hshown : ∀ inner element, field.type.namedInside? = some inner →
            objectAt schema ⟨owner, path, ⟨name, aliasName, field.telling arguments,
                belowWithoutDefaults schema field children⟩⟩ inner element =
              objectAt schema ⟨owner, path, ⟨name, aliasName, arguments, children⟩⟩
                inner element := by
          intro inner element hinner
          rw [objectAt, objectAt, belowWithoutDefaults, hinner]
          exact congrArg (Except.map Json.obj) (hbelow inner element path)
        rw [runOne_of_field hname hfield, runOne_of_field hname hfield]
        simp only [hchecks, Argument.resolve_telling hcounts hdistinct, complete_congr hshown]

theorem responseKey_withoutDefaults (owner : NamedType) (selection : Selection) :
    (selection.withoutDefaults schema owner).responseKey = selection.responseKey := by
  obtain ⟨name, aliasName, arguments, children⟩ := selection
  cases hfield : owner.field? name with
  | none => rw [withoutDefaults_of_unknown hfield]
  | some field =>
      rw [withoutDefaults_of_field hfield]
      rfl

/-- Selections run as they do without the arguments that say the default. -/
theorem runAll_withoutDefaults
    (hinside : ∀ name, ∀ field ∈ (schema.typeNamed name).fields, Argument.Counts field)
    {selections : List Selection} (hseparate : Selection.AllSeparate selections) {owner : NamedType}
    (howner : ∀ field ∈ owner.fields, Argument.Counts field) (source : Json)
    (path : ResponsePath) (done : Entries Json) :
    runAll schema (Selection.allWithoutDefaults schema owner selections) owner source path done =
      runAll schema selections owner source path done := by
  induction selections using Selection.induct generalizing owner source path done with
  | nil => rfl
  | cons selection rest ihBelow ihRest =>
      rw [Selection.AllSeparate, Selection.separate_iff] at hseparate
      obtain ⟨⟨hdistinct, hbelow⟩, hrest⟩ := hseparate
      have hone := runOne_withoutDefaults howner hdistinct
        (fun inner element path => ihBelow hbelow (hinside inner) element path []) source
      rw [Selection.allWithoutDefaults, runAll, runAll, responseKey_withoutDefaults, hone]
      split
      · rfl
      · exact ihRest hrest howner source path _

/-- A query runs as its operation does without the arguments that say the default. -/
theorem run_eq_withoutDefaults
    (hinside : ∀ name, ∀ field ∈ (schema.typeNamed name).fields, Argument.Counts field)
    (hroots : ∀ kind root, rootOf schema kind = .ok root → ∀ field ∈ root.fields,
      Argument.Counts field)
    {text : String} {operation : Operation} (h : Query.parse text = .ok operation) (source : Json) :
    run schema source text = runOperation schema source (operation.withoutDefaults schema) := by
  have hseparate := Grammar.allSeparate_of_parse h
  simp only [run, h, ofQuery, Outcome.mapError_ok, Outcome.ok_bind]
  rw [Operation.withoutDefaults]
  cases hroot : rootOf schema operation.kind with
  | error error => rfl
  | ok root =>
      simp only [runOperation, hroot, ofQuery, Outcome.mapError_ok, Outcome.ok_bind]
      exact (runAll_withoutDefaults hinside hseparate (hroots _ _ hroot) source [] []).symm

end Execution

/-! ### Built schemas -/

namespace Schema

variable {limits : Limits} {data : Json} {method path : String} {body : Option Json}
  {schema : Schema}

/-- All fields of a schema that is built are of one of the three kinds. -/
theorem built_of_build (h : build limits data method path body = .ok schema) (name : String) :
    ∀ field ∈ (schema.typeNamed name).fields, field.Built := by
  obtain ⟨names, hoffers⟩ := offers_any h
  intro field hfield
  rw [typeNamed, Registry.typeNamed] at hfield
  cases hfind : Entries.find? schema.types name with
  | none =>
      rw [hfind] at hfield
      cases hfield
  | some type =>
      rw [hfind, Option.getD_some] at hfield
      -- a type is that of an output, that of an input or the root of mutations
      cases registered_of_build (anyPage limits) h (Entries.mem_of_find? hfind) with
      | output _ houtput => exact .output (houtput field hfield)
      | input _ hnone => exact .input (hnone field hfield)
      | mutation hsome => exact .mutation (hoffers.mutationField hsome hfield)

/-- So are those of its roots. -/
theorem built_of_rootOf (h : build limits data method path body = .ok schema)
    {kind : OperationKind} {root : NamedType} (hroot : Execution.rootOf schema kind = .ok root) :
    ∀ field ∈ root.fields, field.Built := by
  obtain ⟨names, hoffers⟩ := offers_any h
  have hserved : Execution.Served schema names (fun _ => True) data.kind root data :=
    Execution.served_rootOf hroot rfl
  exact fun field hfield => hserved.built hoffers hfield

/-- A schema is built for every response. Its output fields advertise a page
between the limits for each of their lists, and take a limit and an offset when
they are lists themselves. What is advertised is what is shown: without
arguments a list field shows the page that it advertises, and two queries that
differ only in whether page arguments are left out, are `null` or are the
advertised defaults have one outcome on every value. -/
theorem paging_of_build (hmin : 0 ≤ limits.minListLimit)
    (hmax : limits.minListLimit ≤ limits.maxListLimit) (data : Json) (method path : String)
    (body : Option Json) :
    (body = none → limits.charsPerUnit ≠ 0 →
        ∃ schema, build limits data method path body = .ok schema) ∧
      ∀ schema, build limits data method path body = .ok schema →
        schema.Advertises limits ∧
        (∀ owner field item page path, field.Advertises limits →
          field.type = .list item (some page) →
          (∃ values, Argument.resolve schema owner field path [] = .ok values ∧
            Execution.pageOf field.type values = some ⟨some page, 0⟩) ∧
          ∀ entry, field.isDefault entry = true ↔ entry ∈
            [("limit", Json.null), ("limit", .int page), ("offset", .null), ("offset", .int 0)]) ∧
        ∀ text text' operation operation', Query.parse text = .ok operation →
          Query.parse text' = .ok operation' →
          operation.withoutDefaults schema = operation'.withoutDefaults schema →
          ∀ source, Execution.run schema source text = Execution.run schema source text' := by
  refine ⟨?_, ?_⟩
  · rintro rfl hunit
    exact build_of_reading hunit data method path fun _ => rfl
  · intro schema h
    refine ⟨advertises_of_build hmax h, ?_, ?_⟩
    · intro owner field item page path hadvertises htype
      obtain ⟨size, hsize, hallowed⟩ :=
        hadvertises.sizes (some page) (by rw [htype]; exact List.mem_cons_self)
      obtain rfl := Option.some.inj hsize
      exact ⟨Argument.resolve_nil (Int.le_trans hmin hallowed.1) htype hadvertises.arguments,
        Argument.isDefault_iff htype hadvertises.arguments⟩
    · intro text text' operation operation' hparse hparse' hsame source
      have hinside : ∀ name, ∀ field ∈ (schema.typeNamed name).fields,
          Argument.Counts field :=
        fun name field hfield => (built_of_build h name field hfield).counts
      have hroots : ∀ kind root, Execution.rootOf schema kind = .ok root →
          ∀ field ∈ root.fields, Argument.Counts field :=
        fun _ _ hroot field hfield => (built_of_rootOf h hroot field hfield).counts
      rw [Execution.run_eq_withoutDefaults hinside hroots hparse, hsame,
        ← Execution.run_eq_withoutDefaults hinside hroots hparse']

/-- Whether a text is, but for arguments that say the default, the query of the
field `tags`. -/
def asksForTags (schema : Schema) (text : String) : Bool :=
  match Query.parse text with
  | .error _ => false
  | .ok operation =>
      match operation.withoutDefaults schema with
      | ⟨.query, none, [⟨"tags", none, [], []⟩]⟩ => true
      | _ => false

theorem parse_of_asksForTags {text : String} (h : asksForTags schema text = true) :
    ∃ operation, Query.parse text = .ok operation ∧
      operation.withoutDefaults schema = ⟨.query, none, [⟨"tags", none, [], []⟩]⟩ := by
  unfold asksForTags at h
  split at h
  · cases h
  · next operation hparse =>
      split at h
      · next hplain => exact ⟨operation, hparse, hplain⟩
      · cases h

/-- The limit `null` shows what the advertised limit and offset show. -/
theorem paging_of_build_tags : ∃ schema,
    build {} (.obj [("tags", .arr [.str "a", .str "b"])]) "GET" "/" none = .ok schema ∧
      ∀ source, Execution.run schema source "\x7b tags(limit: null) \x7d" =
        Execution.run schema source "\x7b tags(limit: 50, offset: 0) \x7d" := by
  have hmin : 0 ≤ ({} : Limits).minListLimit := by decide
  have hmax : ({} : Limits).minListLimit ≤ ({} : Limits).maxListLimit := by decide
  obtain ⟨hbuilt, hpaging⟩ :=
    paging_of_build hmin hmax (.obj [("tags", .arr [.str "a", .str "b"])]) "GET" "/" none
  obtain ⟨schema, hschema⟩ := hbuilt rfl (by decide)
  have hasks : (match build {} (.obj [("tags", .arr [.str "a", .str "b"])]) "GET" "/" none with
      | .ok schema => asksForTags schema "\x7b tags(limit: null) \x7d" &&
          asksForTags schema "\x7b tags(limit: 50, offset: 0) \x7d"
      | .error _ => false) = true := by
    decide +kernel
  simp only [hschema, Bool.and_eq_true] at hasks
  obtain ⟨operation, hparse, hplain⟩ := parse_of_asksForTags hasks.1
  obtain ⟨operation', hparse', hplain'⟩ := parse_of_asksForTags hasks.2
  obtain ⟨-, -, hrun⟩ := hpaging schema hschema
  exact ⟨schema, hschema, hrun _ _ operation operation' hparse hparse'
    (hplain.trans hplain'.symm)⟩

end Schema

end JsonSelection
