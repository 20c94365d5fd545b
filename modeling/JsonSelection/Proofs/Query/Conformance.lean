import JsonSelection.Proofs.Entries
import JsonSelection.Proofs.Query.Refusal

/-!
# Results have the shape of their query

A result has one entry for each response key of the selections, in the order in
which the keys first occur, and of several selections with one key the last one
answers. What an entry holds conforms to the type of the selected field.

## What this module delivers

- `Execution.Conforms`: what may be shown of a raw value at a type. Scalars have
  the form of their type, lists are pages, and raw JSON is handed through.
- `Execution.Shaped`: the entries that may be shown of an object.
- `Execution.Answers`: what one selection may show.
- `Execution.conforms_of_complete`: what is shown of a value conforms to its
  type, if what is shown of objects has the right shape.
- `Execution.shaped_of_run`: every query that has a result has one of this
  shape, whatever the value that it is run on.

The three relations are mutual, as the functions of execution are, but they
speak of the raw value and not of how it is read. Whether a query has a result
is not said here.
-/

set_option autoImplicit false

namespace JsonSelection

namespace Scalar

/-- A value that a scalar type can show. Values of other kinds than the type was
found for are shown too, but none that the type has a form for. -/
def Shows : Scalar → Json → Prop
  | .string, .bool _ => False
  | .string, .int _ => False
  | .string, .float _ => False
  | .int, .bool _ => False
  | .int, .float x => (Binary64.ofFloat x).isWhole = false
  | .boolean, .int _ => False
  | .boolean, .float _ => False
  | _, _ => True

theorem shows_serialize (type : Scalar) (value : Json) : type.Shows (type.serialize value) := by
  cases type with
  | string => cases value <;> trivial
  | float => cases value <;> trivial
  | boolean => cases value <;> trivial
  | int =>
      cases value with
      | float x =>
          simp only [serialize]
          cases hint : (Binary64.ofFloat x).toInt? with
          | some n => trivial
          | none => simp [Shows, Binary64.isWhole, hint]
      | _ => trivial

end Scalar

namespace Selection

/-- The last of some selections that has a response key. It is the one whose
value the result shows. -/
def last? (selections : List Selection) (key : String) : Option Selection :=
  selections.reverse.find? fun selection => selection.responseKey == key

end Selection

namespace Execution

/-- The part of a list that a page shows. No page that is shown has negative
numbers, so no position counts from the end. -/
def window (items : List Json) (limit offset : Int) : List Json :=
  (items.drop offset.toNat).take limit.toNat

/-- The limit and the offset that a selection chooses for a list field. The
elements of a list are not asked, so a list among them has its own limit. -/
def chosenPage (selection : Selection) : TypeRef → Option (Int × Int)
  | .list _ (some size) =>
      some (Argument.chosen selection.arguments "limit" size,
        Argument.chosen selection.arguments "offset" 0)
  | _ => none

mutual

/-- What is shown of a raw value at a type, for the selections below it. The
page is that of a list field; inner lists have the page of their type. -/
inductive Conforms (schema : Schema) :
    List Selection → TypeRef → Option (Int × Int) → Json → Json → Prop where
  | json {children : List Selection} {page : Option (Int × Int)} {raw : Json} :
      Conforms schema children .json page raw raw
  | scalar {children : List Selection} {type : Scalar} {page : Option (Int × Int)} {raw : Json} :
      type.Shows (type.serialize raw) →
        Conforms schema children (.scalar type) page raw (type.serialize raw)
  | noList {children : List Selection} {item : TypeRef} {size : Option Int}
      {page : Option (Int × Int)} : Conforms schema children (.list item size) page .null .null
  | list {children : List Selection} {item : TypeRef} {size limit offset : Int}
      {page : Option (Int × Int)} {raw : Json} {shown : List Json} : raw ≠ .null →
        page.getD (size, 0) = (limit, offset) → (shown.length : Int) ≤ limit →
        shown.length = (window (raw.items?.getD [raw]) limit offset).length →
        (∀ (index : Nat) (element value : Json),
          (window (raw.items?.getD [raw]) limit offset)[index]? = some element →
            shown[index]? = some value → Conforms schema children item none element value) →
        Conforms schema children (.list item (some size)) page raw (.arr shown)
  | noObject {children : List Selection} {name : String} {page : Option (Int × Int)} :
      Conforms schema children (.named name) page .null .null
  | object {children : List Selection} {name : String} {page : Option (Int × Int)} {raw : Json}
      {entries : Entries Json} : raw ≠ .null →
        Shaped schema children (schema.typeNamed name) raw entries →
        Conforms schema children (.named name) page raw (.obj entries)

/-- The entries that are shown of an object of a type for some selections. The
keys stand in the order in which they were first selected. -/
inductive Shaped (schema : Schema) : List Selection → NamedType → Json →
    Entries Json → Prop where
  | entries {selections : List Selection} {owner : NamedType} {source : Json}
      {entries : Entries Json} :
        Entries.keys entries = (selections.map Selection.responseKey).eraseDups →
        (∀ (key : String) (selection : Selection) (value : Json),
          Selection.last? selections key = some selection →
          Entries.find? entries key = some value →
            Answers schema selection owner source value) →
        Shaped schema selections owner source entries

/-- What a selection of an object of a type shows. The type name has a rule of
its own, because no field stands for it. -/
inductive Answers (schema : Schema) : Selection → NamedType → Json → Json → Prop where
  | typeName {selection : Selection} {owner : NamedType} {source : Json} :
      selection.name = typeNameField → Answers schema selection owner source (.str owner.name)
  | field {selection : Selection} {owner : NamedType} {source raw shown : Json} {field : Field} :
      selection.name ≠ typeNameField → owner.field? selection.name = some field →
        field.reader.read source = .ok raw →
        Conforms schema selection.children field.type
          (chosenPage selection field.type) raw shown →
        Answers schema selection owner source shown

end

/-! ### Pages -/

/-- A page as execution passes it on. -/
def toWindow (page : Int × Int) : PageWindow :=
  ⟨some page.1, page.2⟩

theorem cut_toWindow (items : List Json) {page : Int × Int} (hlimit : 0 ≤ page.1)
    (hoffset : 0 ≤ page.2) :
    cut items (toWindow page) = window items page.1 page.2 :=
  Slice.between_of_nonneg items hoffset hlimit

theorem length_window_le (items : List Json) {limit : Int} (hlimit : 0 ≤ limit) (offset : Int) :
    ((window items limit offset).length : Int) ≤ limit := by
  have htake := List.length_take_le limit.toNat (items.drop offset.toNat)
  unfold window
  omega

/-! ### Values

The induction is on the type, for any page: the outer list has the page that the
selection chooses, and the lists in it have their own. -/

variable {schema : Schema} {names : String → Prop}

/-- What is shown of a value conforms to its type, if what is shown of objects
has the right shape. -/
theorem conforms_of_complete {children : List Selection} {object : String → Json → Outcome Json}
    (hobject : ∀ name element shown, names name → object name element = .ok shown →
      ∃ entries, shown = .obj entries ∧ Shaped schema children (schema.typeNamed name)
        element entries)
    {type : TypeRef} (htype : type.Output names (0 ≤ ·)) {value shown : Json}
    {page : Option (Int × Int)} (hpage : ∀ chosen, page = some chosen →
      0 ≤ chosen.1 ∧ 0 ≤ chosen.2)
    (h : complete object type value (page.map toWindow) = .ok shown) :
    Conforms schema children type page value shown := by
  induction htype generalizing value shown page with
  | scalar type =>
      obtain rfl := Except.ok.inj h
      exact .scalar (type.shows_serialize value)
  | json =>
      obtain rfl := Except.ok.inj h
      exact .json
  | @named name hname =>
      by_cases hvalue : value = .null
      · subst hvalue
        obtain rfl := Except.ok.inj h
        exact .noObject
      · rw [complete_named name hvalue] at h
        obtain ⟨entries, rfl, hshaped⟩ := hobject name value shown hname h
        exact .object hvalue hshaped
  | @list item size _ hsize ih =>
      by_cases hvalue : value = .null
      · subst hvalue
        obtain rfl := Except.ok.inj h
        exact .noList
      · rw [complete_list item (some size) hvalue] at h
        obtain ⟨elements, helements, rfl⟩ := Outcome.map_eq_ok_iff.mp h
        -- the page of the arguments, or else the page of the type from the start
        obtain ⟨chosen, hchosen, hwindow, hlimit, hoffset⟩ : ∃ chosen,
          page.getD (size, 0) = chosen ∧
            (page.map toWindow).getD ⟨some size, 0⟩ = toWindow chosen ∧ 0 ≤ chosen.1 ∧
              0 ≤ chosen.2 := by
          cases page with
          | none => exact ⟨(size, 0), rfl, rfl, hsize, Int.le_refl 0⟩
          | some chosen => exact ⟨chosen, rfl, rfl, hpage chosen rfl⟩
        rw [hwindow, cut_toWindow _ hlimit hoffset] at helements
        obtain ⟨hlength, hshown⟩ := Outcome.mapM_ok helements
        refine .list hvalue hchosen ?_ hlength ?_
        · rw [hlength]
          exact length_window_le _ hlimit chosen.2
        · intro index element value helement hvalue
          exact ih (fun chosen hnone => by cases hnone) (hshown index element value helement hvalue)

/-! ### Selections

A selection is accepted before it is run, and an accepted one has its field and
its page. -/

/-- The fields of a type are output fields, and those that show a list take the
arguments of its page. -/
def Listed (names : String → Prop) (owner : NamedType) : Prop :=
  ∀ field ∈ owner.fields, field.type.Output names (0 ≤ ·) ∧
    ∀ item size, field.type = .list item size → field.arguments = Field.pageArguments field.type

/-- The page of an accepted selection is the one that it chooses. -/
theorem pageOf_of_accepts {site : Site} {field : Field} {values : Entries Json}
    (h : site.Accepts schema field values) (hlisted : Listed names site.owner) :
    pageOf field.type values = (chosenPage site.selection field.type).map toWindow ∧
      ∀ chosen, chosenPage site.selection field.type = some chosen → 0 ≤ chosen.1 ∧
      0 ≤ chosen.2 := by
  obtain ⟨houtput, harguments⟩ := hlisted field (List.mem_of_find?_eq_some h.known)
  cases hshape : field.type with
  | list item size =>
      rw [hshape] at houtput
      cases houtput with
      | @list _ size _ _ =>
          obtain ⟨hpage, hlimit, hoffset⟩ :=
            Argument.pageOf_resolve hshape (harguments item _ hshape) h.arguments
          rw [hshape] at hpage
          refine ⟨hpage, ?_⟩
          intro chosen hchosen
          obtain rfl := Option.some.inj hchosen
          exact ⟨hlimit, hoffset⟩
  | _ => exact ⟨rfl, fun chosen hchosen => by cases hchosen⟩

/-- A selection that has a result is accepted, the type name apart. -/
theorem accepts_of_runOne {selection : Selection} {owner : NamedType} {source shown : Json}
    {path : ResponsePath} (hordinary : selection.name ≠ typeNameField)
    (h : runOne schema selection owner source path = .ok shown) :
    ∃ field values, Site.Accepts schema ⟨owner, path, selection⟩ field values := by
  let site : Site := ⟨owner, path, selection⟩
  rcases Site.accepts_or_faulty schema
    (show site.selection.name ≠ typeNameField from hordinary) with
    haccepts | hfaulty
  · exact haccepts
  · obtain ⟨error, herror⟩ := runOne_of_faulty hfaulty source
    rw [h] at herror
    cases herror

/-- The result of selections has an entry for each of them, of which the last
one with a key stays. -/
theorem runAll_ok {selections : List Selection} {owner : NamedType} {source : Json}
    {path : ResponsePath} {done result : Entries Json}
    (h : runAll schema selections owner source path done = .ok result) :
    ∃ answers : List (Selection × Json), answers.map Prod.fst = selections ∧
      (∀ answer ∈ answers, runOne schema answer.1 owner source
        (path ++ [answer.1.responseKey]) =
        .ok answer.2) ∧
      result = Entries.putAll done (answers.map fun answer =>
        (answer.1.responseKey, answer.2)) := by
  induction selections generalizing done with
  | nil =>
      obtain rfl := Except.ok.inj h
      exact ⟨[], rfl, by simp, rfl⟩
  | cons selection rest ih =>
      rw [runAll] at h
      split at h
      · cases h
      · next value hvalue =>
          obtain ⟨answers, rfl, hanswers, rfl⟩ := ih h
          refine ⟨(selection, value) :: answers, rfl, ?_, rfl⟩
          intro answer hanswer
          rcases List.mem_cons.mp hanswer with rfl | hanswer
          · exact hvalue
          · exact hanswers answer hanswer

theorem shaped_of_runAll {selections : List Selection} {owner : NamedType} {source : Json}
    {path : ResponsePath} {result : Entries Json}
    (hanswers : ∀ selection ∈ selections, ∀ path value,
      runOne schema selection owner source path = .ok value →
        Answers schema selection owner source value)
    (h : runAll schema selections owner source path [] = .ok result) :
    Shaped schema selections owner source result := by
  obtain ⟨answers, rfl, hrun, rfl⟩ := runAll_ok h
  refine .entries ?_ ?_
  · rw [← Entries.ofList, Entries.keys_ofList, Entries.keys_map, List.map_map]
    rfl
  · intro key selection value hlast hvalue
    rw [← Entries.ofList, Entries.find?_ofList, ← List.map_reverse,
      Entries.find?_map answers.reverse (fun answer => answer.1.responseKey) Prod.snd] at hvalue
    obtain ⟨answer, hanswer, rfl⟩ := Option.map_eq_some_iff.mp hvalue
    -- the same answer comes last among the selections
    rw [Selection.last?, ← List.map_reverse, List.find?_map] at hlast
    obtain ⟨other, hother, rfl⟩ := Option.map_eq_some_iff.mp hlast
    obtain rfl : answer = other := Option.some.inj (hanswer.symm.trans hother)
    have hmem : answer ∈ answers := by simpa using List.mem_of_find?_eq_some hanswer
    exact hanswers _ (List.mem_map_of_mem hmem) _ _ (hrun answer hmem)

/-- Whatever a selection has as its result answers it. -/
theorem answers_of_runOne (hinside : ∀ name, names name → Listed names (schema.typeNamed name))
    (selections : List Selection) :
    ∀ selection ∈ selections, ∀ {owner : NamedType}, Listed names owner →
      ∀ {source value : Json} {path : ResponsePath},
        runOne schema selection owner source path = .ok value →
          Answers schema selection owner source value := by
  induction selections using Selection.induct with
  | nil => simp
  | cons selection rest ihBelow ihRest =>
      intro other hother
      rcases List.mem_cons.mp hother with rfl | hrest
      · intro owner hlisted source value path h
        by_cases hname : other.name = typeNameField
        · rw [runOne_typeName hname] at h
          obtain rfl := Except.ok.inj h
          exact .typeName hname
        · obtain ⟨field, values, haccepts⟩ := accepts_of_runOne hname h
          obtain ⟨hpage, hforward⟩ := pageOf_of_accepts haccepts hlisted
          obtain ⟨houtput, -⟩ := hlisted field (List.mem_of_find?_eq_some haccepts.known)
          -- its page is the chosen one, so what is shown conforms for that page
          obtain ⟨raw, hraw, hcomplete⟩ :=
            Outcome.bind_eq_ok_iff.mp ((runOne_eq_bind haccepts source).symm.trans h)
          rw [hpage] at hcomplete
          refine .field hname haccepts.known hraw
            (conforms_of_complete ?_ houtput hforward hcomplete)
          -- the objects that are shown have the shape of the selections below this one
          intro name element shown hknown hshown
          obtain ⟨entries, hentries, rfl⟩ := Outcome.map_eq_ok_iff.mp hshown
          refine ⟨entries, rfl, shaped_of_runAll ?_ hentries⟩
          intro below hbelow path value hvalue
          exact ihBelow below hbelow (hinside name hknown) hvalue
      · exact ihRest other hrest

/-! ### Runs -/

/-- The names of the object types that fields lead to, that of the query root
among them. -/
def OrQuery (names : String → Prop) (name : String) : Prop :=
  names name ∨ name = "Query"

theorem listed_of_output {owner : NamedType} {sources : Json → Prop}
    (h : owner.Output names (0 ≤ ·) sources) : Listed (OrQuery names) owner := by
  intro field hfield
  have houtput := h field hfield
  exact ⟨houtput.type.imp fun _ => Or.inl, fun _ _ _ => houtput.arguments⟩

theorem listed_typeNamed {sources : Json → Prop} (h : schema.Offers names (0 ≤ ·) sources)
    (name : String) (hname : OrQuery names name) : Listed (OrQuery names)
    (schema.typeNamed name) := by
  rcases hname with hname | rfl
  · exact listed_of_output (h.inside name hname)
  · rw [h.registered]
    exact listed_of_output h.query

theorem listed_rootOf {sources : Json → Prop} (h : schema.Offers names (0 ≤ ·) sources)
    {kind : OperationKind} {root : NamedType} (hroot : rootOf schema kind = .ok root) :
    Listed (OrQuery names) root := by
  cases kind with
  | query =>
      obtain rfl := Except.ok.inj hroot
      exact listed_of_output h.query
  | mutation =>
      simp only [rootOf] at hroot
      split at hroot
      · next found hfound =>
          obtain rfl := Except.ok.inj hroot
          intro field hfield
          -- the one field of a mutation root gives an object, so it has no page
          rw [(h.mutationField hfound hfield).type]
          exact ⟨.named (Or.inr rfl), fun item size hlist => by cases hlist⟩
      · cases hroot

/-- A result has the shape of its query, whatever value of whatever kind the
query is run on. -/
theorem shaped_of_run {limits : Limits} (hmin : 0 ≤ limits.minListLimit)
    (hmax : limits.minListLimit ≤ limits.maxListLimit) {data : Json} {method path : String}
    {body : Option Json} (h : Schema.build limits data method path body = .ok schema)
    {source : Json} {text : String} {result : Entries Json}
    (hrun : run schema source text = .ok result) :
    ∃ selections root, Starts schema text selections root ∧
      Shaped schema selections root source result := by
  obtain ⟨names, hoffers⟩ := Schema.offers_of_build
    (fun _ _ _ => Inference.pageSize_nonneg hmin (Int.le_trans hmin hmax)) h
  rcases starts_or_refused schema text with ⟨selections, root, hstarts⟩ | ⟨hrefused, -⟩
  · refine ⟨selections, root, hstarts, ?_⟩
    rw [run_of_starts hstarts] at hrun
    obtain ⟨operation, -, hroot, rfl⟩ := hstarts
    refine shaped_of_runAll ?_ hrun
    intro selection hselection path value hvalue
    exact answers_of_runOne (listed_typeNamed hoffers) operation.selections selection hselection
      (listed_rootOf hoffers hroot) hvalue
  · obtain ⟨error, herror⟩ := hrefused source
    rw [hrun] at herror
    cases herror

/-- Values of other types than the schema was built for, with one response key
selected twice. -/
theorem shaped_of_run_single :
    ∃ schema result, Schema.build {} (.arr [.obj [("id", .int 1)]]) "GET" "/"
      none = .ok schema ∧
      run schema (.arr [.obj [("id", .str "x")], .null])
        "\x7b items(limit: 1) \x7b id id: __typename \x7d \x7d" = .ok result ∧
      ∃ selections root,
        Starts schema "\x7b items(limit: 1) \x7b id id: __typename \x7d \x7d" selections root ∧
          Shaped schema selections root (.arr [.obj [("id", .str "x")], .null]) result := by
  have hshown : (match Schema.build {} (.arr [.obj [("id", .int 1)]]) "GET" "/" none with
      | .ok schema => (run schema (.arr [.obj [("id", .str "x")], .null])
          "\x7b items(limit: 1) \x7b id id: __typename \x7d \x7d").isOk
      | .error _ => false) = true := by
    decide +kernel
  split at hshown
  · next schema hbuild =>
      -- the statement is evaluated for its success alone
      cases hrun : run schema (.arr [.obj [("id", .str "x")], .null])
          "\x7b items(limit: 1) \x7b id id: __typename \x7d \x7d" with
      | ok result =>
          exact ⟨schema, result, hbuild, hrun,
            shaped_of_run (by decide) (by decide) hbuild hrun⟩
      | error error =>
          rw [hrun] at hshown
          cases hshown
  · cases hshown

end Execution

end JsonSelection
