import JsonSelection.Proofs.Query.Visiting
import Mathlib.Data.List.Forall2

/-!
# What the result of a query depends on

Two values agree for some selections when each selected field reads related
values from them: the same value at a leaf, values that are both `null` or agree
for the selections below at an object type, and as many elements, related one by
one, at a list type.

## What this module delivers

- `Execution.Agree`, `Execution.AgreeOn`, `Execution.AgreeAt`: agreement of
  values of a type, of sources, and at one field.
- `Execution.agreeOn_of_overlooks`: objects that hold the same under the keys
  that the selected fields read agree.
- `Execution.outcome_eq_of_agree`: values that agree have the same outcome, be
  it a result or an error.

Nothing is said of what the fields that are not selected read, so no other key
of an object shows in a result or in an error, at any depth. Agreement does not
depend on the pages: it asks for all elements of a list, also for those that are
not shown.
-/

set_option autoImplicit false

namespace JsonSelection

namespace Json

/-- The elements that a value has as a list; a value that is not an array is its
only element. -/
def elements (value : Json) : List Json :=
  value.items?.getD [value]

end Json

namespace Reader

/-- Whether a reader gets the same from two objects: it reads no key, or a key
under which both hold the same. -/
def Overlooks (reader : Reader) (entries entries' : Entries Json) : Prop :=
  reader = .nothing ∨
    ∃ key, reader = .member key ∧ Entries.find? entries key = Entries.find? entries' key

theorem Overlooks.read_eq {reader : Reader} {entries entries' : Entries Json}
    (h : reader.Overlooks entries entries') :
    ∃ value, reader.read (.obj entries) = .ok value ∧
    reader.read (.obj entries') = .ok value := by
  rcases h with rfl | ⟨key, rfl, hkey⟩
  · exact ⟨.null, rfl, rfl⟩
  · refine ⟨(Entries.find? entries key).getD .null, rfl, ?_⟩
    rw [hkey]
    rfl

end Reader

namespace Execution

mutual

/-- Two values of a type that hold the same for the selections below it. What no
selection asks for may differ in any way. -/
inductive Agree (schema : Schema) : List Selection → TypeRef → Json → Json → Prop where
  | scalar {children : List Selection} {type : Scalar} {value : Json} :
      Agree schema children (.scalar type) value value
  | json {children : List Selection} {value : Json} : Agree schema children .json value value
  | nonNull {children : List Selection} {inner : TypeRef} {value value' : Json} :
      Agree schema children inner value value' →
      Agree schema children (.nonNull inner) value value'
  | noList {children : List Selection} {item : TypeRef} {size : Option Int} :
      Agree schema children (.list item size) .null .null
  | list {children : List Selection} {item : TypeRef} {size : Option Int} {value value' : Json} :
      value ≠ .null → value' ≠ .null → value.elements.length = value'.elements.length →
        (∀ (index : Nat) (element element' : Json), value.elements[index]? = some element →
          value'.elements[index]? = some element' →
          Agree schema children item element element') →
        Agree schema children (.list item size) value value'
  | noObject {children : List Selection} {name : String} :
      Agree schema children (.named name) .null .null
  | object {children : List Selection} {name : String} {value value' : Json} :
      value ≠ .null → value' ≠ .null → AgreeOn schema children (schema.typeNamed name)
        value value' →
        Agree schema children (.named name) value value'

/-- Two sources of a type from which each selected field reads values that hold
the same. -/
inductive AgreeOn (schema : Schema) : List Selection → NamedType → Json → Json → Prop where
  | selected {selections : List Selection} {owner : NamedType} {source source' : Json} :
      (∀ selection ∈ selections, ∀ field, selection.name ≠ typeNameField →
        owner.field? selection.name = some field →
          AgreeAt schema selection.children field source source') →
        AgreeOn schema selections owner source source'

/-- Two sources from which a field reads values that hold the same, or from none
of which it can be read. -/
inductive AgreeAt (schema : Schema) : List Selection → Field → Json → Json → Prop where
  | read {children : List Selection} {field : Field} {source source' value value' : Json} :
      field.reader.read source = .ok value → field.reader.read source' = .ok value' →
        Agree schema children field.type value value' →
        AgreeAt schema children field source source'
  | unread {children : List Selection} {field : Field} {source source' : Json}
      {error : ExecutionError} :
      field.reader.read source = .error error → field.reader.read source' = .error error →
        AgreeAt schema children field source source'

end

/-! ### Pages of related elements -/

/-- A page of related elements shows related elements. -/
theorem forall₂_cut {related : Json → Json → Prop} {items items' : List Json}
    (h : List.Forall₂ related items items') (page : PageWindow) :
    List.Forall₂ related (cut items page) (cut items' page) := by
  have hlength : items.length = items'.length := h.length_eq
  -- both pages begin and end at the same places, since there are as many elements
  simp only [cut, Slice.between, Slice.before, hlength]
  split
  · exact List.forall₂_drop _ (List.forall₂_take _ h)
  · exact List.forall₂_drop _ (List.forall₂_take _ h)

theorem mapM_eq_of_forall₂ {show₁ : Json → Outcome Json} {items items' : List Json}
    (h : List.Forall₂ (fun item item' => show₁ item = show₁ item') items items') :
    items.mapM show₁ = items'.mapM show₁ := by
  induction h with
  | nil => rfl
  | cons hfirst _ ih => rw [List.mapM_cons, List.mapM_cons, hfirst, ih]

/-! ### Values that agree

The induction is on the selections, and inside it on the type of the field, as
execution is. -/

variable {schema : Schema} {children : List Selection}

/-- Values that agree are shown alike, if objects that agree are. -/
theorem complete_of_agree {object : String → Json → Outcome Json}
    (hobject : ∀ name value value', AgreeOn schema children (schema.typeNamed name)
      value value' →
      object name value = object name value')
    {type : TypeRef} {value value' : Json} (h : Agree schema children type value value')
    (page : Option PageWindow) :
    complete object type value page = complete object type value' page := by
  induction type generalizing value value' page with
  | scalar type =>
      cases h with
      | scalar => rfl
  | json =>
      cases h with
      | json => rfl
  | nonNull inner ih =>
      cases h with
      | nonNull hinner => exact ih hinner page
  | named name =>
      cases h with
      | noObject => rfl
      | object hvalue hvalue' hsources =>
          rw [complete_named name hvalue, complete_named name hvalue']
          exact hobject name value value' hsources
  | list item size ih =>
      cases h with
      | noList => rfl
      | list hvalue hvalue' hlength helements =>
          have hrelated : List.Forall₂ (Agree schema children item) value.elements
              value'.elements := by
            refine List.forall₂_iff_get.mpr ⟨hlength, ?_⟩
            intro index hindex hindex'
            exact helements index _ _ (List.getElem?_eq_getElem hindex)
              (List.getElem?_eq_getElem hindex')
          -- elements are shown without a window of their own
          have hshown := forall₂_cut (hrelated.imp fun _ _ hagree => ih hagree none)
            (page.getD ⟨size, 0⟩)
          rw [complete_list item size hvalue, complete_list item size hvalue']
          exact congrArg (Except.map Json.arr) (mapM_eq_of_forall₂ hshown)

/-- A selection has the same outcome for sources that agree, if those below it
have. -/
theorem runOne_of_agree {selection : Selection} {owner : NamedType} {source source' : Json}
    (hbelow : ∀ inner element element' path done,
      AgreeOn schema selection.children inner element element' →
        runAll schema selection.children inner element path done =
          runAll schema selection.children inner element' path done)
    (h : ∀ field, selection.name ≠ typeNameField →
      owner.field? selection.name = some field →
      AgreeAt schema selection.children field source source')
    (path : ResponsePath) :
    runOne schema selection owner source path = runOne schema selection owner source' path := by
  obtain ⟨name, aliasName, arguments, children⟩ := selection
  simp only [runOne]
  split
  · rfl
  · next hordinary =>
      split
      · rfl
      · next field hfield =>
          -- both sources cannot be read, with one error, or the values that are
          -- read agree
          cases h field hordinary hfield with
          | unread hsource hsource' => rw [hsource, hsource']
          | read hsource hsource' hagree =>
              have hobject : ∀ inner element element',
                  AgreeOn schema children (schema.typeNamed inner) element element' →
                    (runAll schema children (schema.typeNamed inner) element path []).map Json.obj =
                      (runAll schema children (schema.typeNamed inner) element' path
                        []).map Json.obj :=
                fun inner element element' hsources =>
                  congrArg (Except.map Json.obj) (hbelow _ element element' path [] hsources)
              simp only [hsource, hsource', Outcome.ok_bind, complete_of_agree hobject hagree]

/-- Selections have the same outcome for sources that agree. -/
theorem runAll_of_agree (selections : List Selection) {owner : NamedType} {source source' : Json}
    (h : AgreeOn schema selections owner source source') (path : ResponsePath)
    (done : Entries Json) :
    runAll schema selections owner source path done = runAll schema selections owner source'
      path done := by
  -- induction on the selections and on those below each of them; below, the sources are other
  -- objects of other types, so both hypotheses are for all of them
  induction selections using Selection.induct generalizing owner source source' path done with
  | nil => rfl
  | cons selection rest ihBelow ihRest =>
      cases h with
      | selected hfields =>
          have hrest : AgreeOn schema rest owner source source' :=
            .selected fun other hother => hfields other (List.mem_cons_of_mem _ hother)
          have hone := runOne_of_agree
            (fun inner element element' path done hsources => ihBelow hsources path done)
            (hfields selection List.mem_cons_self) (path ++ [selection.responseKey])
          rw [runAll, runAll, hone]
          split
          · rfl
          · exact ihRest hrest path _

/-! ### Objects that differ in other keys -/

/-- Every value agrees with itself if every source does. -/
theorem agree_self (hsources : ∀ owner source, AgreeOn schema children owner source source)
    (type : TypeRef) (value : Json) : Agree schema children type value value := by
  induction type generalizing value with
  | scalar type => exact .scalar
  | json => exact .json
  | nonNull inner ih => exact .nonNull (ih value)
  | named name =>
      by_cases hvalue : value = .null
      · subst hvalue
        exact .noObject
      · exact .object hvalue hvalue (hsources _ value)
  | list item size ih =>
      by_cases hvalue : value = .null
      · subst hvalue
        exact .noList
      · refine .list hvalue hvalue rfl ?_
        intro index element element' helement helement'
        obtain rfl := Option.some.inj (helement.symm.trans helement')
        exact ih element

theorem agreeAt_self (hsources : ∀ owner source, AgreeOn schema children owner source source)
    (field : Field) (source : Json) : AgreeAt schema children field source source := by
  cases hread : field.reader.read source with
  | ok value => exact .read hread hread (agree_self hsources field.type value)
  | error error => exact .unread hread hread

/-- Every source agrees with itself. -/
theorem agreeOn_self (selections : List Selection) (owner : NamedType) (source : Json) :
    AgreeOn schema selections owner source source := by
  induction selections using Selection.induct generalizing owner source with
  | nil => exact .selected fun selection hselection => absurd hselection List.not_mem_nil
  | cons selection rest ihBelow ihRest =>
      refine .selected ?_
      intro other hother field hordinary hfield
      rcases List.mem_cons.mp hother with rfl | hother
      · exact agreeAt_self ihBelow field source
      · cases ihRest owner source with
        | selected hrest => exact hrest other hother field hordinary hfield

/-- Objects that hold the same under the keys that the selected fields read agree. -/
theorem agreeOn_of_overlooks {selections : List Selection} {owner : NamedType}
    {entries entries' : Entries Json}
    (h : ∀ selection ∈ selections, ∀ field, owner.field? selection.name = some field →
      field.reader.Overlooks entries entries') :
    AgreeOn schema selections owner (.obj entries) (.obj entries') := by
  refine .selected ?_
  intro selection hselection field _ hfield
  obtain ⟨value, hvalue, hvalue'⟩ := (h selection hselection field hfield).read_eq
  exact .read hvalue hvalue'
    (agree_self (fun owner source => agreeOn_self selection.children owner source) field.type value)

/-- The outcome of selections is the same for sources that agree on what they
select, and so is that of an operation for values that agree at its root. In
particular keys that no selected field reads do not matter, whatever an object
holds under them. -/
theorem outcome_eq_of_agree (schema : Schema) :
    (∀ selections owner source source' path done,
      AgreeOn schema selections owner source source' →
      runAll schema selections owner source path done =
        runAll schema selections owner source' path done) ∧
    (∀ operation data data', (∀ root, rootOf schema operation.kind = .ok root →
        AgreeOn schema operation.selections root data data') →
      runOperation schema data operation = runOperation schema data' operation) ∧
    ∀ selections owner entries entries' path done,
      (∀ selection ∈ selections, ∀ field, owner.field? selection.name = some field →
        field.reader.Overlooks entries entries') →
      runAll schema selections owner (.obj entries) path done =
        runAll schema selections owner (.obj entries') path done := by
  refine ⟨?_, ?_, ?_⟩
  · intro selections owner source source' path done hagree
    exact runAll_of_agree selections hagree path done
  · intro operation data data' hagree
    unfold runOperation
    cases hroot : rootOf schema operation.kind with
    | error error => rfl
    | ok root => exact runAll_of_agree operation.selections (hagree root hroot) [] []
  · intro selections owner entries entries' path done hsame
    exact runAll_of_agree selections (agreeOn_of_overlooks hsame) path done

/-- Rows with an object inside. -/
def rows : Json :=
  .arr [.obj [("id", .int 1), ("o", .obj [("x", .int 1), ("y", .int 2)])]]

/-- Rows that hold the same under `x` of `o`, and something else under all other
keys. -/
def otherRows : Json :=
  .arr [.obj [("o", .obj [("y", .str "b"), ("x", .int 1)]), ("id", .str "a"),
    ("new", .arr [.null])]]

/-- The selections `items { o { x } }` and `_count`. -/
def rowSelections : List Selection :=
  [⟨"items", none, [], [⟨"o", none, [], [⟨"x", none, [], []⟩]⟩]⟩,
    ⟨"_count", none, [], []⟩]

/-- The type of the rows and that of the objects inside. -/
def rowTypes : Registry :=
  [("GET_Item", ⟨"GET_Item", [Inference.typedField "id" "id" (.scalar .int),
      Inference.typedField "o" "o" (.named "GET_Item_o")], false⟩),
    ("GET_Item_o", ⟨"GET_Item_o", [Inference.typedField "x" "x" (.scalar .int),
      Inference.typedField "y" "y" (.scalar .int)], false⟩)]

/-- The root of the rows. -/
def rowRoot : NamedType :=
  Schema.queryType [Schema.itemsField (.list (.named "GET_Item") (some 50)), Schema.countField]

theorem agreeOn_rows {schema : Schema} (h : schema.types = rowTypes ++ [("Query", rowRoot)]) :
    AgreeOn schema rowSelections rowRoot rows otherRows := by
  have hrow : schema.typeNamed "GET_Item" = rowTypes.typeNamed "GET_Item" := by
    rw [Schema.typeNamed, h]
    rfl
  have hinner : schema.typeNamed "GET_Item_o" = rowTypes.typeNamed "GET_Item_o" := by
    rw [Schema.typeNamed, h]
    rfl
  have harray : ∀ items, Json.arr items ≠ .null := by
    intro items h
    cases h
  have hobject : ∀ entries, Json.obj entries ≠ .null := by
    intro entries h
    cases h
  -- the two selections at the root, then the row, the object inside it and its leaf
  refine .selected ?_
  intro selection hselection field _ hfield
  simp only [rowSelections, List.mem_cons, List.not_mem_nil, or_false] at hselection
  rcases hselection with rfl | rfl
  · obtain rfl := Option.some.inj hfield
    refine .read rfl rfl (.list (harray _) (harray _) rfl ?_)
    intro index element element' helement helement'
    cases index with
    | succ index => cases helement
    | zero =>
        obtain rfl := Option.some.inj helement
        obtain rfl := Option.some.inj helement'
        refine .object (hobject _) (hobject _) (.selected ?_)
        intro below hbelow field _ hfield
        rw [hrow] at hfield
        obtain rfl := List.mem_singleton.mp hbelow
        obtain rfl := Option.some.inj hfield
        refine .read rfl rfl (.object (hobject _) (hobject _) (.selected ?_))
        intro leaf hleaf field _ hfield
        rw [hinner] at hfield
        obtain rfl := List.mem_singleton.mp hleaf
        obtain rfl := Option.some.inj hfield
        exact .read rfl rfl .scalar
  · obtain rfl := Option.some.inj hfield
    exact .read rfl rfl .scalar

/-- The rows have the same result for a query of what they share. -/
theorem outcome_eq_of_agree_rows : ∃ schema, Schema.build {} rows "GET" "/" none = .ok schema ∧
    (∀ root, rootOf schema .query = .ok root →
      AgreeOn schema rowSelections root rows otherRows) ∧
    runOperation schema rows ⟨.query, none, rowSelections⟩ =
      runOperation schema otherRows ⟨.query, none, rowSelections⟩ := by
  have hbuilt : (match Schema.build {} rows "GET" "/" none with
      | .ok schema =>
          decide (schema.types = rowTypes ++ [("Query", rowRoot)] ∧ schema.query = rowRoot)
      | .error _ => false) = true := by
    decide +kernel
  split at hbuilt
  · next schema hschema =>
      obtain ⟨htypes, hquery⟩ := of_decide_eq_true hbuilt
      have hagree : ∀ root, rootOf schema .query = .ok root →
          AgreeOn schema rowSelections root rows otherRows := by
        intro root hroot
        obtain rfl := Except.ok.inj hroot
        rw [hquery]
        exact agreeOn_rows htypes
      exact ⟨schema, hschema, hagree,
        (outcome_eq_of_agree schema).2.1 ⟨.query, none, rowSelections⟩ rows otherRows hagree⟩
  · cases hbuilt

end Execution

end JsonSelection
