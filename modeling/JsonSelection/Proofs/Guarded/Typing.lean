import JsonSelection.Proofs.Guarded.Sizing
import JsonSelection.Proofs.Schema.Building
import JsonSelection.Proofs.Shape.Agreement

/-!
# Shapes and types with their partial steps guarded

A shape looks up the sorted keys of an object and takes the first element of an
array, and types rest on merged samples and page sizes. With guarded steps both
give what the plain ones give.

## What this module delivers

- `Guarded.shape_eq`: a shape is found without a fault, for values in which no
  object has a key twice.
- `Guarded.inferType_eq`, `Guarded.build_eq`: types and schemas are inferred
  with no fault but that of the costs.
- `Guarded.faultless`: with a unit of some characters no analysis of a response
  divides by zero, takes the first of no elements or misses a key, however the
  limits are chosen.

The analyses covered are those listed in `Guarded.Faultless`. Running a query is
not among them: its one partial step is an error of its own
(`ExecutionError.noLength`).
-/

set_option autoImplicit false

namespace JsonSelection

namespace Guarded

open Inference (Typed)

/-! ### Shapes -/

/-- The element whose shape stands for a list. -/
def representative (limits : Limits) (levels : Nat) (items : List Json) : Except Fault Json := do
  match ← mergeItems limits levels items with
  | some merged => return .obj merged.representative
  | none => first items

/-- The shape of a value. The values of an object are looked up by its keys,
which are sorted. -/
def shape (limits : Limits) : Nat → Json → Except Fault Shape
  | _, .null => .ok .null
  | 0, _ => .ok .opaqueJson
  | levels + 1, value =>
      match value with
      | .null => .ok .null
      | .bool _ => .ok .boolean
      | .int _ => .ok .integer
      | .float x => .ok (if (Binary64.ofFloat x).isWhole then .integer else .float)
      | .str _ => .ok .string
      | .arr items =>
          if items.isEmpty then .ok .emptyList
          else if Sample.isMixed limits items then .ok (.list .opaqueJson)
          else do
            let item ← representative limits levels items
            (shape limits levels item).map .list
      | .obj entries => do
          let sorted := (Entries.keys entries).mergeSort fun key other => decide (key ≤ other)
          let fields ← sorted.mapM fun key => do
            let value ← member entries key
            (shape limits levels value).map fun shape => (key, shape)
          return .object fields

/-- The text of the shape of a value at a depth. -/
def fingerprint (limits : Limits) (depth : Int) (value : Json) : Except Fault String :=
  (shape limits (limits.levelsFrom depth) value).map Shape.text

theorem representative_eq (limits : Limits) (levels : Nat) {items : List Json} (h : items ≠ []) :
    representative limits levels items = .ok (Shape.representative limits levels items) := by
  rw [representative, Shape.representative, mergeItems_eq, Outcome.ok_bind]
  cases Sample.mergeItems limits levels items with
  | some merged => rfl
  | none => exact first_eq_headD h .null

/-- A shape is found without a fault. -/
theorem shape_eq (limits : Limits) (levels : Nat) {value : Json} (h : value.WellFormed) :
    shape limits levels value = .ok (Shape.ofJson limits levels value) := by
  induction levels generalizing value with
  | zero => cases value <;> rfl
  | succ levels ih =>
      cases value with
      | arr items =>
          cases items with
          | nil => rfl
          | cons item rest =>
              have hitem := Shape.representative_wellFormed limits levels h
              have hfilled : ¬ (item :: rest).isEmpty = true := Bool.false_ne_true
              simp only [shape, Shape.ofJson]
              rw [if_neg hfilled, representative_eq limits levels (List.cons_ne_nil item rest),
                Outcome.ok_bind, ih hitem]
              split
              · rfl
              · rfl
      | obj entries =>
          have hfields : (Entries.keys (Shape.sortedEntries entries)).mapM (fun key => do
              let value ← member entries key
              (shape limits levels value).map fun shape => (key, shape)) =
              .ok ((Shape.sortedEntries entries).map fun entry =>
                (entry.1, Shape.ofJson limits levels entry.2)) := by
            rw [Entries.keys, List.mapM_map]
            apply Outcome.mapM_of_ok
            intro entry hsorted
            -- sorting moves the keys, and each of them is still a key of the object
            have hmem : entry ∈ entries := List.mem_mergeSort.mp hsorted
            have hfind := member_of_find? (Entries.find?_of_mem h.1 hmem)
            simp only [Function.comp_apply, hfind, Outcome.ok_bind, ih (h.value hmem),
              Outcome.map_ok]
          simp only [shape, Shape.ofJson, Shape.keys_sortedEntries, hfields]
          rfl
      | _ => rfl

/-! ### Types

One level of the inference is a function of the inference below it, so the
agreement is shown for one level, given that of what lies below. -/

/-- Infers the type of a value below an object or a list. -/
abbrev Child := Json → String → List String → Registry → Except Fault Typed

/-- The fields of an object type. -/
def fields (child : Child) (typeName : String) (conflicts : List String) :
    List String → Entries Json → Registry → Except Fault (List Field × Registry)
  | _, [], types => .ok ([], types)
  | used, (key, value) :: rest, types =>
      let name := FieldName.fresh used (FieldName.sanitize key)
      if conflicts.contains key then do
        let (others, types) ← fields child typeName conflicts (used ++ [name]) rest types
        return (Inference.conflictField name key :: others, types)
      else do
        let (type, types) ←
          child value (typeName ++ "_" ++ name) (Inference.conflictsBelow conflicts key) types
        let (others, types) ← fields child typeName conflicts (used ++ [name]) rest types
        return (Inference.typedField name key type :: others, types)

/-- The type of an object. -/
def objectType (child : Child) (entries : Entries Json) (typeName : String)
    (conflicts : List String) (types : Registry) : Except Fault Typed :=
  if types.has typeName then .ok (.named typeName, types)
  else
    match entries with
    | [] =>
        .ok (.named typeName, Entries.put types typeName
          ⟨typeName, [Inference.emptyField], false⟩)
    | entries => do
        let reserved := Entries.put types typeName ⟨typeName, [], false⟩
        let (fields, types) ← fields child typeName conflicts [] entries reserved
        return (.named typeName, Entries.put types typeName ⟨typeName, fields, false⟩)

/-- The type of a list. -/
def listType (limits : Limits) (levels : Nat) (child : Child) (items : List Json)
    (typeName : String) (types : Registry) : Except Fault Typed :=
  if items.isEmpty then .ok (.list .json (some limits.maxListLimit), types)
  else if Sample.isMixed limits items then .ok (.json, types)
  else do
    let merged? ← mergeItems limits levels items
    let (item, conflicts) :=
      match merged? with
      | some merged => (.obj merged.representative, merged.conflicts)
      | none => ((Sample.present items).headD .null, [])
    let (type, types) ← child item (typeName ++ "_Item") conflicts types
    let page ← pageSize limits levels items
    return (.list type (some page), types)

/-- The type of a value. -/
def inferType (limits : Limits) : Nat → Child
  | _, .null, _, _, types => .ok (.scalar .string, types)
  | 0, _, _, _, types => .ok (.json, types)
  | levels + 1, value, typeName, conflicts, types =>
      match value with
      | .arr items => listType limits levels (inferType limits levels) items typeName types
      | .obj entries => objectType (inferType limits levels) entries typeName conflicts types
      | value => .ok (.scalar (Inference.scalarType value), types)

section Child

variable {child : Inference.Child} {guarded : Child}
  (hchild : ∀ value typeName conflicts types, guarded value typeName conflicts types =
    (child value typeName conflicts types).mapError Fault.ofCost)

include hchild

theorem fields_eq (typeName : String) (conflicts used : List String) (entries : Entries Json)
    (types : Registry) :
    fields guarded typeName conflicts used entries types =
      (Inference.fields child typeName conflicts used entries types).mapError Fault.ofCost := by
  induction entries generalizing used types with
  | nil => rfl
  | cons entry rest ih =>
      obtain ⟨key, value⟩ := entry
      simp only [fields, Inference.fields]
      split
      · rw [ih, Outcome.mapError_bind]
        rfl
      · rw [hchild, Outcome.mapError_bind]
        apply bind_congr
        intro typed
        rw [ih, Outcome.mapError_bind]
        rfl

theorem objectType_eq (entries : Entries Json) (typeName : String) (conflicts : List String)
    (types : Registry) :
    objectType guarded entries typeName conflicts types =
      (Inference.objectType child entries typeName conflicts types).mapError Fault.ofCost := by
  simp only [objectType, Inference.objectType]
  split
  · rfl
  · cases entries with
    | nil => rfl
    | cons entry rest =>
        simp only [fields_eq hchild]
        rw [Outcome.mapError_bind]
        rfl

theorem listType_eq (limits : Limits) (levels : Nat) (items : List Json) (typeName : String)
    (types : Registry) :
    listType limits levels guarded items typeName types =
      (Inference.listType limits levels child items typeName types).mapError Fault.ofCost := by
  cases items with
  | nil => rfl
  | cons item rest =>
      have hfilled : ¬ (item :: rest).isEmpty = true := Bool.false_ne_true
      simp only [listType, Inference.listType]
      rw [if_neg hfilled]
      split
      · rfl
      · rw [mergeItems_eq, Outcome.ok_bind, Outcome.mapError_bind, hchild]
        apply bind_congr
        intro typed
        rw [pageSize_eq, Outcome.mapError_bind]
        rfl

end Child

/-- Inference reaches no fault but that of a unit of no characters. -/
theorem inferType_eq (limits : Limits) (levels : Nat) (value : Json) (typeName : String)
    (conflicts : List String) (types : Registry) :
    inferType limits levels value typeName conflicts types =
      (Inference.inferType limits levels value typeName conflicts types).mapError Fault.ofCost := by
  induction levels generalizing value typeName conflicts types with
  | zero => cases value <;> rfl
  | succ levels ih =>
      cases value with
      | arr items => exact listType_eq ih limits levels items typeName types
      | obj entries => exact objectType_eq ih entries typeName conflicts types
      | _ => rfl

/-! ### Schemas -/

/-- The type of the elements of a response array. -/
def itemsType (limits : Limits) (items : List Json) (baseName : String) : Except Fault Typed :=
  if !items.isEmpty && Sample.isMixed limits items then
    (pageSize limits (limits.levelsFrom 1) items).map fun page => (.list .json (some page), [])
  else inferType limits (limits.levelsFrom (-1)) (.arr items) baseName [] []

/-- The root type of a response and the types that it needs. -/
def queryRoot (limits : Limits) (data : Json) (baseName : String) :
    Except Fault (NamedType × Registry) :=
  match data with
  | .arr items =>
      (itemsType limits items baseName).map fun (type, types) =>
        (Schema.queryType [Schema.itemsField type, Schema.countField], types)
  | .obj entries =>
      (inferType limits (limits.levelsFrom 0) (.obj entries) baseName [] []).map
        fun (type, types) =>
          match type with
          | .named name => (Schema.queryType (types.typeNamed name).fields, types)
          | _ => (Schema.queryType [Schema.rawField], types)
  | _ => .ok (Schema.queryType [Schema.scalarField], [])

/-- The schema of a response to an operation without a request body. What a
request body adds can fail for reasons of its own. -/
def build (limits : Limits) (data : Json) (method path : String) : Except Fault Schema := do
  let method := Text.upper method
  let baseName := TypeName.derive method path
  let (query, types) ← queryRoot limits data baseName
  return ⟨Entries.put types "Query" query, query, none, baseName, method, path⟩

theorem queryRoot_eq (limits : Limits) (data : Json) (baseName : String) :
    queryRoot limits data baseName = (Schema.queryRoot limits data
      baseName).mapError Fault.ofCost := by
  cases data with
  | arr items =>
      have hitems : itemsType limits items baseName =
          (Schema.itemsType limits items baseName).mapError Fault.ofCost := by
        rw [itemsType, Schema.itemsType]
        split
        · rw [pageSize_eq, Outcome.mapError_map]
        · exact inferType_eq limits _ _ baseName [] []
      exact Outcome.map_of_mapError hitems _
  | obj entries =>
      have htype := inferType_eq limits (limits.levelsFrom 0) (.obj entries) baseName [] []
      exact Outcome.map_of_mapError htype _
  | _ => rfl

/-! ### No faults -/

/-- A guarded computation has a result, and it is that of the plain one. In
particular the plain one has a result, too. -/
def Agrees {ε α : Type} (guarded : Except Fault α) (plain : Except ε α) : Prop :=
  ∃ result, guarded = .ok result ∧ plain = .ok result

theorem agrees_of_mapError {α : Type} {guarded : Except Fault α} {plain : Except CostError α}
    (h : guarded = plain.mapError Fault.ofCost) (hplain : ∃ result, plain = .ok result) :
    Agrees guarded plain := by
  obtain ⟨result, hresult⟩ := hplain
  exact ⟨result, by rw [h, hresult]; rfl, hresult⟩

/-- The analyses of a response, with guarded steps, give what they give without
them. -/
structure Faultless (limits : Limits) : Prop where
  samples : ∀ levels items,
    mergeItems limits levels items = .ok (Sample.mergeItems limits levels items)
  costs : ∀ levels value, Agrees (estimate limits levels value)
    (Cost.estimate limits levels value)
  pages : ∀ levels items, Agrees (pageSize limits levels items)
    (Cost.pageSize limits levels items)
  trees : ∀ levels value,
    Agrees (ofSamples limits levels [value]) (CostNode.ofJson limits levels value)
  shapes : ∀ depth (value : Json), value.WellFormed →
    fingerprint limits depth value = .ok (Shape.fingerprint limits depth value)
  types : ∀ levels value typeName conflicts types,
    Agrees (inferType limits levels value typeName conflicts types)
      (Inference.inferType limits levels value typeName conflicts types)
  schemas : ∀ data method path,
    Agrees (build limits data method path) (Schema.build limits data method path none)

theorem build_eq (limits : Limits) (data : Json) (method path : String) {query : NamedType}
    {types : Registry}
    (h : Schema.queryRoot limits data (TypeName.derive (Text.upper method) path) =
      .ok (query, types)) :
    build limits data method path = .ok (Schema.ofRoot query types method path) := by
  simp only [build, queryRoot_eq, h, Outcome.mapError_ok, Outcome.ok_bind]
  rfl

/-- With a unit of some characters no analysis of a response divides by
zero, takes the first of no elements or misses a key, whatever the other
limits are. -/
theorem faultless {limits : Limits} (hunit : limits.charsPerUnit ≠ 0) : Faultless limits where
  samples := mergeItems_eq limits
  costs levels value :=
    agrees_of_mapError (estimate_eq limits levels value) (Cost.estimate_succeeds hunit levels value)
  pages levels items :=
    agrees_of_mapError (pageSize_eq limits levels items) (Cost.pageSize_succeeds hunit levels items)
  trees levels value :=
    agrees_of_mapError (ofSamples_eq limits levels [value])
      (CostNode.ofSamples_succeeds hunit levels [value])
  -- the fingerprint has no error of its own, so it only has to agree
  shapes depth value hvalue := by
    rw [fingerprint, shape_eq limits _ hvalue]
    rfl
  types levels value typeName conflicts types :=
    agrees_of_mapError (inferType_eq limits levels value typeName conflicts types)
      ⟨_, Inference.inferType_eq_places hunit levels value typeName conflicts types⟩
  schemas data method path := by
    have hroot := Schema.queryRoot_eq_shared hunit data (TypeName.derive (Text.upper method) path)
    exact ⟨_, build_eq limits data method path hroot, Schema.build_of_queryRoot hroot⟩

/-- Samples of no elements, taken from arrays that have some, and a budget below
zero. -/
theorem faultless_unsampled :
    let limits : Limits := { sampleSize := 0, costSampleSize := -2, itemBudget := -5 }
    let data : Json := .arr [.null, .obj [("id", .int 1), ("tags", .arr [.str "a"])]]
    limits.charsPerUnit ≠ 0 ∧ data.WellFormed ∧
      Agrees (build limits data "GET" "/rows") (Schema.build limits data "GET" "/rows" none) ∧
      fingerprint limits 0 data = .ok (Shape.fingerprint limits 0 data) := by
  intro limits data
  have hformed : data.WellFormed := by simp [data, Json.WellFormed, Json.ListWellFormed,
    Json.EntriesWellFormed, Entries.Distinct, Entries.keys]
  have hsafe : Faultless limits := faultless (by decide)
  exact ⟨by decide, hformed, hsafe.schemas data "GET" "/rows", hsafe.shapes 0 data hformed⟩

/-- In units of no characters a text reaches the one fault that is left. -/
example : estimate { charsPerUnit := 0 } 1 (.str "a") = .error .divisionByZero := rfl

end Guarded

end JsonSelection
