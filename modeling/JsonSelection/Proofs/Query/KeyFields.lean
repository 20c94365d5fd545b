import JsonSelection.Proofs.Schema.Places
import JsonSelection.Proofs.Schema.Spelling
import JsonSelection.Proofs.Schema.Suggestions
import Mathlib.Data.List.Nodup

/-!
# A field for each key

The type of an object has exactly one field for each key of the object, in
order, whatever the keys are.

## What this module delivers

- `NamedType.Exposes`: a type has one field for each of some keys, under names
  of their own of which none asks for the type of an object.
- `Execution.runAll_leaf`: the selection of a leaf shows the value that its
  field reads.
- `Execution.parse_name`: the query for a name is a selection of that name.
- `Execution.AnswersFor`: a field answers for a key. A query for its name is
  parsed, finds the field, and shows what an object holds under that key.
- `Execution.answersFor_of_object`: below the depth cap the type that is
  inferred for an object exposes its keys, and its leaves answer for them.

A field that is no leaf cannot be queried by its name alone. How a leaf shows a
value is the coercion of its scalar type (`Proofs/Query/Coercion`).
-/

set_option autoImplicit false

namespace JsonSelection

namespace FieldName

/-- No key is shown under the name that asks for the type of an object. -/
theorem typename_not_mem_assign (used keys : List String) :
    Execution.typeNameField ∉ assign used keys := by
  induction keys generalizing used with
  | nil => exact List.not_mem_nil
  | cons key rest ih =>
      rw [assign, List.mem_cons, not_or]
      exact ⟨fun heq => fresh_sanitize_ne_typename used key heq.symm, ih _⟩

end FieldName

namespace NamedType

/-- A type that exposes some keys: it has one field for each of them, in order,
under names of their own of which none asks for the type of an object. -/
structure Exposes (type : NamedType) (keys : List String) : Prop where
  readers : type.fields.map Field.reader = keys.map Reader.member
  distinct : type.fieldNames.Nodup
  ordinary : Execution.typeNameField ∉ type.fieldNames

theorem exposes_of_madeFor {type : NamedType} {keys : List String}
    (h : Field.MadeFor [] keys type.fields) : type.Exposes keys := by
  refine ⟨h.readers, ?_, ?_⟩
  · rw [fieldNames, h.names]
    exact (FieldName.assign_spec [] keys).1
  · rw [fieldNames, h.names]
    exact FieldName.typename_not_mem_assign [] keys

/-- Distinct keys are read by one field each. -/
theorem Exposes.existsUnique {type : NamedType} {keys : List String} (h : type.Exposes keys)
    (hkeys : keys.Nodup) {key : String} (hkey : key ∈ keys) :
    ∃! field, field ∈ type.fields ∧ field.reader = .member key := by
  have hreaders : (type.fields.map Field.reader).Nodup := by
    rw [h.readers]
    exact hkeys.map fun first second heq => Reader.member.inj heq
  have hmem : Reader.member key ∈ type.fields.map Field.reader := by
    rw [h.readers]
    exact List.mem_map_of_mem hkey
  obtain ⟨field, hfield, hreader⟩ := List.mem_map.mp hmem
  refine ⟨field, ⟨hfield, hreader⟩, ?_⟩
  rintro other ⟨hother, heq⟩
  exact List.inj_on_of_nodup_map hreaders hother hfield (heq.trans hreader.symm)

end NamedType

namespace Execution

/-! ### Selecting a leaf -/

/-- What a field of a scalar or raw JSON type shows for a value: the value as
the scalar type has it, or the value itself. -/
def shown (type : TypeRef) (value : Json) : Json :=
  match type.nullable with
  | .scalar type => type.serialize value
  | _ => value

theorem complete_leaf {type : TypeRef} (h : type.isLeaf = true)
    (object : String → Json → Outcome Json) (value : Json) (page : Option PageWindow) :
    complete object type value page = .ok (shown type value) := by
  cases type with
  | scalar type => rfl
  | json => rfl
  | nonNull inner =>
      cases inner with
      | scalar type => rfl
      | json => rfl
      | _ => cases h
  | _ => cases h

theorem pageArguments_of_isLeaf {type : TypeRef} (h : type.isLeaf = true) :
    Field.pageArguments type = [] := by
  cases type with
  | list item page => cases h
  | _ => rfl

/-- The selection of a leaf shows the value that its field reads. -/
theorem runAll_leaf (schema : Schema) {type : NamedType} (hdistinct : type.fieldNames.Nodup)
    {field : Field} (hfield : field ∈ type.fields) (hordinary : field.name ≠ typeNameField)
    (hleaf : field.type.isLeaf = true) (harguments : field.arguments = []) {source value : Json}
    (hvalue : field.reader.read source = .ok value) (path : ResponsePath) :
    runAll schema [⟨field.name, none, [], []⟩] type source path [] =
      .ok [(field.name, shown field.type value)] := by
  have hpaged : Field.Paged field.arguments := by
    rw [harguments]
    exact Field.paged_nil
  have hone := runOne_eq (NamedType.field?_of_distinct hdistinct hfield) hordinary
    hpaged hvalue (checkSelection_leaf schema (TypeRef.namedInside?_of_isLeaf hleaf) field.name
      (path ++ [field.name]))
  rw [complete_leaf hleaf] at hone
  simp only [runAll, Selection.responseKey, Option.getD_none, hone]
  rfl

/-- The query for a name is parsed as a selection of that name. -/
theorem parse_name {name : String} (h : Token.IsName name) :
    Query.parse (Suggestion.braced [name]) =
      .ok ⟨.query, none, [⟨name, none, [], []⟩]⟩ := by
  have hwords : " ".intercalate [name] = " ".intercalate [name] := rfl
  rw [Suggestion.braced_eq hwords (List.cons_ne_nil _ _)]
  exact Query.parse_written (.leaf h .nil) (List.cons_ne_nil _ _) (by decide)

/-- A field answers for a key: whatever an object holds under the key is shown
when the name of the field is selected on the object, and when it is queried by
way of a schema whose root has the fields of the type. -/
structure AnswersFor (type : NamedType) (field : Field) (key : String) : Prop where
  selected : ∀ (schema : Schema) (object : Entries Json) (path : ResponsePath),
    runAll schema [⟨field.name, none, [], []⟩] type (.obj object) path [] =
      .ok [(field.name, shown field.type ((Entries.find? object key).getD .null))]
  queried : ∀ (schema : Schema) (object : Entries Json), schema.query.fields = type.fields →
    run schema (.obj object) (Suggestion.braced [field.name]) =
      .ok [(field.name, shown field.type ((Entries.find? object key).getD .null))]

/-- The leaves of a type that exposes some keys answer for them. -/
theorem answersFor_of_exposes {type : NamedType} {keys : List String} (hexposes : type.Exposes keys)
    {field : Field} (hfield : field ∈ type.fields) (hname : Token.IsName field.name)
    {key : String} (hreader : field.reader = .member key) (hleaf : field.type.isLeaf = true)
    (harguments : field.arguments = []) : AnswersFor type field key := by
  have hordinary : field.name ≠ typeNameField := by
    intro heq
    apply hexposes.ordinary
    rw [← heq]
    exact List.mem_map_of_mem hfield
  have hread : ∀ object : Entries Json, field.reader.read (.obj object) =
      .ok ((Entries.find? object key).getD .null) := by
    intro object
    rw [hreader]
    rfl
  refine ⟨?_, ?_⟩
  · intro schema object path
    exact runAll_leaf schema hexposes.distinct hfield hordinary hleaf harguments (hread object) path
  · intro schema object hquery
    -- the root may have another name, but it finds the same fields
    have hdistinct : schema.query.fieldNames.Nodup := by
      rw [NamedType.fieldNames, hquery]
      exact hexposes.distinct
    have hroot : field ∈ schema.query.fields := by
      rw [hquery]
      exact hfield
    have hall := runAll_leaf schema hdistinct hroot hordinary hleaf harguments (hread object) []
    simp only [run, parse_name hname, ofQuery, Outcome.mapError_ok, Outcome.ok_bind,
      runOperation, rootOf]
    exact hall

end Execution

namespace Inference

open Outline (Place ownFields)

/-! ### The type of an object -/

/-- Below the cap a new object type is registered with the fields of its place. -/
theorem objectType_found {limits : Limits} (hunit : limits.charsPerUnit ≠ 0) {depth : Int}
    (hdepth : depth < limits.maxDepth) (entries : Entries Json) {typeName : String}
    (conflicts : List String) {types : Registry} (hnew : types.has typeName = false) :
    ∃ levels types', inferType limits (limits.levelsFrom depth)
    (.obj entries) typeName conflicts types =
        .ok (.named typeName, types') ∧
      Entries.find? types' typeName =
        some ((⟨typeName, conflicts, levels, entries⟩ : Place).type limits) := by
  obtain ⟨levels, hlevels⟩ : ∃ levels, limits.levelsFrom depth = levels + 1 := by
    refine ⟨limits.levelsFrom depth - 1, ?_⟩
    simp only [Limits.levelsFrom]
    omega
  have hfree := (Entries.has_eq_false_iff types typeName).mp hnew
  have hcontains : ¬ (Entries.keys types).contains typeName = true :=
    fun h => hfree (List.contains_iff_mem.mp h)
  have hnone : Entries.find? types typeName = none := by
    rwa [Entries.has, Option.isSome_eq_false_iff, Option.isNone_iff_eq_none] at hnew
  -- an object type makes the places below it and registers them in order
  have hmade := objectType_eq_places (inferType_eq_places hunit levels) entries typeName
    conflicts types
  rw [hlevels, inferType]
  refine ⟨levels, _, hmade, ?_⟩
  -- the place of the object itself comes first among those that are added
  rw [Outline.places, if_neg hcontains, Entries.find?_append, hnone, Option.none_or,
    Outline.registered,
    List.map_cons, Entries.find?, if_pos rfl]

/-- The fields of a place are made for the keys of its object, and a leaf among
them takes no arguments. -/
theorem madeFor_place {limits : Limits} (hunit : limits.charsPerUnit ≠ 0) (place : Place)
    (hfilled : place.entries ≠ []) :
    Field.MadeFor [] (Entries.keys place.entries) (place.type limits).fields ∧
      ∀ field ∈ (place.type limits).fields, field.type.isLeaf = true →
      field.arguments = [] := by
  obtain ⟨typeName, conflicts, levels, entries⟩ := place
  have hfields : ((⟨typeName, conflicts, levels, entries⟩ : Place).type limits).fields =
      (Outline.fields (Outline.ofJson limits levels) typeName conflicts [] entries).1 := by
    cases entries with
    | nil => exact absurd rfl hfilled
    | cons entry rest => rfl
  rw [hfields]
  -- a key with a conflict has a field of raw values without arguments, and any other key has the
  -- arguments that its type asks for
  refine ⟨fields_madeFor (fields_eq_places (inferType_eq_places hunit levels)
    typeName conflicts []
    entries []), ?_⟩
  intro field hfield hleaf
  obtain ⟨key, value, name, -, rfl⟩ := Outline.mem_fields_iff.mp hfield
  unfold Outline.fieldOf at hleaf ⊢
  split at hleaf
  · next hconflict =>
      rw [if_pos hconflict]
      rfl
  · next hconflict =>
      rw [if_neg hconflict]
      exact Execution.pageArguments_of_isLeaf hleaf

end Inference

namespace Execution

/-- Below the cap the type that is inferred for an object exposes the keys of
the object, each by a field of its own, and its leaves answer for them: they
show what any object holds under the key. -/
theorem answersFor_of_object {limits : Limits} (hunit : limits.charsPerUnit ≠ 0) {depth : Int}
    (hdepth : depth < limits.maxDepth) {entries : Entries Json} (hfilled : entries ≠ [])
    (hdistinct : Entries.Distinct entries) {typeName : String} (conflicts : List String)
    {types : Registry} (hnew : types.has typeName = false) :
    ∃ made types',
      Inference.inferType limits (limits.levelsFrom depth) (.obj entries) typeName conflicts types =
        .ok (.named typeName, types') ∧
      Entries.find? types' typeName = some made ∧ made.Exposes (Entries.keys entries) ∧
      (∀ key ∈ Entries.keys entries, ∃! field, field ∈ made.fields ∧
        field.reader = .member key) ∧
      ∀ field ∈ made.fields, ∃ key ∈ Entries.keys entries, field.reader = .member key ∧
        (field.type.isLeaf = true → AnswersFor made field key) := by
  obtain ⟨levels, types', hmade, hfound⟩ :=
    Inference.objectType_found hunit hdepth entries conflicts hnew
  -- the place of the object is where its type is made
  obtain ⟨hmadeFor, harguments⟩ :=
    Inference.madeFor_place hunit ⟨typeName, conflicts, levels, entries⟩ hfilled
  have hexposes := NamedType.exposes_of_madeFor hmadeFor
  refine ⟨_, types', hmade, hfound, hexposes, fun key hkey =>
    hexposes.existsUnique hdistinct hkey, ?_⟩
  intro field hfield
  have hmem : field.reader ∈ (Entries.keys entries).map Reader.member := by
    rw [← hexposes.readers]
    exact List.mem_map_of_mem hfield
  obtain ⟨key, hkey, hreader⟩ := List.mem_map.mp hmem
  have hname := (NamedType.spelled_of_madeFor hmadeFor).names field hfield
  exact ⟨key, hkey, hreader.symm, fun hleaf =>
    answersFor_of_exposes hexposes hfield hname hreader.symm hleaf
      (harguments field hfield hleaf)⟩

/-- An object whose keys collide: with each other once they are made names, with
a numbered variant, and with the name for the empty key. -/
def collidingObject : Entries Json :=
  [("a.b", .int 1), ("a_b", .str "x"), ("a_b_2", .bool true), ("", .null), ("f_empty", .int 2)]

/-- The type of the object when its samples disagree under `a_b`. -/
def collidingType : NamedType :=
  ⟨"T", [Inference.typedField "a_b" "a.b" (.scalar .int), Inference.conflictField "a_b_2" "a_b",
    Inference.typedField "a_b_2_2" "a_b_2" (.scalar .boolean),
    Inference.typedField "f_empty" "" (.scalar .string),
    Inference.typedField "f_empty_2" "f_empty" (.scalar .int)], false⟩

theorem answersFor_of_object_colliding :
    (({} : Limits).charsPerUnit ≠ 0 ∧ 0 < ({} : Limits).maxDepth ∧ collidingObject ≠ [] ∧
      Entries.Distinct collidingObject ∧ Entries.has ([] : Registry) "T" = false) ∧
    Inference.inferType {} (({} : Limits).levelsFrom 0) (.obj collidingObject) "T" ["a_b"] [] =
      .ok (.named "T", [("T", collidingType)]) ∧
    collidingType.Exposes (Entries.keys collidingObject) ∧
    ∀ field ∈ collidingType.fields, ∃ key ∈ Entries.keys collidingObject,
      field.reader = .member key ∧ AnswersFor collidingType field key := by
  have hmade : Inference.inferType {} (({} : Limits).levelsFrom 0) (.obj collidingObject)
    "T" ["a_b"] [] =
      .ok (.named "T", [("T", collidingType)]) := by decide +kernel
  have hunit : ({} : Limits).charsPerUnit ≠ 0 := by decide
  have hdepth : 0 < ({} : Limits).maxDepth := by decide
  have hfilled : collidingObject ≠ [] := List.cons_ne_nil _ _
  have hdistinct : Entries.Distinct collidingObject := by
    unfold Entries.Distinct
    decide
  have hnew : Entries.has ([] : Registry) "T" = false := rfl
  obtain ⟨made, types', heq, hfound, hexposes, -, hanswers⟩ :=
    answersFor_of_object hunit hdepth hfilled hdistinct ["a_b"] hnew
  obtain ⟨-, rfl⟩ := Prod.mk.inj (Except.ok.inj (heq.symm.trans hmade))
  obtain rfl := Option.some.inj hfound
  refine ⟨⟨hunit, hdepth, hfilled, hdistinct, hnew⟩, hmade, hexposes, ?_⟩
  intro field hfield
  obtain ⟨key, hkey, hreader, hanswer⟩ := hanswers field hfield
  have hleaves : ∀ field ∈ collidingType.fields, field.type.isLeaf = true := by decide
  exact ⟨key, hkey, hreader, hanswer (hleaves field hfield)⟩

end Execution

end JsonSelection
