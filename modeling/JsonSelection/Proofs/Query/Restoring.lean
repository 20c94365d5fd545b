import JsonSelection.Proofs.Query.Running
import JsonSelection.Proofs.Schema.Plain

/-!
# Results under their original keys

The query that selects every field of a schema shows all of an object without
arrays, and its result can be put back under the original keys. This gives the
object again wherever the types of the schema describe the object, and nowhere
else.

## What this module delivers

- `SelectsAll`: the selections of all fields of a type, at any depth.
- `restore`: a result with every field of an object under the key that it reads.
- `Json.Same`: equality up to integral numbers, placeholders of empty objects,
  and the order of keys.
- `Registry.Describes`: a type says of a value what can be shown of it.
- `Restores`: what is shown for a type gives the value again if and only if the
  type describes the value; there is a lemma for leaves, for `null` and for
  objects.

Arrays are left out, since a list shows a page only.
-/

set_option autoImplicit false

namespace JsonSelection

namespace Json

/-- A value that is shown for another one: the same value, the integer that a
number is equal to, or the placeholder of an empty object; in objects the order
of the keys does not matter. -/
inductive Same : Json → Json → Prop where
  | refl (value : Json) : Same value value
  | integral {n : Int} {x : Float} : (Binary64.ofFloat x).toInt? = some n →
      Same (.int n) (.float x)
  | placeholder : Same (.obj [("_empty", .null)]) (.obj [])
  | object {shown entries : List (String × Json)} :
      (∀ key, Entries.has shown key = Entries.has entries key) →
      (∀ key value value', Entries.find? shown key = some value →
        Entries.find? entries key = some value' → Same value value') →
      Same (.obj shown) (.obj entries)

theorem same_null_iff (value : Json) : Same .null value ↔ value = .null := by
  constructor
  · intro h
    cases h
    rfl
  · rintro rfl
    exact .refl .null

/-- The ways in which an object is shown. -/
theorem Same.of_obj {shown : List (String × Json)} {value : Json} (h : Same (.obj shown) value) :
    ∃ entries, value = .obj entries ∧ (shown = [("_empty", .null)] ∧ entries = [] ∨
      (∀ key, Entries.has shown key = Entries.has entries key) ∧
      ∀ key value value', Entries.find? shown key = some value →
        Entries.find? entries key = some value' → Same value value') := by
  cases h with
  | refl =>
      refine ⟨shown, rfl, Or.inr ⟨fun _ => rfl, ?_⟩⟩
      intro key value value' hvalue hvalue'
      rw [hvalue] at hvalue'
      obtain rfl := Option.some.inj hvalue'
      exact .refl value
  | placeholder => exact ⟨[], rfl, Or.inl ⟨rfl, rfl⟩⟩
  | @object _ entries hhas hsame => exact ⟨entries, rfl, Or.inr ⟨hhas, hsame⟩⟩

end Json

/-- The selections of all fields of a type, with selections of their own for
exactly the fields that have an object type inside. -/
inductive SelectsAll (types : Registry) : List Field → List Selection → Prop where
  | nil : SelectsAll types [] []
  | leaf {field : Field} {fields : List Field} {selections : List Selection} :
      field.type.namedInside? = none → SelectsAll types fields selections →
        SelectsAll types (field :: fields) (⟨field.name, none, [], []⟩ :: selections)
  | node {field : Field} {inner : String} {fields : List Field}
      {children selections : List Selection} :
      field.type.namedInside? = some inner →
        SelectsAll types (types.typeNamed inner).fields children →
        SelectsAll types fields selections →
        SelectsAll types (field :: fields) (⟨field.name, none, [], children⟩ :: selections)

mutual

/-- A value shown for a type, with every field of an object under the key that
it shows. -/
def restore (types : Registry) (type : TypeRef) : Json → Json
  | .obj entries =>
      match type with
      | .named name => .obj (restoreEntries types (types.typeNamed name) entries)
      | _ => .obj entries
  | value => value

/-- The fields shown for a type, each under the key that it shows. Names are
turned back into keys by this. -/
def restoreEntries (types : Registry) (type : NamedType) : List (String × Json) →
    List (String × Json)
  | [] => []
  | (name, value) :: rest =>
      match type.field? name with
      | some field =>
          (field.label, restore types field.type value) :: restoreEntries types type rest
      | none => (name, value) :: restoreEntries types type rest

end

/-- A type says of a value what can be shown of it: the scalar type shows the
value itself, and an object type has one field for each key, which reads the
value there and describes it. The type of an empty object has the placeholder
only. -/
inductive Registry.Describes (types : Registry) : TypeRef → Json → Prop where
  | scalar {type : Scalar} {value : Json} :
      Json.Same (type.serialize value) value → Describes types (.scalar type) value
  | json {value : Json} : Describes types .json value
  | null {name : String} : Describes types (.named name) .null
  | empty {name : String} :
      (types.typeNamed name).labels = ["_empty"] → Describes types (.named name) (.obj [])
  | object {name : String} {entries : List (String × Json)} :
      (∀ key, key ∈ (types.typeNamed name).labels ↔ Entries.has entries key = true) →
      (∀ field ∈ (types.typeNamed name).fields, ∀ value,
        Entries.find? entries field.label = some value →
          field.reader.read (.obj entries) = .ok value) →
      (∀ field ∈ (types.typeNamed name).fields, ∀ value,
        Entries.find? entries field.label = some value → Describes types field.type value) →
      Describes types (.named name) (.obj entries)

/-- Only the fields of an object type say something of a value. -/
theorem Registry.Describes.rename {types : Registry} {name other : String} {value : Json}
    (h : types.Describes (.named name) value)
    (hfields : (types.typeNamed other).fields = (types.typeNamed name).fields) :
    types.Describes (.named other) value := by
  have hlabels : (types.typeNamed other).labels = (types.typeNamed name).labels := by
    rw [NamedType.labels, hfields]
    rfl
  cases h with
  | null => exact .null
  | empty hempty => exact .empty (hlabels.trans hempty)
  | object hkeys hreads hdescribes =>
      rw [← hlabels] at hkeys
      rw [← hfields] at hreads hdescribes
      exact .object hkeys hreads hdescribes

/-- What is shown for a type gives the value again if and only if the type
describes the value. -/
structure Restores (types : Registry) (type : TypeRef) (value shown : Json) : Prop where
  same_iff : Json.Same (restore types type shown) value ↔ types.Describes type value
  null : value = .null → shown = .null

namespace Field

/-- What is shown of a field restores the value that the field reads. -/
def Restored (types : Registry) (source : Json) (field : Field) (shown : Json) : Prop :=
  ∃ value, field.reader.read source = .ok value ∧ Restores types field.type value shown

theorem label_of_member {field : Field} {key : String} (h : field.reader = .member key) :
    field.label = key := by
  rw [label, h]
  rfl

/-- A plain field can be read from every source. -/
theorem Plain.readable {types : Registry} {owner : String} {field : Field}
    (h : field.Plain types owner) (source : Json) :
    ∃ value, field.reader.read source = .ok value := by
  rcases h.reads with rfl | ⟨key, hkey⟩
  · exact ⟨.null, rfl⟩
  · exact ⟨_, by rw [hkey]; rfl⟩

end Field

/-! ### Single values -/

/-- A value without an object type inside is shown as its type has it. -/
theorem restores_leaf {types : Registry} {place : String} {type : TypeRef}
    (h : type.PlainAt types place) (hleaf : type.namedInside? = none)
    (object : String → Json → Execution.Outcome Json) (value : Json)
    (page : Option PageWindow) :
    ∃ shown, Execution.complete object type value page = .ok shown ∧
      Restores types type value shown := by
  cases h with
  | scalar type =>
      refine ⟨type.serialize value, rfl, ?_, ?_⟩
      -- nothing is renamed in a scalar
      · have hrestore : restore types (.scalar type) (type.serialize value) =
            type.serialize value := by
          cases type.serialize value <;> simp [restore]
        rw [hrestore]
        constructor
        · exact .scalar
        · intro hdescribes
          cases hdescribes with
          | scalar hsame => exact hsame
      · rintro rfl
        cases type <;> rfl
  | json =>
      refine ⟨value, rfl, ?_, id⟩
      have hrestore : restore types .json value = value := by
        cases value <;> simp [restore]
      rw [hrestore]
      exact ⟨fun _ => .json, fun _ => .refl value⟩
  | object _ => cases hleaf

theorem restores_null (types : Registry) (name : String) :
    Restores types (.named name) .null .null := by
  refine ⟨?_, fun _ => rfl⟩
  rw [restore]
  · exact ⟨fun _ => .null, fun _ => .refl .null⟩
  · intro entries h
    cases h

/-! ### Objects

An object is put together field by field. A field under another key, a key
without a field, or a field that does not describe its value makes the result
another object. -/

section Object

variable {types : Registry} {name owner : String} {result : Field → Json}

/-- The fields that are shown for a type are put under the keys that they show. -/
theorem restoreEntries_map {type : NamedType} {fields : List Field}
    (h : ∀ field ∈ fields, type.field? field.name = some field) :
    restoreEntries types type (fields.map fun field => (field.name, result field)) =
      fields.map fun field => (field.label, restore types field.type (result field)) := by
  induction fields with
  | nil => rfl
  | cons field rest ih =>
      rw [List.map_cons, restoreEntries, h field List.mem_cons_self, List.map_cons]
      simp only [ih fun other hother => h other (List.mem_cons_of_mem _ hother)]

/-- A field of an object reads what stands under the key that it shows, if the
field gives it again. -/
theorem reads_label {field : Field} (hplain : field.Plain types owner)
    {entries : List (String × Json)} {value shown : Json}
    (hrestored : field.Restored types (.obj entries) shown)
    (hvalue : Entries.find? entries field.label = some value)
    (hsame : Json.Same (restore types field.type shown) value) :
    field.reader.read (.obj entries) = .ok value := by
  rcases hplain.reads with rfl | ⟨key, hkey⟩
  · obtain ⟨read, hread, hrestores⟩ := hrestored
    obtain rfl := Except.ok.inj hread
    have hnull : restore types Inference.emptyField.type shown = .null := by
      rw [hrestores.null rfl, restore]
      intro entries h
      cases h
    rw [hnull, Json.same_null_iff] at hsame
    rw [hsame]
    rfl
  · rw [Field.label_of_member hkey] at hvalue
    have hmember : Json.member? (.obj entries) key = some value := hvalue
    rw [hkey, Reader.read, hmember]
    rfl

/-- Of an empty object every field shows nothing. -/
theorem shown_of_empty {field : Field} (hplain : field.Plain types owner) {shown : Json}
    (hrestored : field.Restored types (.obj []) shown) :
    restore types field.type shown = .null := by
  obtain ⟨value, hread, hrestores⟩ := hrestored
  have hnull : value = .null := by
    rcases hplain.reads with rfl | ⟨key, hkey⟩
    · exact (Except.ok.inj hread).symm
    · rw [hkey] at hread
      exact (Except.ok.inj hread).symm
  rw [hrestores.null hnull, restore]
  intro entries h
  cases h

/-- The result for a type has a key exactly when the type shows it. -/
theorem has_shown_iff (types : Registry) (result : Field → Json) (type : NamedType)
    (key : String) :
    Entries.has (type.fields.map fun field =>
      (field.label, restore types field.type (result field))) key = true ↔
      key ∈ type.labels := by
  rw [Entries.has_iff_mem_keys, Entries.keys_map]
  rfl

/-- The labels of a plain type are its own, so each field is found under its label. -/
theorem find?_shown (hplain : (types.typeNamed name).Plain types owner) {field : Field}
    (hfield : field ∈ (types.typeNamed name).fields) :
    Entries.find? ((types.typeNamed name).fields.map fun field =>
      (field.label, restore types field.type (result field))) field.label =
        some (restore types field.type (result field)) :=
  Entries.find?_map_of_mem hplain.distinct _ hfield

/-- A type that gives an object again describes it. -/
theorem describes_of_same (hplain : (types.typeNamed name).Plain types owner) {source : Json}
    (h : ∀ field ∈ (types.typeNamed name).fields, field.Restored types source (result field))
    (hsame : Json.Same (.obj ((types.typeNamed name).fields.map fun field =>
      (field.label, restore types field.type (result field)))) source) :
    types.Describes (.named name) source := by
  obtain ⟨entries, rfl, hcases⟩ := hsame.of_obj
  -- the placeholder is shown for an empty object only
  rcases hcases with ⟨hplaceholder, rfl⟩ | ⟨hhas, hsame⟩
  · refine .empty ?_
    have hlabels := congrArg Entries.keys hplaceholder
    rw [Entries.keys_map] at hlabels
    exact hlabels
  · have hreads : ∀ field ∈ (types.typeNamed name).fields, ∀ value,
        Entries.find? entries field.label = some value →
          field.reader.read (.obj entries) = .ok value :=
      fun field hfield value hvalue =>
        reads_label (hplain.fields field hfield) (h field hfield) hvalue
          (hsame _ _ _ (find?_shown hplain hfield) hvalue)
    refine .object (fun key => ?_) hreads fun field hfield value hvalue => ?_
    · rw [← has_shown_iff types result, hhas]
    · obtain ⟨read, hread, hrestores⟩ := h field hfield
      rw [hreads field hfield value hvalue] at hread
      obtain rfl := Except.ok.inj hread
      exact hrestores.same_iff.mp (hsame _ _ _ (find?_shown hplain hfield) hvalue)

/-- A type that describes an object gives it again. -/
theorem same_of_describes (hplain : (types.typeNamed name).Plain types owner) {source : Json}
    (hsource : source ≠ .null)
    (h : ∀ field ∈ (types.typeNamed name).fields, field.Restored types source (result field))
    (hdescribes : types.Describes (.named name) source) :
    Json.Same (.obj ((types.typeNamed name).fields.map fun field =>
      (field.label, restore types field.type (result field)))) source := by
  cases hdescribes with
  | null => exact absurd rfl hsource
  -- the type of an empty object has one field, which shows nothing
  | empty hlabels =>
      obtain ⟨field, hfields, hlabel⟩ := List.map_eq_singleton_iff.mp hlabels
      have hfield : field ∈ (types.typeNamed name).fields := by
        rw [hfields]
        exact List.mem_singleton_self field
      rw [hfields, List.map_singleton, hlabel,
        shown_of_empty (hplain.fields field hfield) (h field hfield)]
      exact .placeholder
  | @object _ entries hlabels hreads hdescribes =>
      refine .object (fun key => ?_) fun key value value' hvalue hvalue' => ?_
      · rw [Bool.eq_iff_iff, has_shown_iff, hlabels]
      · have hlabel : key ∈ (types.typeNamed name).labels := by
          refine (has_shown_iff types result _ key).mp ?_
          rw [Entries.has, hvalue]
          rfl
        obtain ⟨field, hfield, rfl⟩ := List.mem_map.mp hlabel
        rw [find?_shown hplain hfield] at hvalue
        obtain rfl := Option.some.inj hvalue
        obtain ⟨read, hread, hrestores⟩ := h field hfield
        rw [hreads field hfield value' hvalue'] at hread
        obtain rfl := Except.ok.inj hread
        exact hrestores.same_iff.mpr (hdescribes field hfield _ hvalue')

/-- An object type whose fields show what they read gives an object again
exactly when it describes the object. -/
theorem restores_object (hplain : (types.typeNamed name).Plain types owner)
    (hfind : ∀ field ∈ (types.typeNamed name).fields,
      (types.typeNamed name).field? field.name = some field) {source : Json}
        (hsource : source ≠ .null)
    (h : ∀ field ∈ (types.typeNamed name).fields, field.Restored types source (result field)) :
    Restores types (.named name) source
      (.obj ((types.typeNamed name).fields.map fun field => (field.name, result field))) := by
  refine ⟨?_, fun hnull => absurd hnull hsource⟩
  rw [restore, restoreEntries_map hfind]
  exact ⟨describes_of_same hplain h, same_of_describes hplain hsource h⟩

end Object

end JsonSelection
