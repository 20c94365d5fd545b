import JsonSelection.Proofs.Sample
import JsonSelection.Proofs.Schema.Outline
import JsonSelection.Proofs.Schema.Output

/-!
# Types of values without arrays

The types inferred from a value without arrays are plain: each field is a
scalar, raw JSON, or the object type whose name is that of its owner and its own
name (`TypeRef.PlainAt`). No field then has a page, and no result is cut off.

Objects at different places may share a name, and then they share a type, which
changes nothing in this. It is a fact about names and not about what stands
under them.
-/

set_option autoImplicit false

namespace JsonSelection

namespace Json

mutual

/-- There is no array in the value. -/
def ArrayFree : Json → Prop
  | arr _ => False
  | obj entries => EntriesArrayFree entries
  | _ => True

/-- There is no array in the value of any entry. -/
def EntriesArrayFree : List (String × Json) → Prop
  | [] => True
  | (_, value) :: rest => value.ArrayFree ∧ EntriesArrayFree rest

end

theorem entriesArrayFree_iff (entries : List (String × Json)) :
    EntriesArrayFree entries ↔ ∀ entry ∈ entries, entry.2.ArrayFree := by
  induction entries with
  | nil => simp [EntriesArrayFree]
  | cons entry rest ih =>
      obtain ⟨key, value⟩ := entry
      simp [EntriesArrayFree, ih]

end Json

namespace TypeRef

/-- A scalar, raw JSON, or the registered object type of a place. The only
object type that can stand at a place is the one of its name. -/
inductive PlainAt (types : Registry) (place : String) : TypeRef → Prop where
  | scalar (type : Scalar) : PlainAt types place (.scalar type)
  | json : PlainAt types place .json
  | object : types.has place = true → PlainAt types place (.named place)

theorem PlainAt.mono {types types' : Registry} {place : String} {type : TypeRef}
    (h : type.PlainAt types place) (hhas : types.has place = true → types'.has place = true) :
    type.PlainAt types' place := by
  cases h with
  | scalar type => exact .scalar type
  | json => exact .json
  | object hplace => exact .object (hhas hplace)

end TypeRef

namespace Field

/-- The key that a field shows in its object; a field that reads no key stands
under its own name. -/
def label (field : Field) : String :=
  field.reader.key?.getD field.name

theorem MadeFor.map_label {used keys : List String} {fields : List Field}
    (h : MadeFor used keys fields) : fields.map label = keys := by
  have hreaders := congrArg (List.map Reader.key?) h.readers
  rw [List.map_map, List.map_map] at hreaders
  refine (List.map_inj_right fun _ _ => Option.some.inj).mp (Eq.trans ?_ hreaders)
  rw [List.map_map]
  refine List.map_congr_left fun field hfield => ?_
  obtain ⟨key, -, hreader⟩ := h.exists_key hfield
  rw [Function.comp_apply, Function.comp_apply, label, hreader]
  rfl

/-- A field that reads one key of its object or stands for an empty one, of a
plain type. -/
structure Plain (types : Registry) (owner : String) (field : Field) : Prop where
  reads : field = Inference.emptyField ∨ ∃ key, field.reader = .member key
  type : field.type.PlainAt types (owner ++ "_" ++ field.name)

theorem Plain.mono {types types' : Registry} {owner : String} {field : Field}
    (h : field.Plain types owner) (hhas : ∀ name, types.has name = true →
      types'.has name = true) :
    field.Plain types' owner :=
  ⟨h.reads, h.type.mono (hhas _)⟩

end Field

namespace NamedType

/-- The keys that the fields of a type show. The field of an empty object shows
its own name. -/
def labels (type : NamedType) : List String :=
  type.fields.map Field.label

/-- A type with at least one field, no two for one key, all of them plain. -/
structure Plain (types : Registry) (owner : String) (type : NamedType) : Prop where
  nonempty : type.fields ≠ []
  distinct : type.labels.Nodup
  fields : ∀ field ∈ type.fields, field.Plain types owner

theorem Plain.mono {types types' : Registry} {owner : String} {type : NamedType}
    (h : type.Plain types owner) (hhas : ∀ name, types.has name = true →
      types'.has name = true) :
    type.Plain types' owner :=
  ⟨h.nonempty, h.distinct, fun field hfield => (h.fields field hfield).mono hhas⟩

end NamedType

namespace Registry

/-- All registered types are plain. -/
def Plain (types : Registry) : Prop :=
  ∀ name type, Entries.find? types name = some type → type.Plain types name

end Registry

/-! ### Types that are formed by a walk

The walk over the values of some kind only meets values of that kind, if the
kind is closed under going down. Values without arrays and without repeated keys
are such a kind. -/

/-- What is known of a walk that meets no arrays and no object with two entries
of one key. -/
structure Walk.ArrayFree (walk : Walk) : Prop where
  output : walk.isInput = false
  unpaged : ∀ page, ¬ walk.pages page
  keys : ∀ keys, walk.keys keys → keys ≠ [] ∧ keys.Nodup

section Formed

variable {walk : Walk} {names : String → Prop} {types : Registry} {place owner : String}

/-- Without arrays a type is a scalar, raw JSON, or the object type of its place. -/
theorem TypeRef.FormedAt.plainAt {type : TypeRef} (h : type.FormedAt walk names place)
    (hwalk : walk.ArrayFree) (hnames : ∀ name, names name → types.has name = true) :
    type.PlainAt types place := by
  cases h with
  | scalar place type => exact .scalar type
  | json place => exact .json
  | list hpage _ => exact (hwalk.unpaged _ hpage).elim
  | named htitled hname =>
      rcases htitled with rfl | ⟨hinput, -⟩
      · exact .object (hnames _ hname)
      · rw [hwalk.output] at hinput
        cases hinput
  | nonNull hinput _ =>
      rw [hwalk.output] at hinput
      cases hinput

theorem NamedType.Formed.plain {type : NamedType} (h : type.Formed walk names owner)
    (hwalk : walk.ArrayFree) (hnames : ∀ name, names name → types.has name = true) :
    type.Plain types owner := by
  have hplain : ∀ field ∈ type.fields, field.type.PlainAt types (owner ++ "_" ++ field.name) :=
    fun field hfield => (h.fields field hfield).type.plainAt hwalk hnames
  rcases h.made with ⟨keys, hkeys, hmade⟩ | ⟨-, hempty⟩
  · obtain ⟨hfilled, hdistinct⟩ := hwalk.keys keys hkeys
    -- the fields show the keys that they read
    have hlabels : type.labels = keys := by
      rw [labels, hmade.map_label]
    refine ⟨?_, hlabels ▸ hdistinct, ?_⟩
    · intro hnone
      rw [labels, hnone] at hlabels
      exact hfilled hlabels.symm
    · intro field hfield
      obtain ⟨key, -, hreader⟩ := hmade.exists_key hfield
      exact ⟨Or.inr ⟨key, hreader⟩, hplain field hfield⟩
  · refine ⟨by simp [hempty], by simp [labels, hempty], ?_⟩
    intro field hfield
    refine ⟨Or.inl ?_, hplain field hfield⟩
    rw [hempty] at hfield
    exact List.mem_singleton.mp hfield

end Formed

namespace Inference

theorem length_lt_join (owner name : String) : owner.length < (owner ++ "_" ++ name).length := by
  rw [String.length_append, String.length_append]
  have hunderscore : "_".length = 1 := rfl
  omega

/-- A walk does not leave the values without arrays. -/
theorem hereditary_arrayFree (limits : Limits) :
    Hereditary limits fun value => value.ArrayFree ∧ value.WellFormed where
  members := fun ⟨hfree, hformed⟩ entry hentry =>
    ⟨(Json.entriesArrayFree_iff _).mp hfree entry hentry, Json.WellFormed.value hformed hentry⟩
  items := fun ⟨hfree, _⟩ _ => hfree.elim

theorem arrayFree_overValues (limits : Limits) :
    (Walk.overValues limits fun value => value.ArrayFree ∧ value.WellFormed).ArrayFree where
  output := rfl
  unpaged := by
    rintro _ ⟨levels, items, n, ⟨hfree, -⟩, -, -⟩
    exact hfree
  keys := by
    rintro _ ⟨entries, hfilled, ⟨-, hformed⟩, rfl⟩
    exact ⟨fun hnone => hfilled (List.map_eq_nil_iff.mp hnone), hformed.1⟩

/-- Inference gives plain types for values without arrays. -/
theorem inferType_plain (limits : Limits) (levels : Nat) {value : Json} {typeName : String}
    {conflicts : List String} {types : Registry} {type : TypeRef} (hfree : value.ArrayFree)
    (hformed : value.WellFormed)
    (h : inferType limits levels value typeName conflicts [] = .ok (type, types)) :
    type.PlainAt types typeName ∧ types.Plain := by
  obtain ⟨added, hadds, htype⟩ :=
    inferType_finds (hereditary_arrayFree limits) levels ⟨hfree, hformed⟩ h
  have hwalk := arrayFree_overValues limits
  refine ⟨htype.plainAt hwalk fun _ => hadds.has_of_scope, ?_⟩
  intro name found hfind
  have hmem := Entries.mem_of_find? hfind
  rw [hadds.appended] at hmem
  exact (hadds.formed _ hmem).plain hwalk fun _ => hadds.has_of_scope

end Inference

end JsonSelection
