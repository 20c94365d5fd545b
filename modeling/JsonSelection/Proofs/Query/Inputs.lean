import JsonSelection.Proofs.Query.Fitting
import JsonSelection.Proofs.Sample
import JsonSelection.Proofs.Schema.Closed
import JsonSelection.Proofs.Schema.Spelling
import Mathlib.Data.List.Nodup

/-!
# What becomes of input objects

The fields of an input type stand for the declared properties, each for a key of
its own. An accepted object literal keeps every field that it gives, under the
key of its property, unless it gives the field of the empty key.

## What this module delivers

- `NamedType.StandsFor`: the fields of a type stand for some distinct keys, in
  order.
- `Argument.Keeps`: a checked object keeps what a literal gives.
- `Argument.keeps_iff`: everything is kept unless the field of the empty key is
  given. That one is held under its own name, where the property of that name
  may be lost.
- `Argument.Receives`: how object literals are received by an input type.
- `Argument.receives_of_body`: so it is for all input types that are made for a
  declared body.

Two fields are held under one key exactly if one of them stands for the empty
key and the other one for the key that is its name (`Argument.entryKey_eq_iff`);
the example at the end has such a pair.
-/

set_option autoImplicit false

namespace JsonSelection

/-! ### Fields and the keys they stand for -/

/-- The key of the property that an input field stands for. A field that reads
no key stands for its own name. -/
def Field.ownKey (field : Field) : String :=
  field.reader.key?.getD field.name

theorem Field.ownKey_eq {field : Field} {key : String} (h : field.reader = .member key) :
    field.ownKey = key := by
  rw [ownKey, h]
  rfl

namespace NamedType

/-- A type whose fields have names of their own and stand for some distinct
keys, in order. -/
structure StandsFor (type : NamedType) (keys : List String) : Prop where
  readers : type.fields.map Field.reader = keys.map Reader.member
  apart : keys.Nodup
  distinct : type.fieldNames.Nodup
  names : ∀ field ∈ type.fields, Token.IsName field.name

variable {type : NamedType} {keys : List String}

theorem StandsFor.reader_eq (h : type.StandsFor keys) {field : Field}
    (hfield : field ∈ type.fields) :
    field.reader = .member field.ownKey := by
  have hmem : field.reader ∈ keys.map Reader.member := by
    rw [← h.readers]
    exact List.mem_map_of_mem hfield
  obtain ⟨key, -, hreader⟩ := List.mem_map.mp hmem
  rw [Field.ownKey_eq hreader.symm, hreader]

theorem StandsFor.map_ownKey (h : type.StandsFor keys) : type.fields.map Field.ownKey = keys := by
  have hmember : (type.fields.map Field.ownKey).map Reader.member = keys.map Reader.member := by
    rw [← h.readers, List.map_map]
    exact List.map_congr_left fun field hfield => (h.reader_eq hfield).symm
  exact (List.map_injective_iff.mpr fun _ _ => Reader.member.inj) hmember

/-- Two fields stand for two keys. -/
theorem StandsFor.ownKey_injective (h : type.StandsFor keys) {field other : Field}
    (hfield : field ∈ type.fields) (hother : other ∈ type.fields)
    (heq : field.ownKey = other.ownKey) :
    field = other := by
  have hnodup : (type.fields.map Field.ownKey).Nodup := by
    rw [h.map_ownKey]
    exact h.apart
  exact List.inj_on_of_nodup_map hnodup hfield hother heq

theorem StandsFor.name_ne_empty (h : type.StandsFor keys) {field : Field}
    (hfield : field ∈ type.fields) :
    field.name ≠ "" := by
  obtain ⟨c, rest, hlist, -, -⟩ := h.names field hfield
  intro hempty
  rw [hempty] at hlist
  cases hlist

/-- A checked object holds a field under its own key, but the field of the empty
key under its name. -/
theorem StandsFor.entryKey_eq (h : type.StandsFor keys) {field : Field}
    (hfield : field ∈ type.fields) :
    Argument.entryKey field = if field.ownKey = "" then field.name else field.ownKey := by
  rw [Argument.entryKey, h.reader_eq hfield]
  simp only [Reader.key?, String.isEmpty_iff]

end NamedType

namespace Argument

/-! ### Entries of a checked object -/

theorem mem_fields_of_given {type : NamedType} {entries : Entries Json} {field : Field}
    (h : field ∈ givenFields type entries) : field ∈ type.fields :=
  (List.mem_filter.mp h).1

variable {schema : Schema} {path : ResponsePath} {type : NamedType} {keys : List String}
  {entries written : Entries Json}

theorem keys_of_checked {keyOf : Field → String} {fields : List Field}
    (h : List.Forall₂ (Checked schema entries path keyOf) fields written) :
    Entries.keys written = fields.map keyOf := by
  induction h with
  | nil => rfl
  | cons hfirst _ ih =>
      rw [Entries.keys, List.map_cons, List.map_cons, hfirst.1]
      exact congrArg _ ih

/-- Fields that are held under other keys are checked as before. -/
theorem checked_congr {keyOf keyOf' : Field → String} {fields : List Field}
    (hsame : ∀ field ∈ fields, keyOf field = keyOf' field)
    (h : List.Forall₂ (Checked schema entries path keyOf) fields written) :
    List.Forall₂ (Checked schema entries path keyOf') fields written := by
  induction h with
  | nil => exact .nil
  | cons hfirst _ ih =>
      refine .cons ⟨?_, hfirst.2⟩ (ih fun field hfield =>
        hsame field (List.mem_cons_of_mem _ hfield))
      rw [hfirst.1]
      exact hsame _ List.mem_cons_self

/-- A checked object that keeps what a literal gives: for each given field it
has an entry of its own, under the key of the property, with the checked literal
of the field. -/
structure Keeps (schema : Schema) (type : NamedType) (entries : Entries Json) (path : ResponsePath)
    (held : Entries Json) : Prop where
  distinct : Entries.Distinct held
  checked : List.Forall₂ (Checked schema entries path Field.ownKey)
    (givenFields type entries) held

theorem nodup_given (h : type.StandsFor keys) (entries : Entries Json) :
    ((givenFields type entries).map Field.ownKey).Nodup := by
  have hall : (type.fields.map Field.ownKey).Nodup := by
    rw [h.map_ownKey]
    exact h.apart
  exact hall.sublist (List.filter_sublist.map _)

/-- Everything is kept unless the field of the empty key is given. -/
theorem keeps_iff (h : type.StandsFor keys)
    (hwritten : List.Forall₂ (Checked schema entries path entryKey)
      (givenFields type entries) written) :
    Keeps schema type entries path (Entries.ofList written) ↔
      ∀ field ∈ givenFields type entries, field.ownKey ≠ "" := by
  constructor
  · -- no entry of a checked object has the empty key
    intro hkeeps field hfield hempty
    have hmem : "" ∈ Entries.keys (Entries.ofList written) := by
      rw [keys_of_checked hkeeps.checked, ← hempty]
      exact List.mem_map_of_mem hfield
    rw [Entries.keys_ofList, List.mem_eraseDups, keys_of_checked hwritten] at hmem
    obtain ⟨other, hother, hkey⟩ := List.mem_map.mp hmem
    have hother := mem_fields_of_given hother
    rw [h.entryKey_eq hother] at hkey
    split at hkey
    · exact h.name_ne_empty hother hkey
    · next hfilled => exact hfilled hkey
  · intro hfilled
    -- with the empty key left out each field is written under its own key, and these are distinct
    have hchecked := checked_congr (fun field hfield => by
      rw [h.entryKey_eq (mem_fields_of_given hfield), if_neg (hfilled field hfield)]) hwritten
    have hdistinct : Entries.Distinct written := by
      rw [Entries.Distinct, keys_of_checked hchecked]
      exact nodup_given h entries
    rw [Entries.ofList_of_distinct hdistinct]
    exact ⟨hdistinct, hchecked⟩

/-- Two fields are held under one key exactly if one of them stands for the
empty key and the other one for the key that is its name. -/
theorem entryKey_eq_iff (h : type.StandsFor keys) {field other : Field}
    (hfield : field ∈ type.fields) (hother : other ∈ type.fields) (hne : field ≠ other) :
    entryKey field = entryKey other ↔ (field.ownKey = "" ∧ other.ownKey = field.name) ∨
      (other.ownKey = "" ∧ field.ownKey = other.name) := by
  -- at most one of the two fields stands for the empty key
  have happart : field.ownKey ≠ other.ownKey :=
    fun heq => hne (h.ownKey_injective hfield hother heq)
  rw [h.entryKey_eq hfield, h.entryKey_eq hother]
  by_cases hempty : field.ownKey = ""
  · have hfilled : other.ownKey ≠ "" := fun heq => happart (hempty.trans heq.symm)
    rw [if_pos hempty, if_neg hfilled]
    constructor
    · exact fun heq => .inl ⟨hempty, heq.symm⟩
    · rintro (⟨-, heq⟩ | ⟨heq, -⟩)
      · exact heq.symm
      · exact absurd heq hfilled
  · rw [if_neg hempty]
    by_cases hother' : other.ownKey = ""
    · rw [if_pos hother']
      constructor
      · exact fun heq => .inr ⟨hother', heq⟩
      · rintro (⟨heq, -⟩ | ⟨-, heq⟩)
        · exact absurd heq hempty
        · exact heq
    · rw [if_neg hother']
      constructor
      · exact fun heq => absurd heq happart
      · rintro (⟨heq, -⟩ | ⟨heq, -⟩)
        · exact absurd heq hempty
        · exact absurd heq hother'

/-- How object literals are received by an input type. A literal is accepted
exactly if it fits, under any path. What it becomes is written by the fields
that it gives, one after the other, and keeps them all under the keys of their
properties exactly if the field of the empty key is not among them. Two fields
are written to one entry exactly if one of them stands for the empty key and the
other one for the key that is its name. -/
structure Receives (schema : Schema) (name : String) : Prop where
  accepted : ∀ (entries : Entries Json) (path : ResponsePath),
    (coerce schema (.obj entries) path (.named name)).isOk = true ↔
      Fits schema (.named name) (.obj entries)
  held : ∀ (entries : Entries Json) (path : ResponsePath) (value : Json),
    coerce schema (.obj entries) path (.named name) = .ok value →
      ∃ written, value = .obj (Entries.ofList written) ∧
        List.Forall₂ (Checked schema entries path entryKey)
          (givenFields (schema.typeNamed name) entries) written ∧
        (Keeps schema (schema.typeNamed name) entries path (Entries.ofList written) ↔
          ∀ field ∈ givenFields (schema.typeNamed name) entries, field.ownKey ≠ "")
  shared : ∀ field ∈ (schema.typeNamed name).fields,
    ∀ other ∈ (schema.typeNamed name).fields,
    field ≠ other → (entryKey field = entryKey other ↔
      (field.ownKey = "" ∧ other.ownKey = field.name) ∨
      (other.ownKey = "" ∧ field.ownKey = other.name))

theorem receives_of_standsFor {name : String} (h : (schema.typeNamed name).StandsFor keys) :
    Receives schema name := by
  refine ⟨fun entries path => isOk_coerce_iff schema (.obj entries) path (.named name), ?_, ?_⟩
  · intro entries path value hvalue
    obtain ⟨written, hwritten, rfl⟩ := coerce_object_eq_ok hvalue
    exact ⟨written, rfl, hwritten, keeps_iff h hwritten⟩
  · intro field hfield other hother hne
    exact entryKey_eq_iff h hfield hother hne

end Argument

/-! ### Types that are made for well-formed bodies

The properties of a body are distinct because no object in the body holds a key
twice. So the fields of every type made on the way stand for distinct keys. -/

theorem Json.WellFormed.member? {value inner : Json} {key : String} (h : value.WellFormed)
    (hmember : value.member? key = some inner) : inner.WellFormed := by
  cases value with
  | obj entries => exact h.value (Entries.mem_of_find? hmember)
  | _ => cases hmember

namespace Property

theorem wellFormed_nested {descriptor : Json} (h : descriptor.WellFormed) :
    (Json.obj (nested descriptor)).WellFormed := by
  have hnone : (Json.obj []).WellFormed := ⟨List.nodup_nil, trivial⟩
  rw [nested]
  cases hmember : descriptor.member? "properties" with
  | none => exact hnone
  | some value =>
      cases value with
      | obj members => exact h.member? hmember
      | _ => exact hnone

theorem wellFormed_elements {descriptor item : Json} (h : descriptor.WellFormed)
    (hitem : elements? descriptor = some item) : item.WellFormed :=
  h.member? (Option.filter_eq_some_iff.mp hitem).1

end Property

namespace InputType

open Property

variable {types : Registry}

/-- A registered input type whose fields stand for distinct keys. Distinct names
alone would not do, since a body holds keys. -/
def Keyed (types : Registry) (name : String) : Prop :=
  ∃ (fields : List Field) (keys : List String),
    Entries.find? types name = some ⟨name, fields, true⟩ ∧
    fields.map Field.reader = keys.map Reader.member ∧ keys.Nodup

theorem MirrorsAll.readers {levels : Nat} {members : List (String × Json)} {fields : List Field}
    {names : List String} : MirrorsAll types levels members fields names →
      fields.map Field.reader = (Entries.keys members).map Reader.member
  | .nil => rfl
  | .cons _ hreader _ _ _ hrest => by
      rw [List.map_cons, hreader, hrest.readers]
      rfl

mutual

/-- All input types that a well-formed descriptor leads to stand for distinct keys. -/
theorem Mirrors.keyed {levels : Nat} {descriptor : Json} {type : TypeRef} {names : List String} :
    Mirrors types levels descriptor type names → descriptor.WellFormed →
      ∀ name ∈ names, Keyed types name
  | .object _ _ hfind hall, hformed, name, h => by
      have hnested := wellFormed_nested hformed
      rcases List.mem_cons.mp h with rfl | h
      · exact ⟨_, _, hfind, hall.readers, hnested.1⟩
      · exact hall.keyed (fun member hmember => hnested.value hmember) name h
  | .array _ hitem hmirrors, hformed, name, h =>
      hmirrors.keyed (wellFormed_elements hformed hitem) name h

theorem MirrorsAll.keyed {levels : Nat} {members : List (String × Json)} {fields : List Field}
    {names : List String} : MirrorsAll types levels members fields names →
      (∀ member ∈ members, member.2.WellFormed) → ∀ name ∈ names, Keyed types name
  | .cons hmirrors _ _ _ _ hrest, hformed, name, h => by
      rcases List.mem_append.mp h with h | h
      · exact hmirrors.keyed (hformed _ List.mem_cons_self) name h
      · exact hrest.keyed (fun member hmember => hformed member (List.mem_cons_of_mem _ hmember))
          name h

end

/-- Whatever is registered after the reading of some well-formed properties was
registered before, or stands for distinct keys. -/
theorem keyed_of_ofProperties {types' : Registry} {members : List (String × Json)} {levels : Nat}
    {typeName made name : String} {type : NamedType} (hformed : (Json.obj members).WellFormed)
    (h : ofProperties (ofEntries members) levels typeName types = .ok (made, types'))
    (hfind : Entries.find? types' name = some type) :
    Entries.find? types name = some type ∨ Keyed types' name := by
  obtain ⟨fields, names, hmade, hall, htakes⟩ :=
    ofProperties_mirrored (fun member _ => mirrored _ member.2) h
  by_cases hold : name ∈ Entries.keys types
  · left
    rw [← hfind]
    exact (htakes.kept.find?_eq hold).symm
  · right
    have hmem : name ∈ Entries.keys types' := by
      rw [← Entries.has_iff_mem_keys, Entries.has, hfind]
      rfl
    rw [htakes.keys] at hmem
    -- the names that are taken are the one of the type itself and those below it
    rcases List.mem_append.mp hmem with hmem | hmem
    · exact absurd hmem hold
    · rcases List.mem_cons.mp hmem with rfl | hmem
      · exact ⟨_, _, hmade, hall.readers, hformed.1⟩
      · exact hall.keyed (fun member hmember => hformed.value hmember) name hmem

end InputType

namespace Body

/-- The properties of a body are those of an object in it. -/
theorem properties_eq_ok {declaration : Json} (hformed : declaration.WellFormed)
    {properties : List (String × Property)} (h : Body.properties declaration = .ok properties) :
    ∃ members, properties = Property.ofEntries members ∧ (Json.obj members).WellFormed := by
  have hnone : (Json.obj []).WellFormed := ⟨List.nodup_nil, trivial⟩
  cases declaration with
  | obj entries =>
      rw [Body.properties] at h
      cases hfind : Entries.find? entries "properties" with
      | none =>
          rw [hfind] at h
          exact ⟨[], (Except.ok.inj h).symm, hnone⟩
      | some value =>
          rw [hfind] at h
          have hvalue := hformed.value (Entries.mem_of_find? hfind)
          cases value with
          | obj members => exact ⟨members, (Except.ok.inj h).symm, hvalue⟩
          | _ =>
              -- other values are refused if they are affirmed, and count as no
              -- properties if not
              dsimp only at h
              split at h
              · cases h
              · exact ⟨[], (Except.ok.inj h).symm, hnone⟩
  | _ => cases h

end Body

namespace Schema

variable {limits : Limits} {data : Json} {method path : String} {body : Option Json}
  {schema : Schema}

/-- No type of a response is an input type. -/
theorem output_of_response {baseName : String} {query : NamedType} {types : Registry}
    (hname : Token.IsName baseName) (h : queryRoot limits data baseName = .ok (query, types)) :
    ∀ entry ∈ Entries.put types "Query" query, entry.2.isInput = false := by
  obtain ⟨hquery, added, rfl, hadded⟩ := queryRoot_declared hname h
  intro entry hentry
  rcases Entries.mem_put hentry with hentry | rfl
  · exact (hadded entry hentry).kind
  · exact hquery.kind

/-- An input type of a schema was made for the declared body, and stands for
distinct keys. -/
theorem keyed_of_build (hbody : ∀ declaration, body = some declaration → declaration.WellFormed)
    (h : build limits data method path body = .ok schema) {name : String} {type : NamedType}
    (hfind : Entries.find? schema.types name = some type) (hinput : type.isInput = true) :
    InputType.Keyed schema.types name := by
  obtain ⟨types, hroot, hcompleted⟩ := completed_of_build h
  -- input types do not come from the response, whose types are all for output
  have hresponse : Entries.find? (Entries.put types "Query" schema.query) name ≠ some type := by
    intro hfound
    have houtput := output_of_response (TypeName.derive_isName (Text.upper method) path) hroot _
      (Entries.mem_of_find? hfound)
    exact Bool.false_ne_true (houtput.symm.trans hinput)
  cases hcompleted with
  | reading _ _ hregistry =>
      rw [hregistry] at hfind
      exact absurd hfind hresponse
  | writing _ hdeclared hmutation _ hregistry =>
      obtain ⟨properties, arguments, hproperties, htakes, rfl⟩ := mutationRoot_takes hmutation
      rw [hregistry] at hfind ⊢
      by_cases hname : name = "Mutation"
      · rw [hname, Entries.find?_put_self] at hfind
        rw [← Option.some.inj hfind] at hinput
        cases hinput
      · rw [Entries.find?_put_of_ne _ _ hname] at hfind
        cases htakes with
        | nothing => exact absurd hfind hresponse
        | input _ hmade =>
            obtain ⟨members, rfl, hformed⟩ :=
              Body.properties_eq_ok (hbody _ hdeclared) hproperties
            rcases InputType.keyed_of_ofProperties hformed hmade hfind with
              hold | ⟨fields, keys, hfound, hreaders, hkeys⟩
            · exact absurd hold hresponse
            · exact ⟨fields, keys, (Entries.find?_put_of_ne _ _ hname).trans hfound,
                hreaders, hkeys⟩

/-- The input types of a schema stand for distinct keys. -/
theorem standsFor_of_build (hbody : ∀ declaration, body = some declaration →
    declaration.WellFormed) (h : build limits data method path body = .ok schema) {name : String}
    (hinput : (schema.typeNamed name).isInput = true) : ∃ keys,
    (schema.typeNamed name).StandsFor keys := by
  have hspelled := (spelled_of_build h).1.typeNamed name
  rw [typeNamed, Registry.typeNamed] at hinput ⊢
  rw [Registry.typeNamed] at hspelled
  cases hfind : Entries.find? schema.types name with
  | none =>
      -- a name without a type stands for an output type
      rw [hfind] at hinput
      cases hinput
  | some type =>
      rw [hfind, Option.getD_some] at hinput hspelled
      obtain ⟨fields, keys, hfound, hreaders, hkeys⟩ := keyed_of_build hbody h hfind hinput
      obtain rfl := Option.some.inj (hfind.symm.trans hfound)
      exact ⟨keys, hreaders, hkeys, hspelled.distinct, hspelled.names⟩

end Schema

namespace InputType

/-- The input type of some properties of distinct keys stands for these keys. -/
theorem standsFor_of_ofProperties {members : List (String × Json)}
    (hdistinct : Entries.Distinct members) {levels : Nat} {typeName name : String}
    {types types' : Registry} (h : ofProperties (Property.ofEntries members) levels typeName types =
      .ok (name, types')) :
    (types'.typeNamed name).StandsFor (Entries.keys members) := by
  obtain ⟨⟨made, hmade, -, hspelled⟩, -⟩ := ofProperties_spelled h
  obtain ⟨fields, names, hfound, hall, -⟩ :=
    ofProperties_mirrored (fun member _ => mirrored _ member.2) h
  obtain rfl := Option.some.inj (hmade.symm.trans hfound)
  rw [Registry.typeNamed, hmade]
  exact ⟨hall.readers, hdistinct, hspelled.distinct, hspelled.names⟩

end InputType

namespace Argument

/-- Every input type that is made for declared properties of distinct keys
receives object literals as it should, up to the field of the empty key, and so
does every input type of a schema that is built with a well-formed body. -/
theorem receives_of_body (schema : Schema) :
    (∀ (members : List (String × Json)) (levels : Nat) (typeName name : String)
      (types types' : Registry), Entries.Distinct members →
      InputType.ofProperties (Property.ofEntries members) levels typeName types =
        .ok (name, types') →
      schema.typeNamed name = types'.typeNamed name → Receives schema name) ∧
    ∀ (limits : Limits) (data : Json) (method path : String) (body : Option Json),
      (∀ declaration, body = some declaration → declaration.WellFormed) →
      Schema.build limits data method path body = .ok schema →
      ∀ name, (schema.typeNamed name).isInput = true → Receives schema name := by
  refine ⟨?_, ?_⟩
  · intro members levels typeName name types types' hdistinct h hsame
    have hstands := InputType.standsFor_of_ofProperties hdistinct h
    rw [← hsame] at hstands
    exact receives_of_standsFor hstands
  · intro limits data method path body hbody h name hinput
    obtain ⟨keys, hstands⟩ := Schema.standsFor_of_build hbody h hinput
    exact receives_of_standsFor hstands

/-- Two properties, the first one of the empty key and the second one of the key
that is its name. -/
def emptyKeyMembers : List (String × Json) :=
  [("", .obj [("type", .str "string")]), ("f_empty", .obj [("type", .str "string")])]

/-- The declaration of a body with these properties. -/
def emptyKeyBody : Json :=
  .obj [("properties", .obj emptyKeyMembers)]

theorem receives_of_body_emptyKey :
    (Entries.Distinct emptyKeyMembers ∧ ∃ name types',
      InputType.ofProperties (Property.ofEntries emptyKeyMembers) 5 "In" [] = .ok (name, types') ∧
      ∀ schema : Schema, schema.types = types' → Receives schema name) ∧
    emptyKeyBody.WellFormed ∧ ∃ schema,
      Schema.build {} (.obj [("id", .int 1)]) "POST" "/u" (some emptyKeyBody) = .ok schema ∧
      (schema.typeNamed "POST_u_Input").isInput = true ∧ Receives schema "POST_u_Input" := by
  have hdistinct : Entries.Distinct emptyKeyMembers := by
    unfold Entries.Distinct
    decide
  have hformed : emptyKeyBody.WellFormed := by
    simp [emptyKeyBody, emptyKeyMembers, Json.WellFormed, Json.EntriesWellFormed, Entries.Distinct,
      Entries.keys]
  refine ⟨⟨hdistinct, ?_⟩, hformed, ?_⟩
  · have hmade : (InputType.ofProperties (Property.ofEntries emptyKeyMembers) 5 "In" []).isOk =
        true := by
      decide +kernel
    obtain ⟨⟨name, types'⟩, hmade⟩ := Outcome.exists_of_isOk hmade
    refine ⟨name, types', hmade, ?_⟩
    intro schema hsame
    have htype : schema.typeNamed name = types'.typeNamed name := by
      rw [Schema.typeNamed, hsame]
    exact (receives_of_body schema).1 _ _ _ _ _ _ hdistinct hmade htype
  -- the schema is only evaluated for what is asked of it, not as a whole
  · have hmade : ((Schema.build {} (.obj [("id", .int 1)]) "POST" "/u" (some emptyKeyBody)).map
        fun schema => (schema.typeNamed "POST_u_Input").isInput).toOption = some true := by
      decide +kernel
    cases hbuilt : Schema.build {} (.obj [("id", .int 1)]) "POST" "/u" (some emptyKeyBody) with
    | error error =>
        rw [hbuilt] at hmade
        cases hmade
    | ok schema =>
        rw [hbuilt] at hmade
        have hinput : (schema.typeNamed "POST_u_Input").isInput = true := Option.some.inj hmade
        have hbody : ∀ declaration, some emptyKeyBody = some declaration →
            declaration.WellFormed := by
          intro declaration heq
          rw [← Option.some.inj heq]
          exact hformed
        exact ⟨schema, rfl, hinput, (receives_of_body schema).2 _ _ _ _ _ hbody hbuilt _ hinput⟩

/-- The fields that the properties get. -/
def emptyKeyType : NamedType :=
  ⟨"In", [("f_empty", ""), ("f_empty_2", "f_empty")].map fun (name, key) =>
    { name := name, reader := .member key, type := .scalar .string }, true⟩

-- what is given for the empty key is lost
example : coerce ⟨[("In", emptyKeyType)], ⟨"Query", [], false⟩, none, "", "", ""⟩
    (.obj [("f_empty", .str "a"), ("f_empty_2", .str "b")]) [] (.named "In") =
      .ok (.obj [("f_empty", .str "b")]) := rfl

end Argument

end JsonSelection
