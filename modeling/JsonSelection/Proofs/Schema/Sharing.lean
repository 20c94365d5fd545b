import JsonSelection.Proofs.Schema.Alignment
import JsonSelection.Proofs.Shape.Text

/-!
# Responses that may share a schema

A schema that is kept under the fingerprint of one response is used for all
responses of that fingerprint. Their own schemas need not be like it: the
fingerprint forgets which keys conflict, and what an array holds after a `null`.

## What this module delivers

- `Schema.AlignedResponses`: two responses agree on what their fingerprint
  leaves open.
- `Schema.AgreeingResponses`: two responses are of one type, and of one name
  they have places that agree.
- `Schema.alike_ofPlaces_iff`: schemas of responses of one shape are alike if
  and only if the types of their places are.
- `Schema.alike_iff_agreeing`: so they are alike exactly when the responses
  agree. When no two object types of either response share a name, this means
  that the responses are aligned.
-/

set_option autoImplicit false

namespace JsonSelection

namespace Schema

open Outline

/-- The types of an array go one level deeper than its shape, since its elements
are typed as if they were the response. -/
def extraLevels : Json → Nat
  | .arr _ => 1
  | _ => 0

/-- Two responses agree on what their fingerprint leaves open. They need not
have one fingerprint for this. -/
def AlignedResponses (data other : Json) (method path : String) : Prop :=
  Aligned {} (extraLevels data) (Limits.levelsFrom {} 0)
    (TypeName.derive (Text.upper method) path) [] []
    data other

/-- Two responses are of one type, and of one name they have places that agree.
This is about all responses, also about those with names that are not apart. -/
def AgreeingResponses (data other : Json) (method path : String) : Prop :=
  let baseName := TypeName.derive (Text.upper method) path
  (ofResponse {} data baseName).1.unpaged = (ofResponse {} other baseName).1.unpaged ∧
    SamePlaces {} (responsePlaces {} data baseName) (responsePlaces {} other baseName)

/-! ### Outlines of responses

A response is an array, which is typed with one level more than its shape, or it
is typed as it is. -/

theorem ofResponse_of_mixed {items : List Json} (h : Sample.isMixed {} items = true)
    (baseName : String) : ∃ page, ofResponse {}
    (.arr items) baseName = (.list .json page, []) := by
  have hne : items.isEmpty = false := by
    cases items with
    | nil => revert h; decide
    | cons item rest => rfl
  rw [ofResponse, h, hne]
  exact ⟨_, rfl⟩

theorem ofResponse_of_uniform {items : List Json} (h : Sample.isMixed {} items = false)
    (baseName : String) :
    ofResponse {} (.arr items) baseName = ofJson {} (1 + 8) (.arr items) baseName [] := by
  rw [ofResponse, h, Bool.and_false]
  rfl

theorem ofResponse_of_scalar? {limits : Limits} {levels : Nat} {value : Json} {type : Scalar}
    (h : (Shape.ofJson limits (levels + 1) value).scalar? = some type) (baseName : String) :
    ofResponse {} value baseName = (.scalar .string, []) := by
  rw [Shape.scalar?_ofJson] at h
  cases value with
  | arr items => cases h
  | obj entries => cases h
  | _ => rfl

/-- Aligned responses of one shape have alike outlines. -/
theorem alike_ofResponse {data other : Json} (hformed : data.WellFormed)
    (hformed' : other.WellFormed) (hshape : Shape.ofJson {} 8 data = Shape.ofJson {} 8 other)
    {baseName : String} (haligned : Aligned {} (extraLevels data) 8 baseName [] [] data other) :
    Outline.Alike (ofResponse {} data baseName) (ofResponse {} other baseName) := by
  cases data with
  | arr items =>
      obtain ⟨items', rfl, -⟩ := Shape.items_of_shape hshape
      -- elements of several kinds are raw JSON and have no outline
      cases hkind : Sample.isMixed {} items with
      | true =>
          obtain ⟨page, heq⟩ := ofResponse_of_mixed hkind baseName
          obtain ⟨page', heq'⟩ := ofResponse_of_mixed (haligned.1.symm.trans hkind) baseName
          rw [heq, heq']
          exact alike_of_nil rfl
      | false =>
          rw [ofResponse_of_uniform hkind, ofResponse_of_uniform (haligned.1.symm.trans hkind)]
          exact alike_of_aligned hformed hformed' hshape haligned
  | obj entries =>
      obtain ⟨entries', rfl, -⟩ := Shape.entries_of_shape hshape
      have halike : Outline.Alike (ofJson {} (0 + 8) (.obj entries) baseName [])
          (ofJson {} (0 + 8) (.obj entries') baseName []) :=
        alike_of_aligned hformed hformed' hshape haligned
      exact halike
  | _ =>
      have hother := (congrArg Shape.scalar? hshape).symm.trans (Shape.scalar?_ofJson _)
      rw [ofResponse_of_scalar? hother]
      exact alike_of_nil rfl

/-- What covers a registry has every type of it, with all its fields. -/
theorem within_of_covers {types others : Registry} (h : Covers types others)
    (hdistinct : Entries.Distinct others) (name : String) :
    (types.typeNamed name).Within (others.typeNamed name) := by
  rw [Registry.typeNamed]
  cases hfind : Entries.find? types name with
  | none => exact List.nil_subset _
  | some type =>
      obtain ⟨other, hother, hname, hwithin⟩ := h _ (Entries.mem_of_find? hfind)
      have hfound := held_self hdistinct hother
      rw [hname] at hfound
      rw [hfound]
      exact hwithin

/-- Responses of one shape are aligned when their outlines are alike and the
names in each of these are apart. -/
theorem aligned_ofResponse {data other : Json} (hformed : data.WellFormed)
    (hformed' : other.WellFormed) (hshape : Shape.ofJson {} 8 data = Shape.ofJson {} 8 other)
    {baseName : String} (hapart : Entries.Distinct (ofResponse {} data baseName).2)
    (hapart' : Entries.Distinct (ofResponse {} other baseName).2)
    (halike : Outline.Alike (ofResponse {} data baseName) (ofResponse {} other baseName)) :
    Aligned {} (extraLevels data) 8 baseName [] [] data other := by
  have hwithin := within_of_covers halike.covers hapart'
  have hwithin' := within_of_covers halike.covered hapart
  have hheld : Held (ofResponse {} data baseName).2 (ofResponse {} data baseName).2 :=
    fun entry hentry => congrArg NamedType.fields (held_self hapart hentry)
  have hheld' : Held (ofResponse {} other baseName).2 (ofResponse {} other baseName).2 :=
    fun entry hentry => congrArg NamedType.fields (held_self hapart' hentry)
  have htype := halike.type
  cases data with
  | arr items =>
      obtain ⟨items', rfl, -⟩ := Shape.items_of_shape hshape
      have hmixed := Shape.isMixed_of_shape hshape
      cases hkind : Sample.isMixed {} items with
      | true =>
          -- a mixed response is raw JSON, whatever its elements are
          refine ⟨hmixed, fun hnot => ?_⟩
          rw [hkind] at hnot
          cases hnot
      | false =>
          rw [ofResponse_of_uniform hkind] at hwithin hwithin' hheld htype
          rw [ofResponse_of_uniform (hmixed.symm.trans hkind)] at hwithin hwithin' hheld' htype
          exact aligned_of_held hwithin hwithin' hformed hformed' hshape hheld hheld' htype
  | obj entries =>
      obtain ⟨entries', rfl, -⟩ := Shape.entries_of_shape hshape
      exact aligned_of_held hwithin hwithin' hformed hformed' hshape hheld hheld' htype
  | _ => trivial

/-! ### Schemas of places

Only the root and the places of a response show in its schema. A root could be
registered under the name of a place, but then it has the same fields. -/

/-- The schema of a response: the types of its places and its root. Under the
usual limits it is the one that is built. -/
def ofPlaces (data : Json) (method path : String) : Schema :=
  let typed := shared {} data (TypeName.derive (Text.upper method) path)
  ofRoot (rootType data typed) typed.2 method path

theorem build_eq_ofPlaces (data : Json) (method path : String) :
    build {} data method path none = .ok (ofPlaces data method path) :=
  build_of_queryRoot (queryRoot_eq_shared (by decide) data _)

theorem name_rootType (data : Json) (typed : Inference.Typed) :
    (rootType data typed).name = "Query" := by
  cases data with
  | obj entries =>
      obtain ⟨type, types⟩ := typed
      cases type <;> rfl
  | _ => rfl

section Places

variable (method path : String)

theorem roots_ofPlaces (data : Json) : (ofPlaces data method path).roots = ["Query"] := by
  simp only [roots, ofPlaces, ofRoot, name_rootType]
  rfl

theorem typeNamed_query (data : Json) : (ofPlaces data method path).typeNamed "Query" =
    rootType data (shared {} data (TypeName.derive (Text.upper method) path)) :=
  Registry.typeNamed_put_self _ "Query" _

theorem typeNamed_of_ne (data : Json) {name : String} (h : name ≠ "Query") :
    (ofPlaces data method path).typeNamed name =
      (shared {} data (TypeName.derive (Text.upper method) path)).2.typeNamed name :=
  Registry.typeNamed_put_of_ne _ _ h

theorem selfNamed_ofPlaces (data : Json) : (ofPlaces data method path).SelfNamed := by
  intro name
  by_cases hname : name = "Query"
  · rw [hname, typeNamed_query, name_rootType]
  · rw [typeNamed_of_ne method path data hname, Registry.typeNamed]
    cases hfind : Entries.find? (shared {} data (TypeName.derive (Text.upper method) path)).2 name
      with
    | none => rfl
    | some type =>
        obtain ⟨place, -, heq⟩ := mem_registered_iff.mp (Entries.mem_of_find? hfind)
        obtain ⟨rfl, rfl⟩ := Prod.mk.inj heq
        rfl

theorem nodup_ofPlaces (data : Json) (name : String) :
    ((ofPlaces data method path).typeNamed name).fieldNames.Nodup := by
  have hroot : queryRoot {} data (TypeName.derive (Text.upper method) path) = _ :=
    queryRoot_eq_shared (by decide) data _
  obtain ⟨hquery, htypes⟩ := queryRoot_keeps (by decide) (by decide) hroot
  by_cases hname : name = "Query"
  · rw [hname, typeNamed_query]
    exact hquery.distinct
  · rw [typeNamed_of_ne method path data hname]
    exact (htypes.typeNamed name).distinct

/-- Roots of responses of one kind are within each other when the types of their
places are alike. -/
theorem within_rootType {data other : Json}
    (hshape : Shape.ofJson {} 8 data = Shape.ofJson {} 8 other) {baseName : String}
    (halike : Outline.Alike (shared {} data baseName) (shared {} other baseName)) :
    (rootType data (shared {} data baseName)).Within (rootType other
      (shared {} other baseName)) := by
  cases data with
  | arr items =>
      obtain ⟨items', rfl, -⟩ := Shape.items_of_shape hshape
      -- the two root fields differ in page sizes at most
      have hitems : (itemsField (shared {} (.arr items) baseName).1).unpaged =
          (itemsField (shared {} (.arr items') baseName).1).unpaged := by
        simp only [itemsField, Field.unpaged, halike.type, Field.pageArguments_unpaged halike.type]
      simp only [NamedType.Within, rootType, queryType, List.map_cons, hitems]
      exact List.Subset.refl _
  | obj entries =>
      obtain ⟨entries', rfl, -⟩ := Shape.entries_of_shape hshape
      have hlevels : Limits.levelsFrom {} 0 = 7 + 1 := rfl
      have hwithin := within_of_covers halike.covers (distinct_shared {} _ _) baseName
      rw [typeNamed_shared_object hlevels, typeNamed_shared_object hlevels] at hwithin
      rw [rootType_object hlevels, rootType_object hlevels]
      exact hwithin
  | _ =>
      have hother := (congrArg Shape.scalar? hshape).symm.trans (Shape.scalar?_ofJson _)
      rw [Shape.scalar?_ofJson] at hother
      cases other with
      | arr items => cases hother
      | obj entries => cases hother
      | _ => exact NamedType.within_refl _

theorem within_ofPlaces {data other : Json}
    (hshape : Shape.ofJson {} 8 data = Shape.ofJson {} 8 other)
    (halike : Outline.Alike (shared {} data (TypeName.derive (Text.upper method) path))
      (shared {} other (TypeName.derive (Text.upper method) path))) (name : String) :
    ((ofPlaces data method path).typeNamed name).Within
      ((ofPlaces other method path).typeNamed name) := by
  by_cases hname : name = "Query"
  · rw [hname, typeNamed_query, typeNamed_query]
    exact within_rootType hshape halike
  · rw [typeNamed_of_ne method path _ hname, typeNamed_of_ne method path _ hname]
    exact within_of_covers halike.covers (distinct_shared {} _ _) name

/-- The types of all responses of one shape can be told from their roots. -/
theorem type_of_within {data other : Json}
    (hshape : Shape.ofJson {} 8 data = Shape.ofJson {} 8 other) {baseName : String}
    (hwithin : (rootType data (shared {} data baseName)).Within
      (rootType other (shared {} other baseName))) :
    (ofResponse {} data baseName).1.unpaged = (ofResponse {} other baseName).1.unpaged := by
  cases data with
  | arr items =>
      obtain ⟨items', rfl, -⟩ := Shape.items_of_shape hshape
      -- the field with the elements has the type, and the count is another field
      have hitems := hwithin (List.mem_map_of_mem (show itemsField _ ∈ _ from List.mem_cons_self))
      rcases List.mem_cons.mp hitems with heq | hcount
      · exact congrArg Field.type heq
      · have hname : "items" = "_count" := congrArg Field.name (List.mem_singleton.mp hcount)
        exact absurd hname (by decide)
  | obj entries =>
      obtain ⟨entries', rfl, -⟩ := Shape.entries_of_shape hshape
      have hlevels : Limits.levelsFrom {} 0 = 7 + 1 := rfl
      rw [ofResponse_object hlevels, ofResponse_object hlevels]
  | _ =>
      have hother := (congrArg Shape.scalar? hshape).symm.trans (Shape.scalar?_ofJson _)
      rw [ofResponse_of_scalar? hother]
      rfl

/-- A name that stands for a place of one response stands for a place of every
response whose schema has all fields of the type. -/
theorem exists_of_within {data other : Json}
    (hshape : Shape.ofJson {} 8 data = Shape.ofJson {} 8 other) {baseName : String}
    {entry : String × NamedType} (hentry : entry ∈ (shared {} data baseName).2)
    (hwithin : entry.1 ≠ "Query" → entry.2.Within
      ((shared {} other baseName).2.typeNamed entry.1)) :
    ∃ found ∈ (shared {} other baseName).2, found.1 = entry.1 := by
  by_cases hname : entry.1 = "Query"
  · -- a place named like the root is the whole response
    obtain ⟨entries, levels, rfl, hlevels, rfl⟩ := object_of_query hentry hname
    obtain ⟨entries', rfl, -⟩ := Shape.entries_of_shape hshape
    rw [shared_object hlevels]
    exact ⟨_, List.mem_cons_self, rfl⟩
  · specialize hwithin hname
    rw [Registry.typeNamed] at hwithin
    cases hfind : Entries.find? (shared {} other baseName).2 entry.1 with
    | some type => exact ⟨_, Entries.mem_of_find? hfind, rfl⟩
    | none =>
        -- a type that is not there has no fields, but every place has one
        rw [hfind] at hwithin
        obtain ⟨place, -, rfl⟩ := mem_registered_iff.mp hentry
        obtain ⟨field, hfield⟩ := exists_mem_ownFields (ofJson {} place.levels) place.entries
          place.typeName place.conflicts
        have hnone := hwithin (List.mem_map_of_mem hfield)
        cases hnone

/-- The types of the places of a response have all their fields in those of
another one when this holds of the schemas. -/
theorem covers_of_within {data other : Json}
    (hshape : Shape.ofJson {} 8 data = Shape.ofJson {} 8 other)
    (hwithin : ∀ name, ((ofPlaces data method path).typeNamed name).Within
      ((ofPlaces other method path).typeNamed name)) :
    Covers (shared {} data (TypeName.derive (Text.upper method) path)).2
      (shared {} other (TypeName.derive (Text.upper method) path)).2 := by
  intro entry hentry
  -- the fields of a place are those that its schema shows under the name of the place
  have hfields := hwithin entry.1
  rw [NamedType.Within] at hfields
  have hheld : ((ofPlaces data method path).typeNamed entry.1).fields = entry.2.fields :=
    held_rootType {} data _ entry hentry
  rw [hheld] at hfields
  have hfound := exists_of_within hshape hentry fun hname => by
    rw [typeNamed_of_ne method path other hname] at hfields
    exact hfields
  obtain ⟨found, hmem, hname⟩ := hfound
  have hheld' : ((ofPlaces other method path).typeNamed found.1).fields = found.2.fields :=
    held_rootType {} other _ found hmem
  rw [← hname, hheld'] at hfields
  exact ⟨found, hmem, hname, hfields⟩

/-- Schemas of responses of one shape are alike if and only if the types of
their places are. -/
theorem alike_ofPlaces_iff {data other : Json}
    (hshape : Shape.ofJson {} 8 data = Shape.ofJson {} 8 other) :
    (ofPlaces data method path).Alike (ofPlaces other method path) ↔
      Outline.Alike (shared {} data (TypeName.derive (Text.upper method) path))
        (shared {} other (TypeName.derive (Text.upper method) path)) := by
  constructor
  · intro halike
    have hwithin := fun name => (halike.types name).subset
    have hwithin' := fun name => (halike.types name).symm.subset
    have hquery := hwithin "Query"
    rw [typeNamed_query, typeNamed_query] at hquery
    exact ⟨type_of_within hshape hquery, covers_of_within method path hshape hwithin,
      covers_of_within method path hshape.symm hwithin'⟩
  · intro halike
    exact alike_of_within (selfNamed_ofPlaces method path data)
      (selfNamed_ofPlaces method path other)
      (nodup_ofPlaces method path data) (nodup_ofPlaces method path other)
      (by rw [roots_ofPlaces, roots_ofPlaces]) (within_ofPlaces method path hshape halike)
      (within_ofPlaces method path hshape.symm halike.symm)

end Places

/-! ### Fingerprints and schemas

A fingerprint stands for a shape, so all that is left is to put the parts
together. -/

/-- Responses of one fingerprint have alike schemas if and only if they are of
one type and their places of one name agree. When no two object types of either
response share a name, this holds if and only if the responses are aligned. -/
theorem alike_iff_agreeing (method path : String) {data other : Json} (hformed : data.WellFormed)
    (hformed' : other.WellFormed)
    (hfingerprint : Shape.fingerprint {} 0 data = Shape.fingerprint {} 0 other) :
    ∃ schema schema', build {} data method path none = .ok schema ∧
      build {} other method path none = .ok schema' ∧
      (schema.Alike schema' ↔ AgreeingResponses data other method path) ∧
      (NamesApart data method path → NamesApart other method path →
        (schema.Alike schema' ↔ AlignedResponses data other method path)) := by
  have hshape : Shape.ofJson {} 8 data = Shape.ofJson {} 8 other :=
    Shape.text_injective hfingerprint
  refine ⟨ofPlaces data method path, ofPlaces other method path,
    build_eq_ofPlaces data method path,
    build_eq_ofPlaces other method path, ?_, ?_⟩
  · rw [alike_ofPlaces_iff method path hshape]
    exact alike_iff_samePlaces (distinct_shared {} data _) (distinct_shared {} other _)
  · intro hapart hapart'
    rw [alike_ofPlaces_iff method path hshape, shared_eq_ofResponse hapart,
      shared_eq_ofResponse hapart']
    exact ⟨aligned_ofResponse hformed hformed' hshape hapart hapart',
      alike_ofResponse hformed hformed' hshape⟩

/-- An object with a text and an array. -/
def ordered : List (String × Json) :=
  [("a", .str "x"), ("b", .arr [.int 1])]

/-- The same keys in another order with other values and a longer array. -/
def reordered : List (String × Json) :=
  [("b", .arr [.int 2, .int 3]), ("a", .str "y")]

theorem alike_reordered : ∃ schema schema', build {}
    (.obj ordered) "GET" "/" none = .ok schema ∧
    build {} (.obj reordered) "GET" "/" none = .ok schema' ∧ schema.Alike schema' := by
  have hformed : (Json.obj ordered).WellFormed := by
    simp [ordered, Json.WellFormed, Json.EntriesWellFormed, Json.ListWellFormed, Entries.Distinct,
      Entries.keys]
  have hformed' : (Json.obj reordered).WellFormed := by
    simp [reordered, Json.WellFormed, Json.EntriesWellFormed, Json.ListWellFormed, Entries.Distinct,
      Entries.keys]
  have hsorted : Shape.sortedEntries ordered = ordered := by
    simp [ordered, Shape.sortedEntries, List.mergeSort, List.MergeSort.Internal.splitInTwo]
  have hsorted' : Shape.sortedEntries reordered = reordered.reverse := by
    simp [reordered, Shape.sortedEntries, List.mergeSort, List.MergeSort.Internal.splitInTwo]
  -- the entries are sorted by key before they are written
  have hfingerprint : Shape.fingerprint {} 0 (.obj ordered) = Shape.fingerprint {} 0
      (.obj reordered) := by
    refine congrArg Shape.text (congrArg Shape.object ?_)
    rw [hsorted, hsorted']
    rfl
  have hapart : NamesApart (.obj ordered) "GET" "/" := by
    rw [NamesApart, Entries.Distinct]
    decide +kernel
  have hapart' : NamesApart (.obj reordered) "GET" "/" := by
    rw [NamesApart, Entries.Distinct]
    decide +kernel
  have hnamed : named [] ordered = [("a", .str "x", "a"), ("b", .arr [.int 1], "b")] := rfl
  have hnamed' : named [] reordered = [("b", .arr [.int 2, .int 3], "b"), ("a", .str "y", "a")] :=
    rfl
  -- the two keys are paired with themselves; any other pair is none
  have haligned : AlignedResponses (.obj ordered) (.obj reordered) "GET" "/" := by
    intro key value name value' name' h h'
    rw [hnamed] at h
    rw [hnamed'] at h'
    simp only [List.mem_cons, List.not_mem_nil, or_false, Prod.mk.injEq] at h h'
    rcases h with ⟨rfl, rfl, rfl⟩ | ⟨rfl, rfl, rfl⟩
    · rcases h' with ⟨hkey, -⟩ | ⟨-, rfl, rfl⟩
      · exact absurd hkey (by decide)
      · exact ⟨rfl, Iff.rfl, fun _ => trivial⟩
    · rcases h' with ⟨-, rfl, rfl⟩ | ⟨hkey, -⟩
      · exact ⟨rfl, Iff.rfl, fun _ => ⟨rfl, fun _ => trivial⟩⟩
      · exact absurd hkey (by decide)
  obtain ⟨schema, schema', hbuild, hbuild', -, hiff⟩ :=
    alike_iff_agreeing "GET" "/" hformed hformed' hfingerprint
  exact ⟨schema, schema', hbuild, hbuild', (hiff hapart hapart').mpr haligned⟩

/-- Two arrays of one fingerprint: in the second one the key has values of two
kinds. -/
example :
    Shape.fingerprint {} 0 (.arr [.obj [("a", .str "x")]]) = "[\x7b\"a\":s\x7d]" ∧
      Shape.fingerprint {} 0 (.arr [.obj [("a", .str "x")], .obj [("a", .int 1)]]) =
        "[\x7b\"a\":s\x7d]" := by
  cbv

/-- Their schemas are not alike. -/
example :
    (match build {} (.arr [.obj [("a", .str "x")]]) "GET" "/" none,
        build {} (.arr [.obj [("a", .str "x")], .obj [("a", .int 1)]]) "GET" "/" none with
      | .ok schema, .ok schema' =>
          (schema.typeNamed "GET_Item").fields.map Field.type == [.scalar .string] &&
            (schema'.typeNamed "GET_Item").fields.map Field.type == [.json]
      | _, _ => false) = true := by
  decide +kernel

end Schema

end JsonSelection
