import JsonSelection.Proofs.Schema.Places
import JsonSelection.Proofs.Schema.Serving

/-!
# Schemas of responses

What `Schema.build` makes of a response: the types of its places, and beside
them a root that shows the fields of an object, the elements of an array or a
single value.

## What this module delivers

- `Outline.ofResponse`: the outline of a response, and `Outline.responsePlaces`:
  its places.
- `Schema.queryRoot_eq_shared`: the root of a response and the types beside it,
  said by these.
- `Outline.shared_eq_ofResponse`: when no two object types share a name, the
  types are those of the outline.
- `Outline.Held`: a registry holds the object types of an outline.
- `Schema.held_rootType`: the root hides none of the types beside it.

The elements of an array are typed as if they were the response, which is why
its places are counted from a depth of -1.
-/

set_option autoImplicit false

namespace JsonSelection

namespace Outline

/-- The type of a response and the object types that it needs. -/
def ofResponse (limits : Limits) (data : Json) (baseName : String) : Inference.Typed :=
  match data with
  | .arr items =>
      if !items.isEmpty && Sample.isMixed limits items then
        (.list .json (Cost.pageSize limits (limits.levelsFrom 1) items).toOption, [])
      else ofJson limits (limits.levelsFrom (-1)) (.arr items) baseName []
  | .obj entries => ofJson limits (limits.levelsFrom 0) (.obj entries) baseName []
  | _ => (.scalar .string, [])

/-- The places of a response. -/
def responsePlaces (limits : Limits) (data : Json) (baseName : String) : List Place :=
  match data with
  | .arr items => places limits (limits.levelsFrom (-1)) (.arr items) baseName [] []
  | .obj entries => places limits (limits.levelsFrom 0) (.obj entries) baseName [] []
  | _ => []

/-- The type of a response and the types of its places: of all object types of
one name, the first. -/
def shared (limits : Limits) (data : Json) (baseName : String) : Inference.Typed :=
  ((ofResponse limits data baseName).1, registered limits (responsePlaces limits data baseName))

theorem distinct_shared (limits : Limits) (data : Json) (baseName : String) :
    Entries.Distinct (shared limits data baseName).2 := by
  cases data with
  | arr items => exact places_distinct limits _ _ baseName []
  | obj entries => exact places_distinct limits _ _ baseName []
  | _ => exact List.nodup_nil

theorem mem_of_mem_shared {limits : Limits} {data : Json} {baseName : String}
    {entry : String × NamedType} (h : entry ∈ (shared limits data baseName).2) :
    entry ∈ (ofResponse limits data baseName).2 := by
  obtain ⟨place, hplace, rfl⟩ := mem_registered_iff.mp h
  cases data with
  | arr items =>
      rw [ofResponse]
      split
      · next hmixed =>
          have hnone :=
            places_of_mixed ((Bool.and_eq_true _ _).mp hmixed).2 (limits.levelsFrom (-1))
            baseName [] []
          rw [responsePlaces, hnone] at hplace
          cases hplace
      · exact places_outlined limits _ hplace
  | obj entries => exact places_outlined limits _ hplace
  | _ => cases hplace

/-- With names that are apart, every object is a place. -/
theorem shared_eq_ofResponse {limits : Limits} {data : Json} {baseName : String}
    (hapart : Entries.Distinct (ofResponse limits data baseName).2) :
    shared limits data baseName = ofResponse limits data baseName := by
  refine Prod.ext rfl ?_
  cases data with
  | arr items =>
      rw [ofResponse] at hapart
      rw [shared, responsePlaces, ofResponse]
      split
      · next hmixed =>
          rw [places_of_mixed ((Bool.and_eq_true _ _).mp hmixed).2]
          rfl
      · next hmixed =>
          rw [if_neg hmixed] at hapart
          exact places_follows limits _ hapart
  | obj entries => exact places_follows limits _ hapart
  | _ => rfl

/-- A registry holds the object types of an outline. It may hold other types as
well, and the types may stand in any order. -/
def Held (types outline : Registry) : Prop :=
  ∀ entry ∈ outline, (types.typeNamed entry.1).fields = entry.2.fields

theorem Held.mono {types outline part : Registry} (h : Held types outline)
    (hpart : ∀ entry ∈ part, entry ∈ outline) : Held types part :=
  fun entry hentry => h entry (hpart entry hentry)

/-- The fields of an object in a registry that holds its outline. -/
theorem Held.ownFields {types : Registry} {child : Child} {entries : Entries Json}
    {typeName : String} {conflicts : List String}
    (h : Held types (objectType child entries typeName conflicts).2) :
    (types.typeNamed typeName).fields = Outline.ownFields child entries typeName conflicts := by
  rw [objectType_eq_cons] at h
  exact h _ List.mem_cons_self

/-- An outline without two types of one name is held by itself. -/
theorem held_self {outline : Registry} (h : Entries.Distinct outline) {entry : String × NamedType}
    (hentry : entry ∈ outline) : outline.typeNamed entry.1 = entry.2 := by
  rw [Registry.typeNamed, Entries.find?_of_mem h hentry]
  rfl

/-- A root that is written beside an outline hides none of it, unless it has the
name of a type whose fields it does not show. -/
theorem held_put {outline : Registry} (hdistinct : Entries.Distinct outline) {name : String}
    {query : NamedType} (hquery : ∀ entry ∈ outline, entry.1 = name →
      query.fields = entry.2.fields) :
    Held (Entries.put outline name query) outline := by
  intro entry hentry
  by_cases hname : entry.1 = name
  · rw [hname, Registry.typeNamed_put_self]
    exact hquery entry hentry hname
  · rw [Registry.typeNamed_put_of_ne _ _ hname, held_self hdistinct hentry]

end Outline

namespace Schema

/-! ### Roots

The root of an object takes over the fields of the type of the object, which is
registered beside it. -/

/-- The schema with some types and a root. -/
def ofRoot (query : NamedType) (types : Registry) (method path : String) : Schema :=
  ⟨Entries.put types "Query" query, query, none, TypeName.derive (Text.upper method) path,
    Text.upper method, path⟩

/-- Without a request body the root and its types make the schema. -/
theorem build_of_queryRoot {limits : Limits} {data : Json} {method path : String}
    {query : NamedType} {types : Registry}
    (h : queryRoot limits data (TypeName.derive (Text.upper method) path) = .ok (query, types)) :
    build limits data method path none = .ok (ofRoot query types method path) := by
  simp only [build, h, Outcome.mapError_ok, Outcome.ok_bind]
  rfl

/-- The schema of an object whose types are registered. -/
def ofObject (types : Registry) (method path : String) : Schema :=
  let baseName := TypeName.derive (Text.upper method) path
  ofRoot (queryType (types.typeNamed baseName).fields) types method path

/-- The schema of an object without a request body. -/
theorem build_object {limits : Limits} (hunit : limits.charsPerUnit ≠ 0) {levels : Nat}
    (hlevels : limits.levelsFrom 0 = levels + 1) (entries : Entries Json) (method path : String) :
    ∃ types, Inference.objectType (Inference.inferType limits levels) entries
        (TypeName.derive (Text.upper method) path) [] [] =
          .ok (.named (TypeName.derive (Text.upper method) path), types) ∧
      build limits (.obj entries) method path none = .ok (ofObject types method path) := by
  have hobject := Inference.objectType_eq_places (Inference.inferType_eq_places hunit levels)
    entries
    (TypeName.derive (Text.upper method) path) [] []
  refine ⟨_, hobject, build_of_queryRoot ?_⟩
  have htyped : Inference.inferType limits (levels + 1) (.obj entries)
      (TypeName.derive (Text.upper method) path) [] [] = _ := hobject
  rw [queryRoot, hlevels, htyped]
  rfl

/-! ### Roots of outlines

A root is registered under a name that the type of the response may have, too.
Then both have the same fields. -/

/-- The root type of a response, made from the type of the response. An object
gives its fields to the root. -/
def rootType (data : Json) (typed : Inference.Typed) : NamedType :=
  match data with
  | .arr _ => queryType [itemsField typed.1, countField]
  | .obj _ =>
      match typed.1 with
      | .named name => queryType (typed.2.typeNamed name).fields
      | _ => queryType [rawField]
  | _ => queryType [scalarField]

theorem itemsType_eq_shared {limits : Limits} (hunit : limits.charsPerUnit ≠ 0)
    (items : List Json) (baseName : String) :
    itemsType limits items baseName = .ok (Outline.shared limits (.arr items) baseName) := by
  rw [itemsType, Outline.shared, Outline.ofResponse, Outline.responsePlaces]
  split
  · next hmixed =>
      obtain ⟨page, hpage⟩ := Cost.pageSize_succeeds hunit (limits.levelsFrom 1) items
      rw [hpage, Outline.places_of_mixed ((Bool.and_eq_true _ _).mp hmixed).2]
      rfl
  · exact Inference.inferType_eq_places hunit _ _ _ _ []

/-- The root of a response comes from the type of the response and the types of
its places. -/
theorem queryRoot_eq_shared {limits : Limits} (hunit : limits.charsPerUnit ≠ 0) (data : Json)
    (baseName : String) :
    queryRoot limits data baseName =
      .ok (rootType data (Outline.shared limits data baseName),
        (Outline.shared limits data baseName).2) := by
  cases data with
  | arr items =>
      rw [queryRoot, itemsType_eq_shared hunit]
      rfl
  | obj entries =>
      have hinferred : Inference.inferType limits (limits.levelsFrom 0) (.obj entries)
        baseName [] [] =
          .ok (Outline.shared limits (.obj entries) baseName) :=
        Inference.inferType_eq_places hunit _ _ _ _ []
      rw [queryRoot, hinferred, Outcome.map_ok]
      generalize Outline.shared limits (.obj entries) baseName = typed
      obtain ⟨type, types⟩ := typed
      cases type <;> rfl
  | _ => rfl

/-- The object types of an array are named after its elements. -/
theorem underscored_ofResponse (limits : Limits) (items : List Json) (baseName : String) :
    ∀ entry ∈ (Outline.ofResponse limits (.arr items) baseName).2, Underscored entry.1 := by
  have hname : Underscored (baseName ++ "_Item") := by simp [Underscored]
  rw [Outline.ofResponse]
  split
  · simp
  · cases limits.levelsFrom (-1) with
    | zero => simp [Outline.ofJson]
    | succ levels =>
        simp only [Outline.ofJson, Outline.listType]
        split
        · simp
        · split
          · simp
          · exact Outline.ofJson_underscored limits levels hname

/-- An object is of a type that is named after the response. -/
theorem ofResponse_object {limits : Limits} {levels : Nat}
    (hlevels : limits.levelsFrom 0 = levels + 1) (entries : Entries Json) (baseName : String) :
    Outline.ofResponse limits (.obj entries) baseName =
      (.named baseName,
        (baseName, ⟨baseName, Outline.ownFields (Outline.ofJson limits levels) entries
        baseName [], false⟩) :: (Outline.fields (Outline.ofJson limits levels) baseName []
          [] entries).2) := by
  rw [Outline.ofResponse, hlevels, Outline.ofJson, Outline.objectType_eq_cons]

/-- The first place of an object is the object itself. -/
theorem shared_object {limits : Limits} {levels : Nat} (hlevels : limits.levelsFrom 0 = levels + 1)
    (entries : Entries Json) (baseName : String) : Outline.shared limits (.obj entries) baseName =
      (.named baseName,
        (baseName, ⟨baseName, Outline.ownFields (Outline.ofJson limits levels) entries
        baseName [], false⟩) :: Outline.registered limits (Outline.fieldPlaces
          (Outline.places limits levels) baseName [] [] entries [baseName])) := by
  rw [Outline.shared, ofResponse_object hlevels, Outline.responsePlaces, hlevels, Outline.places]
  rfl

theorem typeNamed_shared_object {limits : Limits} {levels : Nat}
    (hlevels : limits.levelsFrom 0 = levels + 1) (entries : Entries Json) (baseName : String) :
    (Outline.shared limits (.obj entries) baseName).2.typeNamed baseName =
      ⟨baseName, Outline.ownFields (Outline.ofJson limits levels) entries baseName
        [], false⟩ := by
  have hdistinct := Outline.distinct_shared limits (.obj entries) baseName
  rw [shared_object hlevels] at hdistinct ⊢
  exact Outline.held_self hdistinct List.mem_cons_self

/-- The root of an object shows the fields of the type of the object. -/
theorem rootType_object {limits : Limits} {levels : Nat}
    (hlevels : limits.levelsFrom 0 = levels + 1) (entries : Entries Json) (baseName : String) :
    rootType (.obj entries) (Outline.shared limits (.obj entries) baseName) =
      queryType (Outline.ownFields (Outline.ofJson limits levels) entries baseName []) := by
  have hroot : rootType (.obj entries) (Outline.shared limits (.obj entries) baseName) =
      queryType ((Outline.shared limits (.obj entries) baseName).2.typeNamed baseName).fields := by
    rw [rootType, shared_object hlevels]
  rw [hroot, typeNamed_shared_object hlevels]

/-- A type beside the root that has the name of the root is the type of the
whole response. -/
theorem object_of_query {limits : Limits} {data : Json} {baseName : String}
    {entry : String × NamedType} (hentry : entry ∈ (Outline.shared limits data baseName).2)
    (hname : entry.1 = "Query") :
    ∃ entries levels, data = .obj entries ∧ limits.levelsFrom 0 = levels + 1 ∧
    entry = (baseName,
      ⟨baseName, Outline.ownFields (Outline.ofJson limits levels) entries baseName
        [], false⟩) := by
  have hmem := Outline.mem_of_mem_shared hentry
  cases data with
  | arr items =>
      exact absurd (hname ▸ underscored_ofResponse limits items baseName entry hmem)
        not_underscored_query
  | obj entries =>
      cases hlevels : limits.levelsFrom 0 with
      | zero =>
          rw [Outline.ofResponse, hlevels] at hmem
          cases hmem
      | succ levels =>
          rw [ofResponse_object hlevels] at hmem
          rcases List.mem_cons.mp hmem with rfl | hrest
          · exact ⟨entries, levels, rfl, rfl, rfl⟩
          -- the types below the response have underscores in their names
          · have hunder := Outline.fields_underscored (Outline.ofJson_underscored limits levels)
              baseName
              [] [] entries entry hrest
            exact absurd (hname ▸ hunder) not_underscored_query
  | _ => cases hmem

/-- The root of a response hides none of the types beside it. -/
theorem held_rootType (limits : Limits) (data : Json) (baseName : String) :
    Outline.Held (Entries.put (Outline.shared limits data baseName).2 "Query"
        (rootType data (Outline.shared limits data baseName)))
      (Outline.shared limits data baseName).2 := by
  refine Outline.held_put (Outline.distinct_shared limits data baseName) ?_
  intro entry hentry hname
  obtain ⟨entries, levels, rfl, hlevels, rfl⟩ := object_of_query hentry hname
  rw [rootType_object hlevels]
  rfl

/-- No two object types of a response have one name. Names are made of keys, and
different keys can give one name. -/
def NamesApart (data : Json) (method path : String) : Prop :=
  Entries.Distinct (Outline.ofResponse {} data (TypeName.derive (Text.upper method) path)).2

end Schema

end JsonSelection
