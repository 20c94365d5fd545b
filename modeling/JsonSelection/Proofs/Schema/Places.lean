import JsonSelection.Proofs.Schema.Outline

/-!
# Places

Inference walks no object whose type name is taken: the name stands for the type
that it was given first. The objects that are walked are the places of a value.

## What this module delivers

- `Outline.Place`, `Outline.places`: the places of a value, in the order in
  which they are walked.
- `Outline.places_distinct`: no two places have one name.
- `Outline.places_outlined`: the types of places are among those of the outline.
- `Outline.places_follows`: they are all of them as long as the names in the
  outline are apart.
- `Inference.inferType_eq_places`: whatever its names are, inference registers
  the types of the places of a value.

The walk is told by the names that are taken, and not by the registry itself.
This is what makes it possible to speak of the places of two values without
their registries.
-/

set_option autoImplicit false

namespace JsonSelection

namespace Outline

open Inference

/-- An object that gets a type of its own, with the conflicts in it and the
levels below it. -/
structure Place where
  typeName : String
  conflicts : List String
  levels : Nat
  entries : Entries Json

/-- The type of a place. -/
def Place.type (limits : Limits) (place : Place) : NamedType :=
  ⟨place.typeName,
    ownFields (ofJson limits place.levels) place.entries place.typeName place.conflicts, false⟩

/-- The types of places under their names. -/
def registered (limits : Limits) (places : List Place) : Registry :=
  places.map fun place => (place.typeName, place.type limits)

/-- The places of a value below an object or a list, given the names that are
taken. -/
abbrev Visit := Json → String → List String → List String → List Place

/-- The places below the fields of an object, in the order of the entries. Names
that are taken by one entry are taken for those behind it. -/
def fieldPlaces (visit : Visit) (typeName : String) (conflicts : List String) :
    List String → Entries Json → List String → List Place
  | _, [], _ => []
  | used, (key, value) :: rest, taken =>
      let name := FieldName.fresh used (FieldName.sanitize key)
      if conflicts.contains key then fieldPlaces visit typeName conflicts
        (used ++ [name]) rest taken
      else
        let first := visit value (typeName ++ "_" ++ name) (conflictsBelow conflicts key) taken
        first ++ fieldPlaces visit typeName conflicts (used ++ [name]) rest
          (taken ++ first.map Place.typeName)

/-- The places of a value. A list has the places of the value that stands for
its elements. -/
def places (limits : Limits) : Nat → Visit
  | 0, _, _, _, _ => []
  | levels + 1, value, typeName, conflicts, taken =>
      match value with
      | .arr items =>
          if items.isEmpty || Sample.isMixed limits items then []
          else
            let (item, conflicts) := representative limits levels items
            places limits levels item (typeName ++ "_Item") conflicts taken
      | .obj entries =>
          if taken.contains typeName then []
          else
            ⟨typeName, conflicts, levels, entries⟩ ::
              fieldPlaces (places limits levels) typeName conflicts [] entries (taken ++ [typeName])
      | _ => []

/-- A mixed list has no places. -/
theorem places_of_mixed {limits : Limits} {items : List Json}
    (h : Sample.isMixed limits items = true) (levels : Nat) (typeName : String)
    (conflicts taken : List String) :
    places limits levels (.arr items) typeName conflicts taken = [] := by
  cases levels with
  | zero => rfl
  | succ levels => simp only [places, h, Bool.or_true, if_true]

theorem keys_registered (limits : Limits) (places : List Place) :
    Entries.keys (registered limits places) = places.map Place.typeName :=
  Entries.keys_map places Place.typeName (Place.type limits)

theorem registered_append (limits : Limits) (places others : List Place) :
    registered limits (places ++ others) = registered limits places ++ registered limits others :=
  List.map_append

theorem mem_registered_iff {limits : Limits} {places : List Place} {entry : String × NamedType} :
    entry ∈ registered limits places ↔
      ∃ place ∈ places, (place.typeName, place.type limits) = entry :=
  List.mem_map

/-! ### The names of places

Each step of the walk hands the names of the places before it to the next one. -/

/-- Names that are apart stay apart with the names of the places of a value. So
no place has a name that is taken. -/
def Fresh (visit : Visit) : Prop :=
  ∀ ⦃value typeName conflicts taken⦄, taken.Nodup →
    (taken ++ (visit value typeName conflicts taken).map Place.typeName).Nodup

theorem fieldPlaces_fresh {visit : Visit} (hvisit : Fresh visit) (typeName : String)
    (conflicts used : List String) (entries : Entries Json) {taken : List String}
    (h : taken.Nodup) :
    (taken ++ (fieldPlaces visit typeName conflicts used entries
      taken).map Place.typeName).Nodup := by
  induction entries generalizing used taken with
  | nil => rwa [fieldPlaces, List.map_nil, List.append_nil]
  | cons entry rest ih =>
      obtain ⟨key, value⟩ := entry
      simp only [fieldPlaces]
      split
      · exact ih _ h
      · -- the names of the first entry are taken when the rest is visited
        rw [List.map_append, ← List.append_assoc]
        exact ih _ (hvisit h)

theorem places_fresh (limits : Limits) (levels : Nat) : Fresh (places limits levels) := by
  induction levels with
  | zero =>
      intro value typeName conflicts taken h
      rwa [places, List.map_nil, List.append_nil]
  | succ levels ih =>
      intro value typeName conflicts taken h
      cases value with
      | arr items =>
          simp only [places]
          split
          · rwa [List.map_nil, List.append_nil]
          · exact ih h
      | obj entries =>
          simp only [places]
          split
          · rwa [List.map_nil, List.append_nil]
          · next htaken =>
              -- a place that is taken ends the walk, so the name is a new one here
              have hnew : typeName ∉ taken := by simpa using htaken
              have hnext : (taken ++ [typeName]).Nodup :=
                by
                refine List.nodup_append.mpr ⟨h, List.pairwise_singleton _ typeName, ?_⟩
                rintro name hname other hother rfl
                exact hnew (List.mem_singleton.mp hother ▸ hname)
              have hfields := fieldPlaces_fresh ih typeName conflicts [] entries hnext
              rwa [List.append_assoc, List.singleton_append] at hfields
      | _ => simpa only [places, List.map_nil, List.append_nil] using h

/-- No two places have one name. -/
theorem places_distinct (limits : Limits) (levels : Nat) (value : Json) (typeName : String)
    (conflicts : List String) :
    Entries.Distinct (registered limits (places limits levels value typeName conflicts [])) := by
  have hfresh :
      ([] ++ (places limits levels value typeName conflicts []).map Place.typeName).Nodup :=
    places_fresh limits levels List.nodup_nil
  rwa [List.nil_append, ← keys_registered limits] at hfresh

/-! ### Places and outlines -/

/-- The types of the places of a value are among those that an outline lists. -/
def Outlines (limits : Limits) (outline : Child) (visit : Visit) : Prop :=
  ∀ ⦃value typeName conflicts taken place⦄, place ∈ visit value typeName conflicts taken →
    (place.typeName, place.type limits) ∈ (outline value typeName conflicts).2

theorem fieldPlaces_outlined {limits : Limits} {outline : Child} {visit : Visit}
    (hvisit : Outlines limits outline visit) {typeName : String} {conflicts : List String}
    (used : List String) (entries : Entries Json) {taken : List String} {place : Place}
    (h : place ∈ fieldPlaces visit typeName conflicts used entries taken) :
    (place.typeName, place.type limits) ∈ (fields outline typeName conflicts used entries).2 := by
  induction entries generalizing used taken with
  | nil => cases h
  | cons entry rest ih =>
      obtain ⟨key, value⟩ := entry
      simp only [fieldPlaces] at h
      simp only [fields]
      split at h
      · next hconflict =>
          rw [if_pos hconflict]
          exact ih _ h
      · next hconflict =>
          rw [if_neg hconflict]
          -- a place is one of the first entry or one of the rest
          rcases List.mem_append.mp h with hfirst | hrest
          · exact List.mem_append_left _ (hvisit hfirst)
          · exact List.mem_append_right _ (ih _ hrest)

theorem places_outlined (limits : Limits) (levels : Nat) :
    Outlines limits (ofJson limits levels) (places limits levels) := by
  induction levels with
  | zero =>
      intro value typeName conflicts taken place h
      cases h
  | succ levels ih =>
      intro value typeName conflicts taken place h
      cases value with
      | arr items =>
          simp only [places] at h
          split at h
          · cases h
          · next hitems =>
              -- only lists of one kind that are not empty have places
              rw [Bool.or_eq_true, not_or, List.isEmpty_iff, Bool.not_eq_true] at hitems
              rw [ofJson, listType_of_uniform hitems.1 hitems.2]
              exact ih h
      | obj entries =>
          simp only [places] at h
          split at h
          · cases h
          · rw [ofJson, objectType_eq_cons]
            rcases List.mem_cons.mp h with rfl | hrest
            · exact List.mem_cons_self
            · exact List.mem_cons_of_mem _ (fieldPlaces_outlined ih [] entries hrest)
      | _ => cases h

/-- A visit meets all types of an outline when their names are apart and none of
them is taken. -/
def Follows (limits : Limits) (outline : Child) (visit : Visit) : Prop :=
  ∀ ⦃value typeName conflicts taken⦄,
    (taken ++ Entries.keys (outline value typeName conflicts).2).Nodup →
      registered limits (visit value typeName conflicts taken) =
        (outline value typeName conflicts).2

theorem fieldPlaces_follows {limits : Limits} {outline : Child} {visit : Visit}
    (hvisit : Follows limits outline visit) {typeName : String} {conflicts : List String}
    (used : List String) (entries : Entries Json) {taken : List String}
    (h : (taken ++ Entries.keys (fields outline typeName conflicts used entries).2).Nodup) :
    registered limits (fieldPlaces visit typeName conflicts used entries taken) =
      (fields outline typeName conflicts used entries).2 := by
  induction entries generalizing used taken with
  | nil => rfl
  | cons entry rest ih =>
      obtain ⟨key, value⟩ := entry
      simp only [fields, fieldPlaces] at h ⊢
      split at h
      · next hconflict =>
          rw [if_pos hconflict, if_pos hconflict]
          exact ih _ h
      · next hconflict =>
          rw [Entries.keys_append, ← List.append_assoc] at h
          -- the types of the first entry are all visited, so their names are the taken
          -- ones of the rest
          have hfirst := hvisit (List.nodup_append.mp h).1
          rw [if_neg hconflict, if_neg hconflict, registered_append, hfirst]
          rw [← hfirst, keys_registered] at h
          rw [ih _ h]

theorem places_follows (limits : Limits) (levels : Nat) :
    Follows limits (ofJson limits levels) (places limits levels) := by
  induction levels with
  | zero =>
      intro value typeName conflicts taken h
      cases value <;> rfl
  | succ levels ih =>
      intro value typeName conflicts taken h
      cases value with
      | arr items =>
          simp only [places]
          split
          · next hitems =>
              rcases (Bool.or_eq_true _ _).mp hitems with hempty | hmixed
              · rw [List.isEmpty_iff.mp hempty]
                rfl
              · rw [ofJson, listType_of_mixed hmixed]
                rfl
          · next hitems =>
              rw [Bool.or_eq_true, not_or, List.isEmpty_iff, Bool.not_eq_true] at hitems
              rw [ofJson, listType_of_uniform hitems.1 hitems.2] at h ⊢
              exact ih h
      | obj entries =>
          rw [ofJson, objectType_eq_cons] at h ⊢
          -- with names that are apart no place is taken, so the walk never ends
          -- early
          have hnew : typeName ∉ taken := fun hmem =>
            (List.nodup_append.mp h).2.2 typeName hmem typeName List.mem_cons_self rfl
          have hcontains : ¬ taken.contains typeName = true :=
            fun hmem => hnew (List.contains_iff_mem.mp hmem)
          have hnext : (taken ++ [typeName] ++ Entries.keys
              (fields (ofJson limits levels) typeName conflicts [] entries).2).Nodup := by
            rwa [List.append_assoc, List.singleton_append]
          have hfields := fieldPlaces_follows ih [] entries hnext
          simp only [places, if_neg hcontains]
          exact congrArg _ hfields
      | _ => rfl

end Outline

namespace Inference

open Outline (Place Visit fieldPlaces places registered keys_registered registered_append)

/-! ### Inference registers places

The name of an object is reserved before its fields are walked, and its type is
put in that position afterwards, so the types stand in the order of the places. -/

/-- An inference gives the type of an outline and adds the types of the places
of a visit. -/
def Registers (limits : Limits) (child : Child) (outline : Outline.Child) (visit : Visit) : Prop :=
  ∀ value typeName conflicts (types : Registry), child value typeName conflicts types =
    .ok ((outline value typeName conflicts).1,
      types ++ registered limits (visit value typeName conflicts (Entries.keys types)))

theorem fields_eq_places {limits : Limits} {child : Child} {outline : Outline.Child} {visit : Visit}
    (hchild : Registers limits child outline visit) (typeName : String)
    (conflicts used : List String) (entries : Entries Json) (types : Registry) :
    fields child typeName conflicts used entries types =
      .ok ((Outline.fields outline typeName conflicts used entries).1,
        types ++ registered limits
          (fieldPlaces visit typeName conflicts used entries (Entries.keys types))) := by
  induction entries generalizing used types with
  | nil => rw [fields, Outline.fields, fieldPlaces, registered, List.map_nil, List.append_nil]
  | cons entry rest ih =>
      obtain ⟨key, value⟩ := entry
      simp only [fields, Outline.fields, fieldPlaces]
      split
      · rw [ih]
        rfl
      · rw [hchild, Outcome.ok_bind]
        simp only [ih, Outcome.ok_bind, Entries.keys_append, keys_registered, registered_append,
          List.append_assoc]
        rfl

theorem objectType_eq_places {limits : Limits} {levels : Nat}
    (hchild : Registers limits (inferType limits levels) (Outline.ofJson limits levels)
      (places limits levels))
    (entries : Entries Json) (typeName : String) (conflicts : List String) (types : Registry) :
    objectType (inferType limits levels) entries typeName conflicts types =
      .ok (.named typeName, types ++ registered limits
        (places limits (levels + 1) (.obj entries) typeName conflicts (Entries.keys types))) := by
  by_cases htaken : typeName ∈ Entries.keys types
  · -- the object is not walked: its name stands for the type it was given first
    have hhas : types.has typeName = true := (Entries.has_iff_mem_keys types typeName).mpr htaken
    have hcontains : (Entries.keys types).contains typeName = true :=
      List.contains_iff_mem.mpr htaken
    simp only [objectType, if_pos hhas, places, if_pos hcontains, registered, List.map_nil,
      List.append_nil]
  · have hhas := (Entries.has_eq_false_iff types typeName).mpr htaken
    have hcontains : ¬ (Entries.keys types).contains typeName = true :=
      fun h => htaken (List.contains_iff_mem.mp h)
    have hplaces : places limits (levels + 1) (.obj entries) typeName conflicts
      (Entries.keys types) =
        ⟨typeName, conflicts, levels, entries⟩ ::
          fieldPlaces (places limits levels) typeName conflicts [] entries
            (Entries.keys types ++ [typeName]) := by
      rw [places, if_neg hcontains]
    rw [hplaces]
    -- a new name is reserved before the fields are walked, and keeps its position
    cases entries with
    | nil =>
        simp only [objectType, hhas, Entries.put_of_not_mem _ htaken]
        rfl
    | cons entry rest =>
        have hkeys : Entries.keys (types ++ [(typeName, (⟨typeName, [], false⟩ : NamedType))]) =
            Entries.keys types ++ [typeName] :=
          Entries.keys_append types _
        simp only [objectType, hhas, Entries.put_of_not_mem _ htaken,
          fields_eq_places hchild, hkeys, Outcome.ok_bind]
        rw [List.append_assoc, List.singleton_append, Entries.put_append_cons htaken]
        rfl

theorem listType_eq_places {limits : Limits} (hunit : limits.charsPerUnit ≠ 0) {levels : Nat}
    (hchild : Registers limits (inferType limits levels) (Outline.ofJson limits levels)
      (places limits levels))
    (items : List Json) (typeName : String) (conflicts : List String) (types : Registry) :
    listType limits levels (inferType limits levels) items typeName types =
      .ok ((Outline.listType limits levels (Outline.ofJson limits levels) items typeName).1,
        types ++ registered limits
          (places limits (levels + 1) (.arr items) typeName conflicts (Entries.keys types))) := by
  cases items with
  | nil => simp [listType, Outline.listType, places, registered]
  | cons item rest =>
      simp only [listType, Outline.listType, places, List.isEmpty_cons, Bool.false_or]
      split
      · rw [registered, List.map_nil, List.append_nil]
      · obtain ⟨page, hpage⟩ := Cost.pageSize_succeeds hunit levels (item :: rest)
        simp only [hchild _ _ _ types, Outcome.ok_bind, hpage]
        rfl

/-- Inference gives the type of the outline of a value and registers the types
of its places. -/
theorem inferType_eq_places {limits : Limits} (hunit : limits.charsPerUnit ≠ 0) (levels : Nat) :
    Registers limits (inferType limits levels) (Outline.ofJson limits levels)
    (places limits levels) := by
  induction levels with
  | zero =>
      intro value typeName conflicts types
      cases value <;> simp [inferType, Outline.ofJson, places, registered]
  | succ levels ih =>
      intro value typeName conflicts types
      cases value with
      | arr items => exact listType_eq_places hunit ih items typeName conflicts types
      | obj entries =>
          have hobject := objectType_eq_places ih entries typeName conflicts types
          rw [inferType, hobject, Outline.ofJson, Outline.objectType_eq_cons]
      | _ => simp [inferType, Outline.ofJson, places, registered]

end Inference

end JsonSelection
