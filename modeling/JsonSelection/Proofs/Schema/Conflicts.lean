import JsonSelection.Proofs.Sample.Conflicts
import JsonSelection.Proofs.Schema.Covering

/-!
# Conflict flags

A field of the type of some samples is flagged when the dotted path of its key
path is that of a key path at which the samples split. Keys with points in them
can make two key paths one dotted path, and then the conflict of one flags the
field of the other as well. Apart from the flags a conflict changes nothing: a
field without flag has the type of the values at its own key path.

## What this module delivers

- `Registry.Leads`: the fields that are reached from a type by key paths.
- `Outline.Sampled`: the object that stands for some samples, in a registry that
  holds its outline.
- `Outline.Sampled.reports`: what a field says about the values at its key path.
- `Outline.Sampled.exposes`: every key path has a field, unless a key before its
  end is flagged for another one.
- `Outline.Sampled.exposes_exactly`: flags are exact if no key at which the
  samples split has a point.
- `Inference.conflict_iff`: all of it, for the list of samples that inference is
  given.

The conflicts that a type is made with may be more than those of its samples,
because a dotted path is split again at every key on the way down.
-/

set_option autoImplicit false

namespace JsonSelection

namespace Inference

/-! ### Paths below a key

A conflict is one below a key when its dotted path begins with the key and a
point. -/

theorem below?_eq_some_iff {key path rest : String} :
    below? key path = some rest ↔ path = key ++ "." ++ rest := by
  rw [below?]
  constructor
  · intro h
    split at h
    · next hfront =>
        obtain ⟨after, hafter⟩ := List.isPrefixOf_iff_prefix.mp hfront
        obtain rfl := Option.some.inj h
        rw [← String.toList_inj, ← hafter, List.drop_left]
        simp
    · cases h
  · rintro rfl
    -- the front that is cut off is as long as the key with its point
    have hlist : (key ++ "." ++ rest).toList = (key ++ ".").toList ++ rest.toList :=
      String.toList_append
    have hfront : (key ++ ".").toList.isPrefixOf (key ++ "." ++ rest).toList = true := by
      rw [hlist]
      exact List.isPrefixOf_iff_prefix.mpr (List.prefix_append _ _)
    rw [if_pos hfront, hlist, List.drop_left, String.ofList_toList]

/-- The conflicts below a key are those whose dotted path begins with it. -/
theorem mem_conflictsBelow_iff {conflicts : List String} {key rest : String} :
    rest ∈ conflictsBelow conflicts key ↔ key ++ "." ++ rest ∈ conflicts := by
  rw [conflictsBelow, List.mem_filterMap]
  constructor
  · rintro ⟨path, hpath, hbelow⟩
    rwa [← below?_eq_some_iff.mp hbelow]
  · intro h
    exact ⟨_, h, below?_eq_some_iff.mpr rfl⟩

end Inference

namespace Registry

/-- A field that is reached from a type by a key path. On the way there each key
has a field with an object type. -/
inductive Leads (types : Registry) : TypeRef → List String → Field → Prop where
  | here {name key : String} {field : Field} : field ∈ (types.typeNamed name).fields →
      field.reader = .member key → Leads types (.named name) [key] field
  | inside {name key : String} {path : List String} {next field : Field} :
      next ∈ (types.typeNamed name).fields → next.reader = .member key →
        Leads types next.type path field → Leads types (.named name) (key :: path) field

theorem Leads.ne_nil {types : Registry} {type : TypeRef} {path : List String} {field : Field}
    (h : types.Leads type path field) : path ≠ [] := by
  cases h with
  | here _ _ => exact List.cons_ne_nil _ _
  | inside _ _ _ => exact List.cons_ne_nil _ _

/-- Only object types have fields. -/
theorem Leads.named {types : Registry} {type : TypeRef} {path : List String} {field : Field}
    (h : types.Leads type path field) : ∃ name, type = .named name := by
  cases h with
  | here _ _ => exact ⟨_, rfl⟩
  | inside _ _ _ => exact ⟨_, rfl⟩

end Registry

namespace Outline

open Inference Sample

/-- Conflicts below a value do not show in its own type. -/
theorem ofJson_type_eq (limits : Limits) (levels : Nat) (value : Json) (typeName : String)
    (conflicts conflicts' : List String) :
    (ofJson limits levels value typeName conflicts).1 =
      (ofJson limits levels value typeName conflicts').1 := by
  cases levels with
  | zero => cases value <;> rfl
  | succ levels =>
      cases value with
      | obj entries => rw [ofJson, ofJson, objectType_eq_cons, objectType_eq_cons]
      | _ => rfl

/-- The object that stands for some samples, in a registry that holds its
outline. The conflicts that it is typed with are at least those of the
samples. -/
structure Sampled (limits : Limits) (types : Registry) (levels : Nat)
    (objects : List (Entries Json)) (typeName : String) (conflicts : List String) : Prop where
  formed : ∀ entries ∈ objects, (Json.obj entries).WellFormed
  held : Held types (ofJson limits levels
    (.obj (merge limits.majorityThreshold levels objects).representative) typeName conflicts).2
  known : ∀ path, ConflictsAt limits.majorityThreshold levels objects path →
    ".".intercalate path ∈ conflicts

section Sampled

variable {limits : Limits} {types : Registry} {levels : Nat} {objects : List (Entries Json)}
  {typeName : String} {conflicts : List String}

/-- The value that stands for the observations under a key. The key itself only
shows in conflicts, so it can be left out. -/
def standIn (limits : Limits) (levels : Nat) (values : List Json) : Json :=
  (represent limits.majorityThreshold (merge limits.majorityThreshold levels) "" values).1

theorem represent_eq_standIn (limits : Limits) (levels : Nat) (key : String) (values : List Json) :
    (represent limits.majorityThreshold (merge limits.majorityThreshold levels) key values).1 =
      standIn limits levels values := by
  simp only [standIn, represent]
  split
  · rfl
  · rfl
  · split <;> rfl
  · rfl
  · rfl

/-- The field of a key is raw JSON if the key conflicts, and else of the type of
what stands for the observations under it. -/
theorem Sampled.field (h : Sampled limits types (levels + 1) objects typeName conflicts)
    {field : Field} (hfield : field ∈ (types.typeNamed typeName).fields) {key : String}
    (hreader : field.reader = .member key) :
    ∃ name, (key, standIn limits levels (observations objects key), name) ∈
        named [] (merge limits.majorityThreshold (levels + 1) objects).representative ∧
      field = fieldOf (ofJson limits levels) typeName conflicts key
        (standIn limits levels (observations objects key)) name := by
  have hheld := h.held
  rw [ofJson] at hheld
  rw [hheld.ownFields] at hfield
  -- an empty representative has a field that reads no key
  have hne : (merge limits.majorityThreshold (levels + 1) objects).representative ≠ [] := by
    intro hempty
    rw [hempty] at hfield
    rw [List.mem_singleton.mp hfield] at hreader
    cases hreader
  obtain ⟨key', value, name, hnamed, rfl⟩ := (mem_ownFields_iff hne).mp hfield
  rw [reader_fieldOf] at hreader
  obtain rfl := Reader.member.inj hreader
  have hvalue : value = standIn limits levels (observations objects key') := by
    have hmem := mem_of_named hnamed
    simp only [merge, List.map_map] at hmem
    obtain ⟨key, -, heq⟩ := List.mem_map.mp hmem
    obtain ⟨rfl, rfl⟩ := Prod.mk.inj heq
    exact represent_eq_standIn limits levels key _
  rw [hvalue] at hnamed
  rw [hvalue]
  exact ⟨name, hnamed, rfl⟩

/-- Every key that the samples hold has a field. -/
theorem Sampled.exists_field (h : Sampled limits types (levels + 1) objects typeName conflicts)
    {key : String} (hkey : key ∈ keysSeen objects) :
    ∃ field ∈ (types.typeNamed typeName).fields, field.reader = .member key := by
  have hheld := h.held
  rw [ofJson] at hheld
  have hmem : (key, standIn limits levels (observations objects key)) ∈
      (merge limits.majorityThreshold (levels + 1) objects).representative := by
    simp only [merge, List.map_map]
    refine List.mem_map.mpr ⟨key, hkey, ?_⟩
    exact Prod.ext rfl (represent_eq_standIn limits levels key _)
  obtain ⟨name, hnamed⟩ := exists_named [] hmem
  rw [hheld.ownFields]
  refine ⟨_, (mem_ownFields_iff (List.ne_nil_of_mem hmem)).mpr ⟨_, _, name, hnamed, rfl⟩,
    ?_⟩
  exact reader_fieldOf _ _ _ _ _ _

/-- A key without conflict whose field is of an object type stands for objects. -/
theorem Sampled.won_object (h : Sampled limits types (levels + 1) objects typeName conflicts)
    {key name next : String} (hkey : key ∉ conflicts)
    (htype : (ofJson limits levels (standIn limits levels (observations objects key)) name
      (conflictsBelow conflicts key)).1 = .named next) :
    verdict limits.majorityThreshold (observations objects key) = .won .object := by
  -- a split would be known as a conflict
  have hsplits : ¬ Splits limits.majorityThreshold (observations objects key) := by
    intro hsplits
    have hknown := h.known [key] (.here hsplits)
    rw [String.intercalate_singleton] at hknown
    exact hkey hknown
  obtain ⟨entries, hentries⟩ : ∃ entries, standIn limits levels (observations objects key) =
      .obj entries := by
    cases levels with
    | zero =>
        generalize standIn limits 0 (observations objects key) = value at htype
        cases value <;> cases htype
    | succ levels => exact object_of_named (congrArg TypeRef.unpaged htype)
  exact won_object_of_represent hsplits hentries

/-- Objects under a key without conflict are merged and typed in turn. -/
theorem Sampled.inside (h : Sampled limits types (levels + 1) objects typeName conflicts)
    {key name : String}
    (hnamed : (key, standIn limits levels (observations objects key), name) ∈
      named [] (merge limits.majorityThreshold (levels + 1) objects).representative)
    (hkey : key ∉ conflicts)
    (hwon : verdict limits.majorityThreshold (observations objects key) = .won .object) :
    standIn limits levels (observations objects key) =
        .obj (merge limits.majorityThreshold levels (below objects key)).representative ∧
      Sampled limits types levels (below objects key) (typeName ++ "_" ++ name)
        (conflictsBelow conflicts key) := by
  have hmerged : standIn limits levels (observations objects key) =
      .obj (merge limits.majorityThreshold levels (below objects key)).representative :=
    represent_object (observations_wellFormed h.formed key) hwon
  refine ⟨hmerged, entries_wellFormed (observations_wellFormed h.formed key), ?_, ?_⟩
  · have hheld := h.held
    rw [ofJson] at hheld
    rw [← hmerged]
    exact hheld.entry hnamed hkey
  · intro path hpath
    rw [mem_conflictsBelow_iff, ← String.intercalate_cons_of_ne_nil hpath.ne_nil]
    exact h.known (key :: path) (.inside hwon hpath)

/-- What a field says about the values at its key path. The flag speaks of the
dotted path of the key path, all the rest of the key path itself. -/
structure Reports (limits : Limits) (levels : Nat) (objects : List (Entries Json))
    (conflicts : List String) (path : List String) (field : Field) : Prop where
  conflict : field.conflict = true ↔ ".".intercalate path ∈ conflicts
  splits : ConflictsAt limits.majorityThreshold levels objects path ↔
    Splits limits.majorityThreshold (observedAt (objects.map Json.obj) path)
  raw : field.conflict = true → field.type = .json
  typed : field.conflict = false → ∃ name, field.type = (ofJson limits (levels - path.length)
    (standIn limits (levels - path.length) (observedAt (objects.map Json.obj) path)) name []).1

/-- The field of a key reports on the observations under it. -/
theorem Sampled.reports_key (h : Sampled limits types (levels + 1) objects typeName conflicts)
    {field : Field} (hfield : field ∈ (types.typeNamed typeName).fields) {key : String}
    (hreader : field.reader = .member key) :
    Reports limits (levels + 1) objects conflicts [key] field := by
  obtain ⟨name, -, rfl⟩ := h.field hfield hreader
  have hvalues := observedAt_singleton objects key
  have hsplits : ConflictsAt limits.majorityThreshold (levels + 1) objects [key] ↔
      Splits limits.majorityThreshold (observations objects key) := by
    constructor
    · intro hconflicts
      cases hconflicts with
      | here hsplits => exact hsplits
      | inside _ hnone => exact absurd rfl hnone.ne_nil
    · exact .here
  -- the flag shows which of the two kinds of fields the key has
  by_cases hkey : key ∈ conflicts
  · rw [fieldOf_of_mem hkey]
    refine ⟨?_, hvalues ▸ hsplits, fun _ => rfl, fun hplain => by cases hplain⟩
    rw [String.intercalate_singleton]
    exact iff_of_true rfl hkey
  · rw [fieldOf_of_not_mem hkey]
    refine ⟨?_, hvalues ▸ hsplits, fun hconflict => (by cases hconflict), ?_⟩
    · rw [String.intercalate_singleton]
      exact iff_of_false (by simp [typedField]) hkey
    · rw [hvalues]
      exact fun _ => ⟨_, ofJson_type_eq _ _ _ _ _ _⟩

/-- What a field says about the values at a path below a key, it says about
those at the whole path. -/
theorem Reports.cons {key : String} {path : List String} {field : Field} (hne : path ≠ [])
    (hwon : verdict limits.majorityThreshold (observations objects key) = .won .object)
    (h : Reports limits levels (below objects key) (conflictsBelow conflicts key) path field) :
    Reports limits (levels + 1) objects conflicts (key :: path) field := by
  have hdepth : levels + 1 - (key :: path).length = levels - path.length := by
    rw [List.length_cons]
    omega
  refine ⟨?_, ?_, h.raw, ?_⟩
  · rw [h.conflict, mem_conflictsBelow_iff, String.intercalate_cons_of_ne_nil hne]
  · rw [conflictsAt_cons_iff hne hwon, h.splits, observedAt_below hne]
  · rw [hdepth, observedAt_below hne]
    exact h.typed

/-- The type of an object is an object type only above the depth cap. -/
theorem named_of_object {entries : Entries Json} {name : String}
    (h : (ofJson limits levels (.obj entries) typeName conflicts).1 = .named name) :
    name = typeName ∧ ∃ rest, levels = rest + 1 := by
  cases levels with
  | zero => cases h
  | succ levels =>
      rw [ofJson, objectType_eq_cons] at h
      exact ⟨(TypeRef.named.inj h).symm, levels, rfl⟩

/-- Every field that is reached reports on the values at its key path. -/
theorem Sampled.reports {type : TypeRef} {path : List String} {field : Field}
    (hleads : types.Leads type path field)
    (h : Sampled limits types levels objects typeName conflicts)
    (htype : (ofJson limits levels
      (.obj (merge limits.majorityThreshold levels objects).representative) typeName conflicts).1 =
        type) : Reports limits levels objects conflicts path field := by
  induction hleads generalizing levels objects typeName conflicts with
  | here hfield hreader =>
      obtain ⟨rfl, levels, rfl⟩ := named_of_object htype
      exact h.reports_key hfield hreader
  | @inside name key path next field hnext hreader hleads ih =>
      obtain ⟨rfl, levels, rfl⟩ := named_of_object htype
      obtain ⟨fieldName, hnamed, rfl⟩ := h.field hnext hreader
      by_cases hkey : key ∈ conflicts
      · -- raw JSON has no fields to go on to
        rw [fieldOf_of_mem hkey] at hleads
        cases hleads
      · rw [fieldOf_of_not_mem hkey] at hleads ih
        obtain ⟨inner, hinner⟩ := hleads.named
        have hwon := h.won_object hkey hinner
        obtain ⟨hmerged, hsampled⟩ := h.inside hnamed hkey hwon
        apply Reports.cons hleads.ne_nil hwon
        apply ih hsampled
        rw [← hmerged]
        rfl

/-- A key path of the samples has a field, unless one of the keys before its end
conflicts by its dotted path. -/
theorem Sampled.exposes {path : List String}
    (hpasses : Passes limits.majorityThreshold levels objects path)
    (h : Sampled limits types levels objects typeName conflicts) :
    (∃ field, types.Leads (ofJson limits levels
        (.obj (merge limits.majorityThreshold levels objects).representative) typeName conflicts).1
        path field) ∨
      ∃ front rest, path = front ++ rest ∧ front ≠ [] ∧ rest ≠ [] ∧
        ".".intercalate front ∈ conflicts := by
  induction hpasses generalizing typeName conflicts with
  | @here levels objects key hkey =>
      obtain ⟨field, hfield, hreader⟩ := h.exists_field hkey
      rw [ofJson, objectType_eq_cons]
      exact Or.inl ⟨field, .here hfield hreader⟩
  | @inside levels objects key path hwon hpasses ih =>
      obtain ⟨next, hnext, hreader⟩ := h.exists_field (mem_keysSeen_of_won hwon)
      obtain ⟨name, hnamed, hfield⟩ := h.field hnext hreader
      rw [ofJson, objectType_eq_cons]
      by_cases hkey : key ∈ conflicts
      · -- the field of the key is raw JSON and hides what is below
        refine Or.inr ⟨[key], path, rfl, List.cons_ne_nil _ _, hpasses.ne_nil, ?_⟩
        rwa [String.intercalate_singleton]
      · obtain ⟨hmerged, hsampled⟩ := h.inside hnamed hkey hwon
        rcases ih hsampled with ⟨field, hleads⟩ |
          ⟨front, rest, rfl, hfront, hrest, hconflict⟩
        · refine Or.inl ⟨field, .inside hnext hreader ?_⟩
          rw [hfield, fieldOf_of_not_mem hkey, hmerged, ofJson_type_eq]
          exact hleads
        · refine Or.inr ⟨key :: front, rest, rfl, List.cons_ne_nil _ _, hrest, ?_⟩
          rwa [String.intercalate_cons_of_ne_nil hfront, ← mem_conflictsBelow_iff]

/-- If no key at which the samples split has a point, the field of a path
without points is there, and it is flagged exactly if the values at its path
split. -/
theorem Sampled.exposes_exactly
    (h : Sampled limits types levels objects typeName
      (merge limits.majorityThreshold levels objects).conflicts)
    (hpointless : ∀ other, ConflictsAt limits.majorityThreshold levels objects other →
      ∀ key ∈ other, '.' ∉ key.toList)
    {path : List String} (hpasses : Passes limits.majorityThreshold levels objects path)
    (hpath : ∀ key ∈ path, '.' ∉ key.toList) :
    ∃ field, types.Leads (ofJson limits levels
        (.obj (merge limits.majorityThreshold levels objects).representative) typeName
          (merge limits.majorityThreshold levels objects).conflicts).1 path field ∧
      (field.conflict = true ↔
        Splits limits.majorityThreshold (observedAt (objects.map Json.obj) path)) := by
  rcases h.exposes hpasses with ⟨field, hleads⟩ |
    ⟨front, rest, rfl, hfront, hrest, hconflict⟩
  · obtain ⟨hconflict, hsplits, -, -⟩ := h.reports hleads rfl
    refine ⟨field, hleads, ?_⟩
    rw [hconflict, ← hsplits, mem_conflicts_iff]
    constructor
    · rintro ⟨other, hother, hdotted⟩
      have hsame := dotted_injective hother.ne_nil hpasses.ne_nil
        (hpointless other hother) hpath hdotted
      rwa [← hsame]
    · intro hconflicts
      exact ⟨path, hconflicts, rfl⟩
  · -- the front would conflict itself, but the path goes on behind it
    obtain ⟨other, hother, hdotted⟩ := mem_conflicts_iff.mp hconflict
    have hfrontPointless : ∀ key ∈ front, '.' ∉ key.toList :=
      fun key hkey => hpath key (List.mem_append_left rest hkey)
    have hsame := dotted_injective hother.ne_nil hfront (hpointless other hother)
      hfrontPointless hdotted
    rw [hsame] at hother
    exact absurd hother (hpasses.not_conflictsAt hrest)

end Sampled

/-! ### Lists of objects

Objects alone are not mixed, so the type of a list of them is that of what they
are merged to. -/

section Objects

variable {limits : Limits} {objects : List (Entries Json)}

theorem ofItems_objects (hsample : (objects.length : Int) ≤ limits.sampleSize) :
    ofItems limits (objects.map Json.obj) = objects.map Json.obj := by
  apply ofItems_of_length_le
  rwa [List.length_map]

/-- Objects alone are not mixed. -/
theorem isMixed_objects (limits : Limits) (objects : List (Entries Json)) :
    isMixed limits (objects.map Json.obj) = false := by
  have hkinds : ∀ kind ∈ kindsSeen (present (ofItems limits (objects.map Json.obj))),
      kind = Kind.object := by
    intro kind hkind
    obtain ⟨value, hvalue, rfl⟩ := mem_kindsSeen.mp hkind
    have hmem := List.mem_of_mem_take ((mem_present_iff _ _).mp hvalue).1
    obtain ⟨entries, -, rfl⟩ := List.mem_map.mp hmem
    rfl
  have hnodup : (kindsSeen (present (ofItems limits (objects.map Json.obj)))).Nodup :=
    nodup_eraseDups _
  rw [isMixed]
  cases hseen : kindsSeen (present (ofItems limits (objects.map Json.obj))) with
  | nil => rfl
  | cons first rest =>
      cases rest with
      | nil => rfl
      | cons second others =>
          -- two kinds would be the same one
          rw [hseen] at hkinds hnodup
          have hfirst := hkinds first List.mem_cons_self
          have hsecond := hkinds second (List.mem_cons_of_mem _ List.mem_cons_self)
          rw [hfirst, hsecond] at hnodup
          exact absurd List.mem_cons_self (List.nodup_cons.mp hnodup).1

theorem representative_objects (hsample : (objects.length : Int) ≤ limits.sampleSize)
    (hne : objects ≠ []) (levels : Nat) :
    representative limits levels (objects.map Json.obj) =
      (.obj (merge limits.majorityThreshold levels objects).representative,
        (merge limits.majorityThreshold levels objects).conflicts) := by
  have hitems : mergeItems limits levels (objects.map Json.obj) =
      some (merge limits.majorityThreshold levels objects) := by
    rw [mergeItems, ofItems_objects hsample, entries_map_obj]
    cases objects with
    | nil => exact absurd rfl hne
    | cons entries rest => rfl
  rw [representative, hitems]

/-- Inference gives a list of what stands for some objects, and registers the
outline of it. -/
theorem inferType_objects (hunit : limits.charsPerUnit ≠ 0)
    (hsample : (objects.length : Int) ≤ limits.sampleSize) (hne : objects ≠ []) (levels : Nat)
    {typeName : String}
    (hapart : Entries.Distinct (ofJson limits (levels + 1) (.arr (objects.map Json.obj))
      typeName []).2) :
    ∃ page types, inferType limits (levels + 1) (.arr (objects.map Json.obj)) typeName [] [] =
        .ok (.list (ofJson limits levels (.obj (merge limits.majorityThreshold levels
          objects).representative) (typeName ++ "_Item")
            (merge limits.majorityThreshold levels objects).conflicts).1 page, types) ∧
      Held types (ofJson limits levels (.obj (merge limits.majorityThreshold levels
        objects).representative) (typeName ++ "_Item")
          (merge limits.majorityThreshold levels objects).conflicts).2 := by
  have hitems : objects.map Json.obj ≠ [] := by simpa using hne
  have hlist := listType_of_uniform hitems (isMixed_objects limits objects) levels
    (ofJson limits levels)
    typeName
  rw [representative_objects hsample hne] at hlist
  have hinfer := inferType_eq_places hunit (levels + 1) (.arr (objects.map Json.obj)) typeName [] []
  have hplaces := places_follows limits (levels + 1) (show ([] ++ Entries.keys
    (ofJson limits (levels + 1) (.arr (objects.map Json.obj)) typeName []).2).Nodup from hapart)
  have hkeys : Entries.keys ([] : Registry) = [] := rfl
  rw [hkeys, hplaces, List.nil_append] at hinfer
  rw [ofJson, hlist] at hinfer hapart
  refine ⟨_, _, hinfer, ?_⟩
  intro entry hentry
  rw [held_self hapart hentry]

end Objects

end Outline

namespace Inference

open Outline Sample

/-- The fields that the type of some samples exposes are flagged by dotted
paths: a field is flagged if and only if the samples split at some key path with
the dotted path of its own. Where the samples split at its own key path it is
flagged, and without flag it has the type of the values at its own key path.
Every key path has a field, unless a key before its end is flagged for another
one. If no key at which the samples split has a point, flags are exact. -/
theorem conflict_iff {limits : Limits} (hunit : limits.charsPerUnit ≠ 0)
    {objects : List (Entries Json)} (hformed : ∀ entries ∈ objects,
      (Json.obj entries).WellFormed)
    (hsample : (objects.length : Int) ≤ limits.sampleSize) (levels : Nat) {typeName : String}
    (hapart : Entries.Distinct
      (ofJson limits (levels + 1) (.arr (objects.map Json.obj)) typeName []).2) :
    ∃ item page types, inferType limits (levels + 1)
      (.arr (objects.map Json.obj)) typeName [] [] =
        .ok (.list item page, types) ∧
      (∀ path field, types.Leads item path field →
        (ConflictsAt limits.majorityThreshold levels objects path ↔
          Splits limits.majorityThreshold (observedAt (objects.map Json.obj) path)) ∧
        (field.conflict = true ↔ ∃ other, ConflictsAt limits.majorityThreshold levels
          objects other ∧
          ".".intercalate other = ".".intercalate path) ∧
        (field.conflict = true → field.type = .json) ∧
        (field.conflict = false → ∃ name inside, inferType limits (levels - path.length)
          (standIn limits (levels - path.length) (observedAt (objects.map Json.obj) path)) name []
          [] =
            .ok (field.type, inside))) ∧
      (∀ path, Passes limits.majorityThreshold levels objects path →
        (∃ field, types.Leads item path field) ∨
          ∃ front rest other, path = front ++ rest ∧ front ≠ [] ∧ rest ≠ [] ∧
            ConflictsAt limits.majorityThreshold levels objects other ∧
            ".".intercalate other = ".".intercalate front) ∧
      ((∀ other, ConflictsAt limits.majorityThreshold levels objects other →
          ∀ key ∈ other, '.' ∉ key.toList) →
        ∀ path, Passes limits.majorityThreshold levels objects path →
          (∀ key ∈ path, '.' ∉ key.toList) →
          ∃ field, types.Leads item path field ∧ (field.conflict = true ↔
            Splits limits.majorityThreshold (observedAt (objects.map Json.obj) path))) := by
  by_cases hne : objects = []
  · -- nothing is observed, and the elements have no type of their own
    subst hne
    refine ⟨.json, some limits.maxListLimit, [], rfl, ?_, ?_, ?_⟩
    · intro path field hleads
      cases hleads
    · intro path hpasses
      exact absurd hpasses not_passes_nil
    · intro _ path hpasses
      exact absurd hpasses not_passes_nil
  · obtain ⟨page, types, hinfer, hheld⟩ := inferType_objects hunit hsample hne levels hapart
    have hsampled : Sampled limits types levels objects (typeName ++ "_Item")
        (merge limits.majorityThreshold levels objects).conflicts :=
      ⟨hformed, hheld, fun path hpath => mem_conflicts_iff.mpr ⟨path, hpath, rfl⟩⟩
    refine ⟨_, page, types, hinfer, ?_, ?_, ?_⟩
    · intro path field hleads
      obtain ⟨hconflict, hsplits, hraw, htyped⟩ := hsampled.reports hleads rfl
      refine ⟨hsplits, hconflict.trans mem_conflicts_iff, hraw, ?_⟩
      intro hplain
      obtain ⟨name, htype⟩ := htyped hplain
      exact ⟨name, _, by rw [htype]; exact inferType_eq_places hunit _ _ name [] []⟩
    · intro path hpasses
      rcases hsampled.exposes hpasses with hleads |
        ⟨front, rest, hpath, hfront, hrest, hconflict⟩
      · exact Or.inl hleads
      · obtain ⟨other, hother, hdotted⟩ := mem_conflicts_iff.mp hconflict
        exact Or.inr ⟨front, rest, other, hpath, hfront, hrest, hother, hdotted⟩
    · intro hpointless path hpasses hpath
      exact hsampled.exposes_exactly hpointless hpasses hpath

/-- Two samples that split under a key with a point, and agree at the path of
two keys that reads the same. -/
def pointed : List (Entries Json) :=
  [[("a.b", .int 1), ("a", .obj [("b", .int 1)])], [("a.b", .str "x"), ("a", .obj [("b", .int 2)])]]

/-- The types of these samples. -/
def pointedTypes : Registry :=
  [("T_Item", ⟨"T_Item", [conflictField "a_b" "a.b", typedField "a" "a" (.named "T_Item_a")],
    false⟩),
    ("T_Item_a", ⟨"T_Item_a", [conflictField "b" "b"], false⟩)]

theorem conflict_iff_pointed :
    ∃ field, pointedTypes.Leads (.named "T_Item") ["a", "b"] field ∧ field.conflict = true ∧
      ¬ Splits (3 / 5) (observedAt (pointed.map Json.obj) ["a", "b"]) := by
  have hformed : ∀ entries ∈ pointed, (Json.obj entries).WellFormed := by
    simp [pointed, Json.WellFormed, Json.EntriesWellFormed, Entries.Distinct, Entries.keys]
  have hinfer : (inferType {} 8 (.arr (pointed.map Json.obj)) "T" [] []).toOption =
      some (.list (.named "T_Item") (some 50), pointedTypes) := by
    decide +kernel
  -- the path of the flag has two keys, and the conflict is at one key with a point
  obtain ⟨item, page, types, hother, hflags, -⟩ :=
    conflict_iff (by decide) hformed (by decide) 7
    (show Entries.Distinct (ofJson {} 8 (.arr (pointed.map Json.obj)) "T" []).2 by
      rw [Entries.Distinct]
      decide +kernel)
  rw [hother] at hinfer
  obtain ⟨hitem, rfl⟩ := Prod.mk.inj (Option.some.inj hinfer)
  obtain ⟨rfl, rfl⟩ := TypeRef.list.inj hitem
  have hlast : pointedTypes.Leads (.named "T_Item_a") ["b"] (conflictField "b" "b") :=
    .here List.mem_cons_self rfl
  have hleads : pointedTypes.Leads (.named "T_Item") ["a", "b"] (conflictField "b" "b") :=
    .inside (List.mem_cons_of_mem _ List.mem_cons_self) rfl hlast
  obtain ⟨-, hflag, -, -⟩ := hflags _ _ hleads
  refine ⟨_, hleads, hflag.mpr ⟨["a.b"], .here ?_, ?_⟩, ?_⟩
  · decide +kernel
  · decide
  · decide +kernel

end Inference

end JsonSelection
