import JsonSelection.Proofs.Sample.Congruence
import JsonSelection.Proofs.Sample.Majority

/-!
# What a merge reports and what it keeps

The values at a key path disagree when they are of several kinds without a
majority, the path ends above the depth cap, and objects win at every key on the
way.

## What this module delivers

- `Sample.Disagrees`: the key paths at which samples disagree, told by the
  values that are seen along them.
- `Sample.StandsFor`: the value that stands for the values of a kind. All
  objects are merged, of the arrays the first one with elements is taken, and of
  any other kind the first value.
- `Sample.merge_reports`: where no key of the samples has a point, a merge
  reports the dotted paths of exactly these key paths. It keeps all keys, in the
  order in which they were first seen, and for a kind that wins the value that
  stands for it.

The threshold is above one half, so that a majority is one of a single kind.
Points in keys make two key paths one dotted path; what is left then is said in
`Proofs/Schema/Conflicts`.
-/

set_option autoImplicit false

namespace JsonSelection

namespace Json

mutual

/-- The keys of a value at all levels, those inside arrays too. A key that
occurs at several places is listed as often. -/
def keysInside : Json → List String
  | arr items => itemsKeys items
  | obj entries => entriesKeys entries
  | _ => []

/-- The keys inside the elements of a list. -/
def itemsKeys : List Json → List String
  | [] => []
  | item :: rest => item.keysInside ++ itemsKeys rest

/-- The keys of entries and those inside their values. -/
def entriesKeys : List (String × Json) → List String
  | [] => []
  | (key, value) :: rest => key :: (value.keysInside ++ entriesKeys rest)

end

theorem mem_entriesKeys {entries : Entries Json} {entry : String × Json} (h : entry ∈ entries)
    {key : String} (hkey : key = entry.1 ∨ key ∈ entry.2.keysInside) :
    key ∈ entriesKeys entries := by
  induction entries with
  | nil => cases h
  | cons first rest ih =>
      rw [entriesKeys]
      rcases List.mem_cons.mp h with rfl | h
      · rcases hkey with rfl | hkey
        · exact List.mem_cons_self
        · exact List.mem_cons_of_mem _ (List.mem_append_left _ hkey)
      · exact List.mem_cons_of_mem _ (List.mem_append_right _ (ih h))

end Json

namespace Sample

variable {threshold : Rat} {objects : List (Entries Json)}

/-! ### Conflicts along a path

The definition goes down the levels of the merge, one key at a time. Here the
same is said without recursion, by the objects that are seen at the end of a
path. -/

/-- At every key on the way to the end of a path objects win. Whether they do at
the last key is left open. -/
def WinsOnWay (threshold : Rat) (objects : List (Entries Json)) (path : List String) : Prop :=
  ∀ n, 0 < n → n < path.length →
    Wins threshold (observedAt (objects.map Json.obj) (path.take n)) .object

/-- There is no key on the way to the end of a path of one key. -/
theorem winsOnWay_singleton (key : String) : WinsOnWay threshold objects [key] := by
  intro n hpositive hlast
  rw [List.length_singleton] at hlast
  omega

/-- The first key of a longer path is on the way, and the other ones lie below it. -/
theorem winsOnWay_cons_iff {key : String} {rest : List String} (hrest : rest ≠ []) :
    WinsOnWay threshold objects (key :: rest) ↔
      Wins threshold (observations objects key) .object ∧
      WinsOnWay threshold (below objects key) rest := by
  have hpositive := List.length_pos_iff.mpr hrest
  -- a part of the path that is not empty is observed below its first key
  have hbelow : ∀ n, 0 < n → observedAt (objects.map Json.obj) ((key :: rest).take (n + 1)) =
      observedAt ((below objects key).map Json.obj) (rest.take n) := by
    intro n hn
    rw [List.take_succ_cons, observedAt_below]
    simp only [ne_eq, List.take_eq_nil_iff, not_or]
    exact ⟨Nat.ne_of_gt hn, hrest⟩
  constructor
  · intro h
    constructor
    · rw [← observedAt_singleton]
      exact h 1 Nat.one_pos (Nat.succ_lt_succ hpositive)
    · intro n hn hlast
      rw [← hbelow n hn]
      exact h (n + 1) (Nat.succ_pos n) (Nat.succ_lt_succ hlast)
  · rintro ⟨hfirst, hothers⟩ n hn hlast
    match n, hn with
    | 1, _ =>
        rw [List.take_succ_cons, List.take_zero, observedAt_singleton]
        exact hfirst
    | m + 2, _ =>
        rw [hbelow (m + 1) (Nat.succ_pos m)]
        exact hothers (m + 1) (Nat.succ_pos m) (Nat.lt_of_succ_lt_succ hlast)

/-- The key paths of conflicts, told by the values that are seen along them. -/
theorem conflictsAt_iff (hmajority : 1 / 2 < threshold) {levels : Nat} {path : List String} :
    ConflictsAt threshold levels objects path ↔ path ≠ [] ∧ path.length ≤ levels ∧
      WinsOnWay threshold objects path ∧
      Splits threshold (observedAt (objects.map Json.obj) path) := by
  -- a key path loses its first key with each level of objects that are merged
  induction path generalizing levels objects with
  | nil =>
      constructor
      · exact fun h => absurd rfl h.ne_nil
      · exact fun h => absurd rfl h.1
  | cons key rest ih =>
      have hne : key :: rest ≠ [] := List.cons_ne_nil key rest
      by_cases hrest : rest = []
      · subst hrest
        rw [observedAt_singleton]
        constructor
        · intro h
          cases h with
          | here hsplits => exact ⟨hne, Nat.le_add_left _ _, winsOnWay_singleton key, hsplits⟩
          | inside _ hnone => exact absurd rfl hnone.ne_nil
        · rintro ⟨-, hlength, -, hsplits⟩
          cases levels with
          | zero => cases hlength
          | succ levels => exact .here hsplits
      · rw [winsOnWay_cons_iff hrest, observedAt_below hrest]
        constructor
        · intro h
          cases h with
          | here _ => exact absurd rfl hrest
          | inside hwon hinside =>
              obtain ⟨-, hlength, hwins, hsplits⟩ := ih.mp hinside
              exact ⟨hne, Nat.succ_le_succ hlength, ⟨wins_of_won hwon, hwins⟩, hsplits⟩
        · rintro ⟨-, hlength, ⟨hfirst, hwins⟩, hsplits⟩
          cases levels with
          | zero => cases hlength
          | succ levels =>
              apply ConflictsAt.inside
              · exact (verdict_eq_won_iff hmajority).mpr hfirst
              · exact ih.mpr ⟨hrest, Nat.le_of_succ_le_succ hlength, hwins, hsplits⟩

theorem mem_keysInside_of_seen {key : String} (h : key ∈ keysSeen objects) :
    ∃ entries ∈ objects, key ∈ (Json.obj entries).keysInside := by
  rw [keysSeen, List.mem_eraseDups, List.mem_flatMap] at h
  obtain ⟨entries, hentries, hkey⟩ := h
  obtain ⟨entry, hentry, rfl⟩ := List.mem_map.mp hkey
  exact ⟨entries, hentries, Json.mem_entriesKeys hentry (Or.inl rfl)⟩

/-- A key inside the objects under a key is a key inside the samples. -/
theorem mem_keysInside_of_below {key other : String} {entries : Entries Json}
    (h : entries ∈ below objects key) (hother : other ∈ (Json.obj entries).keysInside) :
    ∃ outer ∈ objects, other ∈ (Json.obj outer).keysInside := by
  obtain ⟨value, hvalue, hentries⟩ := List.mem_filterMap.mp h
  rw [observations, mem_present_iff, List.mem_filterMap] at hvalue
  obtain ⟨⟨outer, houter, hfind⟩, -⟩ := hvalue
  have hobject : value = .obj entries := by
    cases value with
    | obj others => rw [Option.some.inj hentries]
    | _ => cases hentries
  rw [hobject] at hfind
  exact ⟨outer, houter, Json.mem_entriesKeys (Entries.mem_of_find? hfind) (Or.inr hother)⟩

/-- Conflicts are found at keys that the samples have. -/
theorem ConflictsAt.mem_keysInside {levels : Nat} {path : List String}
    (h : ConflictsAt threshold levels objects path) :
    ∀ key ∈ path, ∃ entries ∈ objects, key ∈ (Json.obj entries).keysInside := by
  induction h with
  | @here _ objects key hsplits =>
      intro other hother
      rw [List.mem_singleton.mp hother]
      apply mem_keysInside_of_seen
      apply mem_keysSeen_of_observed
      intro hnone
      exact not_splits_of_length_le (by simp [hnone]) hsplits
  | @inside _ objects key path hwon _ ih =>
      intro other hother
      rcases List.mem_cons.mp hother with rfl | hother
      · exact mem_keysInside_of_seen (mem_keysSeen_of_won hwon)
      · obtain ⟨entries, hentries, hkey⟩ := ih other hother
        exact mem_keysInside_of_below hentries hkey

/-- The values at a key path are of several kinds without a majority. The path
ends above the depth cap, and objects win at every key on the way to its end. -/
structure Disagrees (limits : Limits) (depth : Int) (objects : List (Entries Json))
    (path : List String) :
    Prop where
  above : depth + path.length - 1 < limits.maxDepth
  onWay : WinsOnWay limits.majorityThreshold objects path
  splits : Splits limits.majorityThreshold (observedAt (objects.map Json.obj) path)

theorem conflictsAt_iff_disagrees {limits : Limits} (hmajority : 1 / 2 < limits.majorityThreshold)
    {depth : Int} {path : List String} (hne : path ≠ []) :
    ConflictsAt limits.majorityThreshold (limits.levelsFrom depth) objects path ↔
      Disagrees limits depth objects path := by
  have hlength := List.length_pos_iff.mpr hne
  have habove : path.length ≤ limits.levelsFrom depth ↔
      depth + path.length - 1 < limits.maxDepth := by
    rw [Limits.levelsFrom]
    omega
  rw [conflictsAt_iff hmajority, habove]
  constructor
  · rintro ⟨-, hdepth, hwins, hsplits⟩
    exact ⟨hdepth, hwins, hsplits⟩
  · rintro ⟨hdepth, hwins, hsplits⟩
    exact ⟨hne, hdepth, hwins, hsplits⟩

/-! ### Values that are kept -/

/-- The value that stands for the values of a kind: all objects merged, the
first array with elements or else the first array, or the first value of any
other kind. -/
inductive StandsFor (limits : Limits) (depth : Int) (values : List Json) : Kind →
    Json → Prop where
  | object : StandsFor limits depth values .object
      (.obj (mergeAt limits (depth + 1) (values.filterMap Json.entries?)).representative)
  | filled {value : Json} : values.find? isFilled = some value →
      StandsFor limits depth values .array value
  | array {value : Json} : values.find? isFilled = none →
      values.find? (fun other => other.kind == .array) = some value →
      StandsFor limits depth values .array value
  | first {kind : Kind} {value : Json} : kind ≠ .object → kind ≠ .array →
      values.find? (fun other => other.kind == kind) = some value →
      StandsFor limits depth values kind value

/-- The first value of a kind that is seen. -/
theorem find?_kind {values : List Json} {kind : Kind} (h : kind ∈ kindsSeen values) :
    values.find? (fun other => other.kind == kind) = some ((ofKind values kind).headD .null) := by
  rw [← List.head?_filter]
  cases hvalues : ofKind values kind with
  | nil => exact absurd hvalues (ofKind_ne_nil h)
  | cons value rest =>
      rw [ofKind] at hvalues
      rw [hvalues]
      rfl

/-- An array with elements is found among all values as among the arrays. -/
theorem find?_isFilled (values : List Json) :
    (ofKind values .array).find? isFilled = values.find? isFilled := by
  rw [ofKind, List.find?_filter]
  congr 1
  funext value
  cases value with
  | arr items => simp [Json.kind]
  | _ => rfl

/-- For values that a kind has won, the value that stands for them is found. -/
theorem standsFor_represent {limits : Limits} {depth : Int} {levels : Nat} {key : String}
    (hlevels : limits.levelsFrom depth = levels + 1) {values : List Json}
    (hformed : ∀ value ∈ values, value.WellFormed) {kind : Kind}
    (h : verdict limits.majorityThreshold values = .won kind) :
    StandsFor limits depth values kind
      (represent limits.majorityThreshold (merge limits.majorityThreshold levels) key
        values).1 := by
  have hseen := (won_spec h).2
  have hfirst := find?_kind hseen
  cases kind with
  | object =>
      -- one level down the merge has one level less to go
      have hbelow : levels = limits.levelsFrom (depth + 1) := by
        rw [limits.levelsFrom_succ, hlevels]
        rfl
      rw [represent_object hformed h, hbelow]
      exact .object
  | array =>
      rw [represent, h]
      change StandsFor limits depth values .array (firstFilled (ofKind values .array))
      rw [firstFilled_eq, find?_isFilled]
      cases hfilled : values.find? isFilled with
      | none => exact .array hfilled hfirst
      | some value => exact .filled hfilled
  | _ =>
      rw [represent, h]
      exact .first (by decide) (by decide) hfirst

/-- A merge keeps the keys of the samples in the order in which they are first
seen, and under a key that a kind has won the value that stands for this kind.
Where no key of the samples has a point, it reports exactly the key paths at
which the samples disagree. -/
theorem merge_reports {limits : Limits} (hmajority : 1 / 2 < limits.majorityThreshold) (depth : Int)
    (hformed : ∀ entries ∈ objects, (Json.obj entries).WellFormed) :
    ((∀ entries ∈ objects, ∀ key ∈ (Json.obj entries).keysInside, '.' ∉ key.toList) →
      ∀ path, path ≠ [] → (∀ key ∈ path, '.' ∉ key.toList) →
        (".".intercalate path ∈ (mergeAt limits depth objects).conflicts ↔
          Disagrees limits depth objects path)) ∧
      (depth < limits.maxDepth →
        Entries.keys (mergeAt limits depth objects).representative =
          (objects.flatMap Entries.keys).eraseDups ∧
        ∀ key kind, Wins limits.majorityThreshold (observations objects key) kind →
          ∃ value, Entries.find? (mergeAt limits depth objects).representative key =
            some value ∧
            StandsFor limits depth (observations objects key) kind value) := by
  constructor
  · intro hsamples path hne hpath
    rw [← conflictsAt_iff_disagrees hmajority hne, mem_conflicts_iff]
    constructor
    · rintro ⟨other, hother, hdotted⟩
      -- no key on either path has a point, so the text tells the path
      have hkeys : ∀ key ∈ other, '.' ∉ key.toList := by
        intro key hkey
        obtain ⟨entries, hentries, hhas⟩ := hother.mem_keysInside key hkey
        exact hsamples entries hentries key hhas
      rw [← dotted_injective hother.ne_nil hne hkeys hpath hdotted]
      exact hother
    · intro hconflicts
      exact ⟨path, hconflicts, rfl⟩
  · intro hdepth
    obtain ⟨levels, hlevels⟩ := exists_levels hdepth
    simp only [mergeAt, hlevels]
    refine ⟨keys_representative_succ _ _ _, ?_⟩
    intro key kind hwins
    have hwon := (verdict_eq_won_iff hmajority).mpr hwins
    refine ⟨_, find?_representative_succ _ _ (mem_keysSeen_of_won hwon), ?_⟩
    exact standsFor_represent hlevels (observations_wellFormed hformed key) hwon

/-- Samples of which most have an object under `owner`, with values of two kinds
under `id`. -/
def owned : List (Entries Json) :=
  [[("owner", .obj [("id", .int 1)]), ("tags", .arr [])],
    [("owner", .obj [("id", .str "x")]), ("tags", .arr [.int 1])],
    [("owner", .bool true), ("note", .null)]]

theorem merge_reports_owned : ".".intercalate ["owner", "id"] ∈ (mergeAt {} 0 owned).conflicts ∧
    Entries.keys (mergeAt {} 0 owned).representative = ["owner", "tags", "note"] ∧
    ∃ value, Entries.find? (mergeAt {} 0 owned).representative "tags" = some value ∧
      StandsFor {} 0 (observations owned "tags") .array value := by
  have hformed : ∀ entries ∈ owned, (Json.obj entries).WellFormed := by
    simp [owned, Json.WellFormed, Json.EntriesWellFormed, Json.ListWellFormed, Entries.Distinct,
      Entries.keys]
  obtain ⟨hreports, hkeeps⟩ := merge_reports half_lt_majorityThreshold 0 hformed
  obtain ⟨hkeys, hstands⟩ := hkeeps (by decide)
  have hdisagrees : Disagrees {} 0 owned ["owner", "id"] := by
    refine ⟨by
      decide, (winsOnWay_cons_iff (List.cons_ne_nil _ _)).mpr ⟨?_, winsOnWay_singleton _⟩, ?_⟩
    · decide +kernel
    · decide +kernel
  refine ⟨(hreports ?_ ["owner", "id"] (List.cons_ne_nil _ _) (by decide)).mpr hdisagrees, ?_,
    ?_⟩
  · decide +kernel
  · rw [hkeys]
    decide +kernel
  · exact hstands "tags" .array (by decide +kernel)

end Sample

end JsonSelection
