import JsonSelection.Proofs.Sample
import JsonSelection.Text.Pieces

/-!
# Conflicts among samples

Values under one key split when they are of several kinds and none of these has
a majority. A merge goes down the keys for which objects win, and reports the
keys at which values split.

## What this module delivers

- `Sample.Splits`: when values split. Otherwise they have a verdict, which is
  that a kind wins (`Sample.verdict_cases`).
- `Sample.ConflictsAt`: the key paths at which the values of some objects split.
- `Sample.mem_conflicts_iff`: a merge reports these key paths by dotted paths,
  and nothing else.
- `Sample.represent_eq_merge`: where objects win, what stands for the values is
  the merge of the objects.
- `Sample.dotted_injective`: a dotted path stands for one key path as long as no
  key has a point.

A lone object is kept as it is and not merged, which makes no difference
(`Sample.merge_singleton`). Where keys have points, one dotted path may stand
for several key paths; what follows from that for the fields of a type is said
in `Proofs/Schema/Conflicts`.
-/

set_option autoImplicit false

namespace JsonSelection

namespace Sample

/-- The values that are found under some keys, one after the other, `null`s left
out. -/
def observedAt (values : List Json) : List String → List Json
  | [] => values
  | key :: rest => observedAt (present (values.filterMap fun value => value.member? key)) rest

theorem observedAt_cons (values : List Json) (key : String) (rest : List String) :
    observedAt values (key :: rest) =
      observedAt (observations (values.filterMap Json.entries?) key) rest := by
  rw [observedAt, observations, List.filterMap_filterMap]
  rfl

theorem entries_map_obj (objects : List (Entries Json)) :
    (objects.map Json.obj).filterMap Json.entries? = objects := by
  rw [List.filterMap_map]
  exact List.filterMap_some

/-- The objects under a key, which are merged if the key stands for an object.
Values that are no objects are left out. -/
def below (objects : List (Entries Json)) (key : String) : List (Entries Json) :=
  (observations objects key).filterMap Json.entries?

theorem observedAt_singleton (objects : List (Entries Json)) (key : String) :
    observedAt (objects.map Json.obj) [key] = observations objects key := by
  rw [observedAt_cons, entries_map_obj]
  rfl

/-- Below a key only the objects under it hold values. -/
theorem observedAt_below {objects : List (Entries Json)} {key : String} {path : List String}
    (hne : path ≠ []) : observedAt (objects.map Json.obj) (key :: path) =
      observedAt ((below objects key).map Json.obj) path := by
  cases path with
  | nil => exact absurd rfl hne
  | cons next rest =>
      rw [observedAt_cons, entries_map_obj, observedAt_cons, observedAt_cons, entries_map_obj]
      rfl

/-! ### Verdicts

The leader of a vote is found by going through the kinds in the order in which
they were first seen, so what is said of it is shown by induction on the kinds
to come. -/

/-- The values are of several kinds, and the share of none of these reaches the
threshold. -/
def Splits (threshold : Rat) (values : List Json) : Prop :=
  2 ≤ (kindsSeen values).length ∧
    ∀ kind ∈ kindsSeen values, (votes values kind : Rat) / (values.length : Rat) < threshold

instance (threshold : Rat) (values : List Json) : Decidable (Splits threshold values) :=
  inferInstanceAs (Decidable (_ ∧ _))

theorem kindsSeen_singleton (value : Json) : kindsSeen [value] = [value.kind] := by
  rw [kindsSeen, List.map_singleton, List.eraseDups_cons]
  rfl

/-- A single value agrees with itself. -/
theorem not_splits_of_length_le {threshold : Rat} {values : List Json} (h : values.length ≤ 1) :
    ¬ Splits threshold values := by
  rintro ⟨hkinds, -⟩
  cases values with
  | nil => simp [kindsSeen] at hkinds
  | cons value rest =>
      have hrest : rest = [] := by
        rw [List.length_cons] at h
        exact List.length_eq_zero_iff.mp (by omega)
      rw [hrest, kindsSeen_singleton] at hkinds
      simp at hkinds

theorem leader_cons (values : List Json) (first next : Kind) (rest : List Kind) :
    leader values first (next :: rest) =
      leader values (if votes values first < votes values next then next else first) rest :=
  rfl

theorem leader_mem (values : List Json) (first : Kind) (others : List Kind) :
    leader values first others ∈ first :: others := by
  induction others generalizing first with
  | nil => exact List.mem_cons_self
  | cons next rest ih =>
      rw [leader_cons]
      split
      · exact List.mem_cons_of_mem _ (ih next)
      · rcases List.mem_cons.mp (ih first) with hfirst | hrest
        · rw [hfirst]
          exact List.mem_cons_self
        · exact List.mem_cons_of_mem _ (List.mem_cons_of_mem _ hrest)

/-- No kind has more votes than the leader. -/
theorem votes_le_leader (values : List Json) (first : Kind) (others : List Kind) :
    ∀ kind ∈ first :: others, votes values kind ≤ votes values
      (leader values first others) := by
  induction others generalizing first with
  | nil =>
      intro kind hkind
      rw [List.mem_singleton.mp hkind]
      exact Nat.le_refl _
  | cons next rest ih =>
      intro kind hkind
      -- the leader so far is replaced only by a kind with more votes
      rw [leader_cons]
      split
      · next hbetter =>
          have hnext := ih next next List.mem_cons_self
          simp only [List.mem_cons] at hkind
          rcases hkind with rfl | rfl | hkind
          · omega
          · exact hnext
          · exact ih next kind (List.mem_cons_of_mem _ hkind)
      · next hworse =>
          have hfirst := ih first first List.mem_cons_self
          simp only [List.mem_cons] at hkind
          rcases hkind with rfl | rfl | hkind
          · exact hfirst
          · omega
          · exact ih first kind (List.mem_cons_of_mem _ hkind)

/-- A kind with fewer votes has no larger share. -/
theorem share_lt {threshold : Rat} {values : List Json} (hne : values ≠ []) {kind most : Kind}
    (hvotes : votes values kind ≤ votes values most)
    (h : (votes values most : Rat) / (values.length : Rat) < threshold) :
    (votes values kind : Rat) / (values.length : Rat) < threshold := by
  have hlength : (0 : Rat) < (values.length : Rat) := by
    exact_mod_cast List.length_pos_iff.mpr hne
  rw [Rat.div_lt_iff hlength] at h ⊢
  have hcast : (votes values kind : Rat) ≤ (votes values most : Rat) := by
    exact_mod_cast hvotes
  grind

/-- What the verdict of some values is: `split` if they split, and else the kind
that all or most of them are of. -/
theorem verdict_cases (threshold : Rat) (values : List Json) :
    (values = [] ∧ verdict threshold values = .unobserved) ∨
      (Splits threshold values ∧ verdict threshold values = .split (values.headD .null)) ∨
      ¬ Splits threshold values ∧
        ∃ kind ∈ kindsSeen values, verdict threshold values = .won kind := by
  cases values with
  | nil => exact Or.inl ⟨rfl, rfl⟩
  | cons value rest =>
      have hne : value :: rest ≠ [] := List.cons_ne_nil value rest
      cases hkinds : kindsSeen (value :: rest) with
      | nil =>
          -- the first value is of some kind
          have hmem : value.kind ∈ kindsSeen (value :: rest) := by
            simp [kindsSeen, List.mem_eraseDups]
          rw [hkinds] at hmem
          cases hmem
      | cons first others =>
          cases others with
          | nil =>
              refine Or.inr (Or.inr ⟨?_, first,
                List.mem_cons_self, by simp only [verdict, hkinds]⟩)
              rintro ⟨hlength, -⟩
              rw [hkinds] at hlength
              simp at hlength
          | cons second others =>
              have hleader := leader_mem (value :: rest) first (second :: others)
              -- no kind has a larger share than the leader
              by_cases hshare :
                (votes (value :: rest) (leader (value :: rest) first (second :: others)) :
                  Rat) / ((value :: rest).length : Rat) < threshold
              · refine Or.inr
                  (Or.inl ⟨⟨?_, ?_⟩, by simp only [verdict, hkinds, if_pos hshare]; rfl⟩)
                · rw [hkinds]
                  simp
                · intro kind hkind
                  rw [hkinds] at hkind
                  exact share_lt hne (votes_le_leader _ _ _ kind hkind) hshare
              · refine Or.inr
                  (Or.inr ⟨?_, _, hleader, by simp only [verdict, hkinds, if_neg hshare]⟩)
                rintro ⟨-, hall⟩
                rw [hkinds] at hall
                exact hshare (hall _ hleader)

/-- Values that do not split are won by a kind that is seen among them. -/
theorem won_spec {threshold : Rat} {values : List Json} {kind : Kind}
    (h : verdict threshold values = .won kind) :
    ¬ Splits threshold values ∧ kind ∈ kindsSeen values := by
  rcases verdict_cases threshold values with ⟨-, hverdict⟩ | ⟨-, hverdict⟩ |
    ⟨hsplits, other, hseen, hverdict⟩
  · rw [h] at hverdict
    cases hverdict
  · rw [h] at hverdict
    cases hverdict
  · obtain rfl := Verdict.won.inj (h.symm.trans hverdict)
    exact ⟨hsplits, hseen⟩

/-! ### Representatives

What stands for the values under a key is of the kind that has won. It is an
object only if objects have won or if the values split, because a split is
represented by the first value. -/

theorem mem_kindsSeen {values : List Json} {kind : Kind} :
    kind ∈ kindsSeen values ↔ ∃ value ∈ values, value.kind = kind := by
  rw [kindsSeen, List.mem_eraseDups, List.mem_map]

theorem entries_of_kind {value : Json} (h : value.kind = .object) :
    ∃ entries, value = .obj entries := by
  cases value with
  | obj entries => exact ⟨entries, rfl⟩
  | _ => cases h

/-- Values of the kind of objects hold an object. -/
theorem exists_entries {values : List Json} (h : Kind.object ∈ kindsSeen values) :
    values.filterMap Json.entries? ≠ [] := by
  obtain ⟨value, hvalue, hkind⟩ := mem_kindsSeen.mp h
  obtain ⟨entries, rfl⟩ := entries_of_kind hkind
  exact List.ne_nil_of_mem (List.mem_filterMap.mpr ⟨_, hvalue, rfl⟩)

theorem ofKind_ne_nil {values : List Json} {kind : Kind} (h : kind ∈ kindsSeen values) :
    ofKind values kind ≠ [] := by
  obtain ⟨value, hvalue, hkind⟩ := mem_kindsSeen.mp h
  exact List.ne_nil_of_mem (List.mem_filter.mpr ⟨hvalue, by simpa using hkind⟩)

/-- What stands for values of one kind is of this kind, or `null`. -/
theorem kind_headD_ofKind (values : List Json) (kind : Kind) :
    ((ofKind values kind).headD .null).kind = kind ∨
    (ofKind values kind).headD .null = .null := by
  cases hvalues : ofKind values kind with
  | nil => exact Or.inr rfl
  | cons value rest =>
      have hmem : value ∈ ofKind values kind := by
        rw [hvalues]
        exact List.mem_cons_self
      exact Or.inl (by simpa using (List.mem_filter.mp hmem).2)

theorem kind_firstFilled (values : List Json) :
    (firstFilled (ofKind values .array)).kind = .array ∨
      firstFilled (ofKind values .array) = .null := by
  rw [firstFilled]
  split
  · next value hfind =>
      have hmem := List.mem_of_find?_eq_some hfind
      exact Or.inl (by simpa using (List.mem_filter.mp hmem).2)
  · exact kind_headD_ofKind values .array

/-- An object stands for values that split, or for values of which all or most
are objects. -/
theorem won_object_of_represent {threshold : Rat} {merge : List (Entries Json) → Merged}
    {key : String} {values : List Json} (hsplits : ¬ Splits threshold values)
    {entries : Entries Json} (h : (represent threshold merge key values).1 = .obj entries) :
    verdict threshold values = .won .object := by
  rcases verdict_cases threshold values with ⟨-, hverdict⟩ | ⟨hsplit, -⟩ |
    ⟨-, kind, -, hverdict⟩
  · rw [represent, hverdict] at h
    cases h
  · exact absurd hsplit hsplits
  · rw [represent, hverdict] at h
    cases kind with
    | object => exact hverdict
    | array =>
        change firstFilled (ofKind values .array) = .obj entries at h
        -- an array stands for arrays and a scalar for its own kind, or there is
        -- only `null`
        rcases kind_firstFilled values with hkind | hnull
        · rw [h] at hkind
          cases hkind
        · rw [h] at hnull
          cases hnull
    | _ =>
        change (ofKind values _).headD .null = .obj entries at h
        rcases kind_headD_ofKind values _ with hkind | hnull
        · rw [h] at hkind
          cases hkind
        · rw [h] at hnull
          cases hnull

theorem eraseDups_of_nodup {α : Type} [BEq α] [LawfulBEq α] {items : List α} (h : items.Nodup) :
    items.eraseDups = items := by
  induction items with
  | nil => rfl
  | cons item rest ih =>
      obtain ⟨hitem, hrest⟩ := List.nodup_cons.mp h
      have hfilter : rest.filter (fun other => !other == item) = rest := by
        rw [List.filter_eq_self]
        intro other hother
        have hne : other ≠ item := fun heq => hitem (heq ▸ hother)
        simpa using hne
      rw [List.eraseDups_cons, hfilter, ih hrest]

/-- A single value stands for itself. -/
theorem represent_singleton (threshold : Rat) (merge : List (Entries Json) → Merged)
    (key : String) (value : Json) (hvalue : value.isNull = false) :
    (represent threshold merge key [value]).1 = value := by
  have hverdict : verdict threshold [value] = .won value.kind := by
    simp only [verdict, kindsSeen_singleton]
  rw [represent, hverdict]
  cases value with
  | null => cases hvalue
  | arr items => cases items <;> rfl
  | _ => rfl

/-- A single object is merged to itself. -/
theorem merge_singleton (threshold : Rat) (levels : Nat) {entries : Entries Json}
    (h : Entries.Distinct entries) : (merge threshold levels [entries]).representative =
      entries := by
  cases levels with
  | zero => rfl
  | succ levels =>
      have hkeys : keysSeen [entries] = Entries.keys entries := by
        rw [keysSeen, List.flatMap_singleton, eraseDups_of_nodup h]
      have hentry : ∀ entry ∈ entries, (represent threshold (merge threshold levels) entry.1
          (observations [entries] entry.1)).1 = entry.2 := by
        intro entry hentry
        have hfind : [entries].filterMap (fun entries => entries.find? entry.1) = [entry.2] := by
          simp only [List.filterMap_cons, Entries.find?_of_mem h hentry, List.filterMap_nil]
        rw [observations, hfind]
        -- a `null` is not observed, and what stands for no observation is `null`
        -- again
        cases hnull : entry.2.isNull with
        | false =>
            have hpresent : present [entry.2] = [entry.2] := by simp [present, hnull]
            rw [hpresent, represent_singleton _ _ _ _ hnull]
        | true =>
            have hpresent : present [entry.2] = [] := by simp [present, hnull]
            rw [hpresent]
            cases hvalue : entry.2 with
            | null => rfl
            | _ =>
                rw [hvalue] at hnull
                cases hnull
      rw [representative_succ, hkeys, Entries.keys, List.map_map]
      conv => rhs; rw [← List.map_id entries]
      exact List.map_congr_left fun entry hmem => Prod.ext rfl (hentry entry hmem)

/-- Where all or most of some values are objects, these are merged. -/
theorem represent_object {threshold : Rat} {levels : Nat} {key : String} {values : List Json}
    (hformed : ∀ value ∈ values, value.WellFormed)
    (h : verdict threshold values = .won .object) :
    (represent threshold (merge threshold levels) key values).1 =
      .obj (merge threshold levels (values.filterMap Json.entries?)).representative := by
  have hne := exists_entries (won_spec h).2
  rw [represent, h]
  simp only
  split
  · next hnone => exact absurd hnone hne
  · next entries hone =>
      -- a lone object is not merged
      have hentries := entries_wellFormed hformed entries (hone ▸ List.mem_singleton_self entries)
      rw [hone, merge_singleton threshold levels hentries.1]
  · rfl

/-! ### Conflicts

Both the key paths of conflicts and those of all keys are given by one rule for
the key at the front and one for the keys behind it, as a merge goes down. -/

/-- The key paths at which the values of some objects split. On the way there
each key stands for an object. -/
inductive ConflictsAt (threshold : Rat) : Nat → List (Entries Json) → List String → Prop where
  | here {levels : Nat} {objects : List (Entries Json)} {key : String} :
      Splits threshold (observations objects key) →
      ConflictsAt threshold (levels + 1) objects [key]
  | inside {levels : Nat} {objects : List (Entries Json)} {key : String} {path : List String} :
      verdict threshold (observations objects key) = .won .object →
        ConflictsAt threshold levels (below objects key) path →
        ConflictsAt threshold (levels + 1) objects (key :: path)

theorem ConflictsAt.ne_nil {threshold : Rat} {levels : Nat} {objects : List (Entries Json)}
    {path : List String} (h : ConflictsAt threshold levels objects path) : path ≠ [] := by
  cases h with
  | here _ => exact List.cons_ne_nil _ _
  | inside _ _ => exact List.cons_ne_nil _ _

theorem length_observations_le (objects : List (Entries Json)) (key : String) :
    (observations objects key).length ≤ objects.length :=
  Nat.le_trans (List.length_filter_le _ _) (List.length_filterMap_le _ _)

/-- A single object conflicts with nothing. -/
theorem not_conflictsAt_of_length_le {threshold : Rat} {levels : Nat}
    {objects : List (Entries Json)} {path : List String} (hlength : objects.length ≤ 1) :
    ¬ ConflictsAt threshold levels objects path := by
  intro h
  induction h with
  | @here _ objects key hsplits =>
      have hobserved := length_observations_le objects key
      exact not_splits_of_length_le (Nat.le_trans hobserved hlength) hsplits
  | @inside _ objects key _ _ _ ih =>
      have hobserved := length_observations_le objects key
      have hbelow : (below objects key).length ≤ (observations objects key).length :=
        List.length_filterMap_le _ _
      exact ih (by omega)

/-- The conflicts that one key adds are the key itself, or those among the
objects under it. -/
theorem mem_represent_iff {threshold : Rat} {merge : List (Entries Json) → Merged}
    (hmerge : ∀ objects, objects.length ≤ 1 → (merge objects).conflicts = [])
    {key text : String} {values : List Json} :
    text ∈ (represent threshold merge key values).2 ↔
      (Splits threshold values ∧ text = key) ∨
        verdict threshold values = .won .object ∧
          ∃ path ∈ (merge (values.filterMap Json.entries?)).conflicts,
          text = key ++ "." ++ path := by
  rcases verdict_cases threshold values with ⟨rfl, hverdict⟩ | ⟨hsplits, hverdict⟩ |
    ⟨hsplits, kind, -, hverdict⟩
  · have hnone : ¬ Splits threshold [] := not_splits_of_length_le (Nat.zero_le 1)
    rw [represent, hverdict]
    simp [hnone]
  · rw [represent, hverdict]
    simp [hsplits]
  · rw [represent, hverdict]
    cases kind with
    | object =>
        simp only [hsplits, false_and, false_or, true_and]
        split
        -- fewer than two objects have no conflicts among them
        · next hnone => simp [hnone, hmerge [] (Nat.zero_le 1)]
        · next entries hone => simp [hone, hmerge [entries] (Nat.le_refl 1)]
        · simp [eq_comm]
    | _ => simp [hsplits]

theorem mem_keysSeen_of_observed {objects : List (Entries Json)} {key : String}
    (h : observations objects key ≠ []) : key ∈ keysSeen objects := by
  obtain ⟨value, hvalue⟩ := List.exists_mem_of_ne_nil _ h
  rw [observations, mem_present_iff, List.mem_filterMap] at hvalue
  obtain ⟨⟨entries, hentries, hfind⟩, -⟩ := hvalue
  rw [keysSeen, List.mem_eraseDups, List.mem_flatMap]
  exact ⟨entries, hentries, List.mem_map.mpr ⟨_, Entries.mem_of_find? hfind, rfl⟩⟩

theorem mem_keysSeen_of_won {threshold : Rat} {objects : List (Entries Json)}
    {key : String} {kind : Kind} (h : verdict threshold (observations objects key) = .won kind) :
    key ∈ keysSeen objects := by
  apply mem_keysSeen_of_observed
  intro hnone
  rw [hnone] at h
  cases h

theorem mem_conflicts_succ {threshold : Rat} {levels : Nat} {objects : List (Entries Json)}
    {text : String} : text ∈ (merge threshold (levels + 1) objects).conflicts ↔
      ∃ key ∈ keysSeen objects,
        text ∈ (represent threshold (merge threshold levels) key
          (observations objects key)).2 := by
  simp only [merge, List.mem_eraseDups, List.mem_flatMap, List.mem_map]
  constructor
  · rintro ⟨_, ⟨key, hkey, rfl⟩, htext⟩
    exact ⟨key, hkey, htext⟩
  · rintro ⟨key, hkey, htext⟩
    exact ⟨_, ⟨key, hkey, rfl⟩, htext⟩

/-- Merging reports the key paths at which values split, as dotted paths, and
nothing else. -/
theorem mem_conflicts_iff {threshold : Rat} {levels : Nat} {objects : List (Entries Json)}
    {text : String} :
    text ∈ (merge threshold levels objects).conflicts ↔
      ∃ path, ConflictsAt threshold levels objects path ∧ ".".intercalate path = text := by
  -- a path goes one key deeper for each level of objects that are merged
  induction levels generalizing objects text with
  | zero =>
      constructor
      · intro h
        cases h
      · rintro ⟨path, hpath, -⟩
        cases hpath
  | succ levels ih =>
      have hlone : ∀ objects, objects.length ≤ 1 →
          (merge threshold levels objects).conflicts = [] := by
        intro objects hlength
        rw [List.eq_nil_iff_forall_not_mem]
        intro text htext
        obtain ⟨path, hpath, -⟩ := ih.mp htext
        exact not_conflictsAt_of_length_le hlength hpath
      rw [mem_conflicts_succ]
      constructor
      · rintro ⟨key, -, htext⟩
        rcases (mem_represent_iff hlone).mp htext with ⟨hsplits, rfl⟩ |
          ⟨hwon, rest, hrest, rfl⟩
        · exact ⟨[text], .here hsplits, String.intercalate_singleton⟩
        · obtain ⟨path, hpath, rfl⟩ := ih.mp hrest
          exact ⟨key :: path, .inside hwon hpath,
            String.intercalate_cons_of_ne_nil hpath.ne_nil⟩
      · rintro ⟨path, hpath, rfl⟩
        cases hpath with
        | @here _ _ key hsplits =>
            have hkey : key ∈ keysSeen objects := by
              apply mem_keysSeen_of_observed
              intro hnone
              exact not_splits_of_length_le (by simp [hnone]) hsplits
            refine ⟨key, hkey, (mem_represent_iff hlone).mpr (Or.inl ⟨hsplits, ?_⟩)⟩
            exact String.intercalate_singleton
        | @inside _ _ key path hwon hpath =>
            have hkey := mem_keysSeen_of_won hwon
            have hrest := ih.mpr ⟨path, hpath, rfl⟩
            refine ⟨key, hkey, (mem_represent_iff hlone).mpr (Or.inr ⟨hwon, _, hrest, ?_⟩)⟩
            exact String.intercalate_cons_of_ne_nil hpath.ne_nil

/-- A lone object conflicts with nothing. -/
theorem conflicts_of_length_le {threshold : Rat} {levels : Nat} {objects : List (Entries Json)}
    (h : objects.length ≤ 1) : (merge threshold levels objects).conflicts = [] := by
  rw [List.eq_nil_iff_forall_not_mem]
  intro text htext
  obtain ⟨path, hpath, -⟩ := mem_conflicts_iff.mp htext
  exact not_conflictsAt_of_length_le h hpath

/-- Where objects win, the merge of the objects stands for the values, with its
conflicts below the key. -/
theorem represent_eq_merge {threshold : Rat} {levels : Nat} {key : String} {values : List Json}
    (hformed : ∀ value ∈ values, value.WellFormed)
    (h : verdict threshold values = .won .object) :
    represent threshold (merge threshold levels) key values =
      (.obj (merge threshold levels (values.filterMap Json.entries?)).representative,
        (merge threshold levels (values.filterMap Json.entries?)).conflicts.map
          fun path => key ++ "." ++ path) := by
  refine Prod.ext (represent_object hformed h) ?_
  rw [represent, h]
  simp only
  split
  · next hnone => exact absurd hnone (exists_entries (won_spec h).2)
  · next entries hone =>
      -- a lone object is kept without a merge, which would report nothing
      have hnothing : (merge threshold levels [entries]).conflicts = [] :=
        conflicts_of_length_le (Nat.le_refl 1)
      rw [hone, hnothing, List.map_nil]
  · rfl

/-- On a way through objects the values at a key path conflict exactly if they
split. -/
theorem conflictsAt_cons_iff {threshold : Rat} {levels : Nat} {objects : List (Entries Json)}
    {key : String} {path : List String} (hne : path ≠ [])
    (hwon : verdict threshold (observations objects key) = .won .object) :
    ConflictsAt threshold (levels + 1) objects (key :: path) ↔
      ConflictsAt threshold levels (below objects key) path := by
  constructor
  · intro h
    cases h with
    | here _ => exact absurd rfl hne
    | inside _ hpath => exact hpath
  · exact .inside hwon

/-- The key paths of some objects down to a depth. On the way each key stands
for an object. -/
inductive Passes (threshold : Rat) : Nat → List (Entries Json) → List String → Prop where
  | here {levels : Nat} {objects : List (Entries Json)} {key : String} :
      key ∈ keysSeen objects → Passes threshold (levels + 1) objects [key]
  | inside {levels : Nat} {objects : List (Entries Json)} {key : String} {path : List String} :
      verdict threshold (observations objects key) = .won .object →
        Passes threshold levels (below objects key) path →
        Passes threshold (levels + 1) objects (key :: path)

theorem Passes.ne_nil {threshold : Rat} {levels : Nat} {objects : List (Entries Json)}
    {path : List String} (h : Passes threshold levels objects path) : path ≠ [] := by
  cases h with
  | here _ => exact List.cons_ne_nil _ _
  | inside _ _ => exact List.cons_ne_nil _ _

/-- Without objects there is no key. -/
theorem not_passes_nil {threshold : Rat} {levels : Nat} {path : List String} :
    ¬ Passes threshold levels [] path := by
  intro h
  cases h with
  | here hkey => simp [keysSeen] at hkey
  | inside hwon _ => cases hwon

/-- What a path passes through does not conflict. -/
theorem Passes.not_conflictsAt {threshold : Rat} {levels : Nat} {objects : List (Entries Json)}
    {front rest : List String} (h : Passes threshold levels objects (front ++ rest))
    (hrest : rest ≠ []) :
    ¬ ConflictsAt threshold levels objects front := by
  intro hconflicts
  induction hconflicts with
  | here hsplits =>
      cases h with
      | here _ => exact hrest rfl
      | inside hwon _ => exact (won_spec hwon).1 hsplits
  | @inside _ _ key front _ hfront ih =>
      generalize hpath : key :: front ++ rest = path at h
      cases h with
      | here _ =>
          -- a front that conflicts is not empty
          have hnil := (List.cons.inj hpath).2
          exact hfront.ne_nil (List.append_eq_nil_iff.mp hnil).1
      | inside _ hpasses =>
          obtain ⟨rfl, rfl⟩ := List.cons.inj hpath
          exact ih hpasses

/-! ### Dotted paths

The pieces between the points of a dotted path are the keys again, if no key has
a point. -/

/-- Key paths without points in their keys are told apart by their dotted paths. -/
theorem dotted_injective {path other : List String} (hne : path ≠ []) (hother : other ≠ [])
    (hpath : ∀ key ∈ path, '.' ∉ key.toList)
    (hotherPath : ∀ key ∈ other, '.' ∉ key.toList)
    (h : ".".intercalate path = ".".intercalate other) : path = other := by
  have keys : ∀ path : List String, path ≠ [] → (∀ key ∈ path, '.' ∉ key.toList) →
      Text.pieces '.' (".".intercalate path).toList = path.map String.toList := by
    intro path hne hpath
    rw [String.toList_intercalate]
    refine Text.pieces_intercalate (by simpa using hne) fun part hpart => ?_
    obtain ⟨key, hkey, rfl⟩ := List.mem_map.mp hpart
    exact hpath key hkey
  have hpieces := keys path hne hpath
  rw [h, keys other hother hotherPath] at hpieces
  exact (List.map_inj_right fun _ _ => String.toList_inj.mp).mp hpieces.symm

end Sample

end JsonSelection
