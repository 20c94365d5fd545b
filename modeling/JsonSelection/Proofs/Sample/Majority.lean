import JsonSelection.Proofs.Sample.Conflicts

/-!
# Majorities

A kind wins some values when it is the only one among them, or when its share
reaches the threshold.

## What this module delivers

- `Sample.Wins.unique`: above one half no two kinds win.
- `Sample.verdict_eq_won_iff`: so the kind that leads is the kind that wins.
- `Sample.conflicts_perm`: neither it nor a conflict depends on the order of the
  samples.
- `Sample.merge_of_perm`: samples in another order have the same conflicts, and
  below the depth cap the same keys, with values of the same kinds where these
  do not split.
- `Sample.keys_at_cap`: at the depth cap the first sample stands for all, so
  there the keys depend on the order.

The values that are picked do depend on the order, as does the order of the
keys.
-/

set_option autoImplicit false

namespace JsonSelection

namespace Sample

/-! ### Winning -/

/-- A kind is the only one among some values, or its share of them reaches the
threshold. -/
def Wins (threshold : Rat) (values : List Json) (kind : Kind) : Prop :=
  kind ∈ kindsSeen values ∧ ((∀ value ∈ values, value.kind = kind) ∨
    threshold ≤ (votes values kind : Rat) / (values.length : Rat))

instance (threshold : Rat) (values : List Json) (kind : Kind) :
    Decidable (Wins threshold values kind) :=
  inferInstanceAs (Decidable (_ ∧ _))

variable {threshold : Rat} {values values' : List Json}

/-- No value votes for two kinds. -/
theorem votes_add_le {kind other : Kind} (h : kind ≠ other) :
    votes values kind + votes values other ≤ values.length := by
  induction values with
  | nil => exact Nat.le_refl 0
  | cons value rest ih =>
      simp only [votes, List.countP_cons, List.length_cons] at ih ⊢
      by_cases hkind : value.kind = kind
      · have hother : ¬ value.kind = other := fun heq => h (hkind.symm.trans heq)
        simp only [beq_iff_eq, if_pos hkind, if_neg hother]
        omega
      · simp only [beq_iff_eq, if_neg hkind]
        split <;> omega

theorem ne_nil_of_mem_kindsSeen {kind : Kind} (h : kind ∈ kindsSeen values) : values ≠ [] := by
  rintro rfl
  cases h

/-- Above one half only one kind wins. -/
theorem Wins.unique (hmajority : 1 / 2 < threshold) {kind other : Kind}
    (h : Wins threshold values kind) (hother : Wins threshold values other) : kind = other := by
  obtain ⟨hseen, hall | hshare⟩ := h
  · obtain ⟨value, hvalue, hkind⟩ := mem_kindsSeen.mp hother.1
    exact (hall value hvalue).symm.trans hkind
  · obtain ⟨hseen', hall' | hshare'⟩ := hother
    · obtain ⟨value, hvalue, hkind⟩ := mem_kindsSeen.mp hseen
      exact hkind.symm.trans (hall' value hvalue)
    · -- two kinds with more than half of the values each would have a value in common
      apply Decidable.byContradiction
      intro hne
      have hlength : (0 : Rat) < (values.length : Rat) := by
        exact_mod_cast List.length_pos_iff.mpr (ne_nil_of_mem_kindsSeen hseen)
      have hvotes : (votes values kind : Rat) + (votes values other : Rat) ≤
          (values.length : Rat) := by
        exact_mod_cast votes_add_le hne
      rw [← Rat.not_lt, Rat.div_lt_iff hlength] at hshare hshare'
      have hhalf : (1 / 2 : Rat) * values.length < threshold * values.length :=
        Rat.mul_lt_mul_of_pos_right hmajority hlength
      grind

/-- The kind of a verdict wins, whatever the threshold. -/
theorem wins_of_won {kind : Kind} (h : verdict threshold values = .won kind) :
    Wins threshold values kind := by
  have hseen := (won_spec h).2
  refine ⟨hseen, ?_⟩
  cases values with
  | nil => cases h
  | cons value rest =>
      simp only [verdict] at h
      split at h
      · cases h
      -- a single kind has won without a vote
      · next only hkinds =>
          obtain rfl := Verdict.won.inj h
          left
          intro other hother
          have hmem := mem_kindsSeen.mpr ⟨other, hother, rfl⟩
          rw [hkinds] at hmem
          exact List.mem_singleton.mp hmem
      · split at h
        · cases h
        · next hshare =>
            obtain rfl := Verdict.won.inj h
            exact Or.inr (Rat.not_lt.mp hshare)

theorem Wins.not_splits {kind : Kind} (h : Wins threshold values kind) :
    ¬ Splits threshold values := by
  rintro ⟨hlength, hbelow⟩
  obtain ⟨hseen, hall | hshare⟩ := h
  · -- of one kind there are no two
    have honly : ∀ other ∈ kindsSeen values, other = kind := by
      intro other hother
      obtain ⟨value, hvalue, rfl⟩ := mem_kindsSeen.mp hother
      exact hall value hvalue
    have hnodup : (kindsSeen values).Nodup := nodup_eraseDups _
    generalize kindsSeen values = kinds at hlength honly hnodup
    match kinds, hlength with
    | first :: second :: others, _ =>
        have hfirst := honly first List.mem_cons_self
        have hsecond := honly second (List.mem_cons_of_mem _ List.mem_cons_self)
        apply (List.nodup_cons.mp hnodup).1
        rw [hfirst, hsecond]
        exact List.mem_cons_self
  · exact absurd (hbelow kind hseen) (Rat.not_lt.mpr hshare)

/-- With a threshold above one half, a verdict is for the kind that wins. -/
theorem verdict_eq_won_iff (hmajority : 1 / 2 < threshold) {kind : Kind} :
    verdict threshold values = .won kind ↔ Wins threshold values kind := by
  constructor
  · exact wins_of_won
  · intro h
    rcases verdict_cases threshold values with ⟨hnil, -⟩ | ⟨hsplits, -⟩ |
      ⟨-, other, -, hverdict⟩
    · exact absurd hnil (ne_nil_of_mem_kindsSeen h.1)
    · exact absurd hsplits h.not_splits
    · rw [hverdict, (wins_of_won hverdict).unique hmajority h]

/-! ### Values in another order -/

theorem mem_kindsSeen_perm (h : values.Perm values') (kind : Kind) :
    kind ∈ kindsSeen values ↔ kind ∈ kindsSeen values' := by
  simp only [mem_kindsSeen, h.mem_iff]

theorem votes_perm (h : values.Perm values') (kind : Kind) :
    votes values kind = votes values' kind :=
  h.countP_eq _

theorem splits_perm (h : values.Perm values') : Splits threshold values ↔
    Splits threshold values' := by
  have hkinds : (kindsSeen values).Perm (kindsSeen values') :=
    (List.perm_ext_iff_of_nodup (nodup_eraseDups _) (nodup_eraseDups _)).mpr (mem_kindsSeen_perm h)
  simp only [Splits, hkinds.length_eq, hkinds.mem_iff, votes_perm h, h.length_eq]

theorem wins_perm (h : values.Perm values') (kind : Kind) :
    Wins threshold values kind ↔ Wins threshold values' kind := by
  simp only [Wins, mem_kindsSeen_perm h, votes_perm h, h.length_eq, h.mem_iff]

theorem won_perm (hmajority : 1 / 2 < threshold) (h : values.Perm values') {kind : Kind}
    (hwon : verdict threshold values = .won kind) : verdict threshold values' = .won kind := by
  rw [verdict_eq_won_iff hmajority] at hwon ⊢
  exact (wins_perm h kind).mp hwon

/-! ### Samples in another order

Each thing that a merge asks of the samples is asked of all of them together, so
a permutation of the samples is one of what is asked. -/

variable {objects objects' : List (Entries Json)}

theorem observations_perm (h : objects.Perm objects') (key : String) :
    (observations objects key).Perm (observations objects' key) :=
  (h.filterMap _).filter _

theorem below_perm (h : objects.Perm objects') (key : String) :
    (below objects key).Perm (below objects' key) :=
  (observations_perm h key).filterMap _

theorem keysSeen_perm (h : objects.Perm objects') :
    (keysSeen objects).Perm (keysSeen objects') := by
  rw [keysSeen, keysSeen, List.perm_ext_iff_of_nodup (nodup_eraseDups _) (nodup_eraseDups _)]
  intro key
  simp only [List.mem_eraseDups, List.mem_flatMap, h.mem_iff]

/-- Samples conflict at the same key paths in any order. -/
theorem ConflictsAt.perm (hmajority : 1 / 2 < threshold) {levels : Nat} {path : List String}
    (h : ConflictsAt threshold levels objects path) (hperm : objects.Perm objects') :
    ConflictsAt threshold levels objects' path := by
  induction h generalizing objects' with
  | @here _ _ key hsplits => exact .here ((splits_perm (observations_perm hperm key)).mp hsplits)
  | @inside _ _ key _ hwon _ ih =>
      apply ConflictsAt.inside
      · exact won_perm hmajority (observations_perm hperm key) hwon
      · exact ih (below_perm hperm key)

theorem nodup_conflicts (levels : Nat) (objects : List (Entries Json)) :
    (merge threshold levels objects).conflicts.Nodup := by
  cases levels with
  | zero => exact List.nodup_nil
  | succ levels => exact nodup_eraseDups _

theorem conflicts_perm (hmajority : 1 / 2 < threshold) (levels : Nat) (h : objects.Perm objects') :
    (merge threshold levels objects).conflicts.Perm
      (merge threshold levels objects').conflicts := by
  rw [List.perm_ext_iff_of_nodup (nodup_conflicts _ _) (nodup_conflicts _ _)]
  intro text
  rw [mem_conflicts_iff, mem_conflicts_iff]
  constructor
  · rintro ⟨path, hpath, htext⟩
    exact ⟨path, hpath.perm hmajority h, htext⟩
  · rintro ⟨path, hpath, htext⟩
    exact ⟨path, hpath.perm hmajority h.symm, htext⟩

/-! ### Representatives -/

/-- What stands for values that a kind has won is of this kind. -/
theorem kind_represent {merge : List (Entries Json) → Merged} {key : String} {kind : Kind}
    (h : verdict threshold values = .won kind) :
    (represent threshold merge key values).1.kind = kind := by
  have hseen := (won_spec h).2
  have hfirst : ((ofKind values kind).headD .null).kind = kind := by
    cases hvalues : ofKind values kind with
    | nil => exact absurd hvalues (ofKind_ne_nil hseen)
    | cons value rest =>
        have hmem : value ∈ ofKind values kind := by
          rw [hvalues]
          exact List.mem_cons_self
        simpa using (List.mem_filter.mp hmem).2
  rw [represent, h]
  cases kind with
  | object =>
      simp only
      split
      · next hnone => exact absurd hnone (exists_entries hseen)
      · rfl
      · rfl
  | array =>
      -- of arrays the first that is not empty is taken, or the first where all are
      -- empty
      change (firstFilled (ofKind values .array)).kind = .array
      rw [firstFilled]
      split
      · next value hfound =>
          have hmem := List.mem_of_find?_eq_some hfound
          simpa using (List.mem_filter.mp hmem).2
      · exact hfirst
  | _ => exact hfirst

/-- By default a kind wins with three fifths. -/
theorem half_lt_majorityThreshold : 1 / 2 < ({} : Limits).majorityThreshold := by
  decide +kernel

/-- The merge of samples that stand at a depth. How many levels are left for it
follows from the depth and the cap. -/
abbrev mergeAt (limits : Limits) (depth : Int) (objects : List (Entries Json)) : Merged :=
  merge limits.majorityThreshold (limits.levelsFrom depth) objects

theorem exists_levels {limits : Limits} {depth : Int} (h : depth < limits.maxDepth) :
    ∃ levels, limits.levelsFrom depth = levels + 1 := by
  have hpositive : limits.levelsFrom depth ≠ 0 := by
    rw [Ne, limits.levelsFrom_eq_zero_iff]
    omega
  exact Nat.exists_eq_succ_of_ne_zero hpositive

/-- Values that split are a conflict at their key. -/
theorem mem_conflicts_of_splits {levels : Nat} {key : String}
    (h : Splits threshold (observations objects key)) :
    key ∈ (merge threshold (levels + 1) objects).conflicts :=
  mem_conflicts_iff.mpr ⟨[key], .here h, String.intercalate_singleton⟩

/-- Samples in another order have values of the same kind at a key where these
do not split. -/
theorem kind_of_perm (hmajority : 1 / 2 < threshold) (levels : Nat) (h : objects.Perm objects')
    {key : String} (hsplits : ¬ Splits threshold (observations objects key)) :
    (Entries.find? (merge threshold (levels + 1) objects).representative key).map Json.kind =
      (Entries.find? (merge threshold (levels + 1) objects').representative key).map Json.kind := by
  have hobserved := observations_perm h key
  by_cases hkey : key ∈ keysSeen objects
  · have hkey' := (keysSeen_perm h).mem_iff.mp hkey
    rw [find?_representative_succ _ _ hkey, find?_representative_succ _ _ hkey']
    rcases verdict_cases threshold (observations objects key) with ⟨hnil, -⟩ |
      ⟨hsplits', -⟩ |
      ⟨-, kind, -, hwon⟩
    · -- only `null` was seen
      rw [hnil] at hobserved ⊢
      rw [List.nil_perm.mp hobserved]
    · exact absurd hsplits' hsplits
    · have hwon' := won_perm hmajority hobserved hwon
      rw [Option.map_some, Option.map_some, kind_represent hwon, kind_represent hwon']
  · have hnone : ∀ {samples : List (Entries Json)}, key ∉ keysSeen samples →
        Entries.find? (merge threshold (levels + 1) samples).representative key = none := by
      intro samples hsamples
      rw [← keys_representative_succ threshold levels, ← Entries.has_eq_false_iff] at hsamples
      rwa [Entries.has, Option.isSome_eq_false_iff, Option.isNone_iff_eq_none] at hsamples
    rw [hnone hkey, hnone fun hmem => hkey ((keysSeen_perm h).mem_iff.mpr hmem)]

/-- Samples in another order have the same conflicts, and below the depth cap
the same keys. At each of these they have values of one kind, unless the values
split there, which is a conflict; where nothing but `null` was seen they have
`null`. -/
theorem merge_of_perm {limits : Limits} (hmajority : 1 / 2 < limits.majorityThreshold) (depth : Int)
    (h : objects.Perm objects') :
    (mergeAt limits depth objects).conflicts.Perm (mergeAt limits depth objects').conflicts ∧
      (depth < limits.maxDepth →
        (Entries.keys (mergeAt limits depth objects).representative).Perm
          (Entries.keys (mergeAt limits depth objects').representative) ∧
        (∀ key, (Splits limits.majorityThreshold (observations objects key) ∧
            key ∈ (mergeAt limits depth objects).conflicts) ∨
          (Entries.find? (mergeAt limits depth objects).representative key).map Json.kind =
            (Entries.find? (mergeAt limits depth objects').representative key).map Json.kind) ∧
        ∀ key ∈ keysSeen objects, observations objects key = [] →
          Entries.find? (mergeAt limits depth objects).representative key = some .null ∧
            Entries.find? (mergeAt limits depth objects').representative key = some .null) := by
  refine ⟨conflicts_perm hmajority _ h, ?_⟩
  intro hdepth
  obtain ⟨levels, hlevels⟩ := exists_levels hdepth
  simp only [mergeAt, hlevels]
  refine ⟨?_, ?_, ?_⟩
  · rw [keys_representative_succ, keys_representative_succ]
    exact keysSeen_perm h
  · intro key
    -- where the values split, the first one stands for them, so the order shows
    by_cases hsplits : Splits limits.majorityThreshold (observations objects key)
    · exact Or.inl ⟨hsplits, mem_conflicts_of_splits hsplits⟩
    · exact Or.inr (kind_of_perm hmajority levels h hsplits)
  · intro key hkey hnull
    have hnull' : observations objects' key = [] :=
      List.perm_nil.mp (hnull ▸ (observations_perm h key).symm)
    have hkey' := (keysSeen_perm h).mem_iff.mp hkey
    rw [find?_representative_succ _ _ hkey, find?_representative_succ _ _ hkey', hnull, hnull']
    exact ⟨rfl, rfl⟩

/-- Samples with a majority under `a`, a split under `b`, nothing under `c` and
a split below `d`. -/
def divided : List (Entries Json) :=
  [[("a", .int 1), ("b", .int 1), ("c", .null), ("d", .obj [("e", .int 1)])],
    [("a", .int 2), ("d", .obj [("e", .str "x")]), ("b", .str "x")],
    [("f", .bool true), ("a", .str "y")]]

theorem merge_of_perm_divided :
    (mergeAt {} 0 divided).conflicts.Perm (mergeAt {} 0 divided.reverse).conflicts ∧
      (Entries.find? (mergeAt {} 0 divided.reverse).representative "a").map Json.kind =
        some .number ∧
      Entries.find? (mergeAt {} 0 divided.reverse).representative "c" = some .null := by
  obtain ⟨hconflicts, hbelow⟩ := merge_of_perm half_lt_majorityThreshold 0
    (List.reverse_perm divided).symm
  obtain ⟨-, hkinds, hnull⟩ := hbelow (by decide)
  refine ⟨hconflicts, ?_, (hnull "c" (by decide +kernel) rfl).2⟩
  rcases hkinds "a" with ⟨hsplits, -⟩ | hkind
  · exact absurd hsplits (by decide +kernel)
  · rw [← hkind]
    decide +kernel

/-- At the depth cap the first sample stands for all, so the keys depend on the
order. -/
theorem keys_at_cap : ∃ objects objects' : List (Entries Json), objects.Perm objects' ∧
    1 / 2 < ({} : Limits).majorityThreshold ∧
    ¬ (Entries.keys (mergeAt {} 8 objects).representative).Perm
      (Entries.keys (mergeAt {} 8 objects').representative) :=
  ⟨[[("b", .int 1)], [("a", .int 1)]], [[("a", .int 1)], [("b", .int 1)]], List.Perm.swap _ _ _,
    half_lt_majorityThreshold, by decide⟩

end Sample

end JsonSelection
