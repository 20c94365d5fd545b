import JsonSelection.Proofs.Sample.Congruence

/-!
# Values that differ past the samples

Two values coincide up to the samples when they differ only in elements of
arrays that stand after those that are looked at, in arrays of which an element
that is looked at is not `null`.

## What this module delivers

- `Sample.Coincide`: the relation, at any depth.
- `Sample.SameItems`: what the analyses take from an array is then related in
  the same way. That is the elements looked at, the first of all and the first
  that is not `null`, and whether there are any.
- `Sample.congruent_coincide`: merging goes along with the relation.
- `Sample.merge_coincide`: so merged objects coincide, and have the same
  conflicts.

An array whose sample holds nothing but `null` is excluded, because the type of
such an array is that of the first element that is not `null`, wherever it
stands.
-/

set_option autoImplicit false

namespace JsonSelection

namespace Sample

/-- Two values that differ only past the elements of arrays that are looked at.
Of such an array at least one element that is looked at is not `null`. -/
inductive Coincide (limits : Limits) : Json → Json → Prop where
  | same (value : Json) : Coincide limits value value
  | object {entries entries' : Entries Json} : Entries.keys entries = Entries.keys entries' →
      List.Forall₂ (Coincide limits) (entries.map Prod.snd) (entries'.map Prod.snd) →
      Coincide limits (.obj entries) (.obj entries')
  | array {items items' : List Json} : List.Forall₂ (Coincide limits) items items' →
      Coincide limits (.arr items) (.arr items')
  | sampled {items items' : List Json} :
      List.Forall₂ (Coincide limits) (ofItems limits items) (ofItems limits items') →
      (∃ item ∈ ofItems limits items, item.isNull = false) →
      Coincide limits (.arr items) (.arr items')

/-- Lists whose values coincide one by one. -/
abbrev CoincideAll (limits : Limits) : List Json → List Json → Prop :=
  List.Forall₂ (Coincide limits)

/-- Entries of the same keys in the same order, whose values coincide. -/
abbrev CoincideEntries (limits : Limits) : Entries Json → Entries Json → Prop :=
  List.Forall₂ fun entry entry' => entry.1 = entry'.1 ∧ Coincide limits entry.2 entry'.2

variable {limits : Limits}

theorem coincideAll_refl (values : List Json) : CoincideAll limits values values :=
  List.forall₂_same.mpr fun value _ => .same value

theorem coincideEntries_refl (entries : Entries Json) : CoincideEntries limits entries entries :=
  List.forall₂_same.mpr fun entry _ => ⟨rfl, .same entry.2⟩

theorem coincideEntries_of_keys {entries entries' : Entries Json}
    (hkeys : Entries.keys entries = Entries.keys entries')
    (h : CoincideAll limits (entries.map Prod.snd) (entries'.map Prod.snd)) :
    CoincideEntries limits entries entries' := by
  induction entries generalizing entries' with
  | nil =>
      cases entries' with
      | nil => exact .nil
      | cons entry' rest' => cases h
  | cons entry rest ih =>
      cases entries' with
      | nil => cases h
      | cons entry' rest' =>
          obtain ⟨hkey, hrest⟩ := List.cons.inj hkeys
          cases h with
          | cons hvalue hvalues => exact .cons ⟨hkey, hvalue⟩ (ih hrest hvalues)

theorem coincideAll_values {entries entries' : Entries Json}
    (h : CoincideEntries limits entries entries') :
    CoincideAll limits (entries.map Prod.snd) (entries'.map Prod.snd) := by
  induction h with
  | nil => exact .nil
  | cons hentry _ ih => exact .cons hentry.2 ih

theorem keys_eq {entries entries' : Entries Json} (h : CoincideEntries limits entries entries') :
    Entries.keys entries = Entries.keys entries' := by
  induction h with
  | nil => rfl
  | cons hentry _ ih => exact List.cons_eq_cons.mpr ⟨hentry.1, ih⟩

theorem coincide_obj {entries entries' : Entries Json}
    (h : CoincideEntries limits entries entries') :
    Coincide limits (.obj entries) (.obj entries') :=
  .object (keys_eq h) (coincideAll_values h)

theorem Coincide.kind_eq {value value' : Json} (h : Coincide limits value value') :
    value.kind = value'.kind := by
  cases h with
  | same => rfl
  | object _ _ => rfl
  | array _ => rfl
  | sampled _ _ => rfl

/-- What coincides with an object is an object of the same keys. -/
theorem Coincide.entries {entries : Entries Json} {value : Json}
    (h : Coincide limits (.obj entries) value) :
    ∃ entries', value = .obj entries' ∧ CoincideEntries limits entries entries' := by
  cases h with
  | same => exact ⟨entries, rfl, coincideEntries_refl entries⟩
  | object hkeys hvalues => exact ⟨_, rfl, coincideEntries_of_keys hkeys hvalues⟩

/-! ### Lists of values -/

variable {values values' : List Json}

theorem kindsSeen_eq (h : CoincideAll limits values values') :
    kindsSeen values = kindsSeen values' :=
  kindsSeen_congr (map_kind_related Coincide.kind_eq h)

theorem coincideAll_present (h : CoincideAll limits values values') :
    CoincideAll limits (present values) (present values') :=
  present_related Coincide.kind_eq h

theorem coincide_headD (h : CoincideAll limits values values') :
    Coincide limits (values.headD .null) (values'.headD .null) :=
  headD_related h (.same .null)

/-! ### Arrays

Of the two samples, that for types is the longer one. What is asked of it beyond
its elements is answered within it, given an element that is not `null`. -/

/-- What the analyses take from two arrays coincides: the elements for types and
for costs, the first of all, and the first that is not `null`. -/
structure SameItems (limits : Limits) (items items' : List Json) : Prop where
  isEmpty : items.isEmpty = items'.isEmpty
  sample : CoincideAll limits (ofItems limits items) (ofItems limits items')
  costs : CoincideAll limits (Slice.before items limits.costSampleSize)
    (Slice.before items' limits.costSampleSize)
  first : Coincide limits (items.headD .null) (items'.headD .null)
  present : Coincide limits ((present items).headD .null) ((present items').headD .null)

/-- Either both arrays are empty or neither is. -/
theorem SameItems.nil_or_cons {items items' : List Json} (h : SameItems limits items items') :
    (items = [] ∧ items' = []) ∨
      ∃ item rest item' rest', items = item :: rest ∧ items' = item' :: rest' := by
  have hempty := h.isEmpty
  cases items with
  | nil =>
      cases items' with
      | nil => exact Or.inl ⟨rfl, rfl⟩
      | cons item' rest' => cases hempty
  | cons item rest =>
      cases items' with
      | nil => cases hempty
      | cons item' rest' => exact Or.inr ⟨item, rest, item', rest', rfl, rfl⟩

theorem coincideAll_before {items items' : List Json} (h : CoincideAll limits items items')
    (stop : Int) :
    CoincideAll limits (Slice.before items stop) (Slice.before items' stop) :=
  before_related h stop

theorem sameItems_of_all {items items' : List Json} (h : CoincideAll limits items items') :
    SameItems limits items items' := by
  refine ⟨?_, coincideAll_before h _, coincideAll_before h _, coincide_headD h,
    coincide_headD (coincideAll_present h)⟩
  cases h <;> rfl

/-- The first value that is not `null` is found among those that are looked at,
if there is one. -/
theorem headD_present_take {items : List Json} {count : Nat}
    (h : ∃ item ∈ items.take count, item.isNull = false) :
    (present items).headD .null = (present (items.take count)).headD .null := by
  obtain ⟨item, hitem, hnull⟩ := h
  have hmem : item ∈ present (items.take count) := (mem_present_iff _ _).mpr ⟨hitem, hnull⟩
  have hsplit : present items = present (items.take count) ++ present (items.drop count) := by
    rw [present, present, present, ← List.filter_append, List.take_append_drop]
  rw [hsplit]
  cases hlooked : present (items.take count) with
  | nil =>
      rw [hlooked] at hmem
      cases hmem
  | cons first rest => rfl

/-- The analyses take nothing from an array that stands past its sample. -/
theorem sameItems_of_sample (hcost : 1 ≤ limits.costSampleSize)
    (hsample : limits.costSampleSize ≤ limits.sampleSize) {items items' : List Json}
    (h : CoincideAll limits (ofItems limits items) (ofItems limits items'))
    (hpresent : ∃ item ∈ ofItems limits items, item.isNull = false) :
    SameItems limits items items' := by
  have hlooked : ∀ list : List Json, ofItems limits list = list.take limits.sampleSize.toNat :=
    fun list => Slice.before_of_nonneg list (by omega)
  have hcosts : ∀ list : List Json, Slice.before list limits.costSampleSize =
      (ofItems limits list).take limits.costSampleSize.toNat := by
    intro list
    rw [hlooked, Slice.before_of_nonneg list (by omega), List.take_take, Nat.min_eq_left (by omega)]
  -- at least one element is looked at
  obtain ⟨rest, hrest⟩ : ∃ rest, limits.sampleSize.toNat = rest + 1 :=
    ⟨limits.sampleSize.toNat - 1, by omega⟩
  have hfirst : ∀ list : List Json, list.headD .null = (ofItems limits list).headD .null := by
    intro list
    rw [hlooked, hrest]
    cases list <;> rfl
  have hempty : ∀ list : List Json, list.isEmpty = (ofItems limits list).isEmpty := by
    intro list
    rw [hlooked, hrest]
    cases list <;> rfl
  have hpresent' : ∃ item ∈ ofItems limits items', item.isNull = false := by
    obtain ⟨item, hitem, hnull⟩ := hpresent
    have hmem := (mem_present_iff _ _).mpr ⟨hitem, hnull⟩
    have hall := coincideAll_present h
    cases hother : present (ofItems limits items') with
    | nil =>
        rw [hother] at hall
        rw [List.forall₂_nil_right_iff.mp hall] at hmem
        cases hmem
    | cons other others =>
        have hmem' : other ∈ present (ofItems limits items') := by simp [hother]
        exact ⟨other, (mem_present_iff _ _).mp hmem'⟩
  refine ⟨?_, h, ?_, ?_, ?_⟩
  · rw [hempty items, hempty items']
    exact (sameItems_of_all h).isEmpty
  · rw [hcosts, hcosts]
    exact List.forall₂_take _ h
  · rw [hfirst items, hfirst items']
    exact coincide_headD h
  · -- the first value that is not null stands inside the sample of either array
    rw [hlooked] at hpresent hpresent' h
    rw [hlooked] at h
    rw [headD_present_take hpresent, headD_present_take hpresent']
    exact coincide_headD (coincideAll_present h)

/-- What coincides with an array is an array from which the analyses take the same. -/
theorem Coincide.items (hcost : 1 ≤ limits.costSampleSize)
    (hsample : limits.costSampleSize ≤ limits.sampleSize) {items : List Json} {value : Json}
    (h : Coincide limits (.arr items) value) :
    ∃ items', value = .arr items' ∧ SameItems limits items items' := by
  cases h with
  | same => exact ⟨items, rfl, sameItems_of_all (coincideAll_refl items)⟩
  | array hitems => exact ⟨_, rfl, sameItems_of_all hitems⟩
  | sampled hitems hpresent => exact ⟨_, rfl, sameItems_of_sample hcost hsample hitems hpresent⟩

/-! ### Merging -/

/-- Verdicts that agree but for the value that stands for a split. -/
inductive SameVerdict (limits : Limits) : Verdict → Verdict → Prop where
  | unobserved : SameVerdict limits .unobserved .unobserved
  | split {first first' : Json} : Coincide limits first first' →
      SameVerdict limits (.split first) (.split first')
  | won (kind : Kind) : SameVerdict limits (.won kind) (.won kind)

theorem sameVerdict (h : CoincideAll limits values values') (threshold : Rat) :
    SameVerdict limits (verdict threshold values) (verdict threshold values') := by
  rcases verdict_congr (map_kind_related Coincide.kind_eq h) threshold with
    ⟨hverdict, hverdict'⟩ | ⟨hverdict, hverdict'⟩ | ⟨kind, hverdict, hverdict'⟩
  · rw [hverdict, hverdict']
    exact .unobserved
  · rw [hverdict, hverdict']
    exact .split (coincide_headD h)
  · rw [hverdict, hverdict']
    exact .won kind

/-- Merged objects that agree in their conflicts and coincide otherwise. Their
keys stand in one order. -/
structure SameMerged (limits : Limits) (merged merged' : Merged) : Prop where
  representative : CoincideEntries limits merged.representative merged'.representative
  conflicts : merged.conflicts = merged'.conflicts

section Objects

variable {objects objects' : List (Entries Json)}

theorem keysSeen_eq (h : List.Forall₂ (CoincideEntries limits) objects objects') :
    keysSeen objects = keysSeen objects' := by
  have hkeys : objects.flatMap Entries.keys = objects'.flatMap Entries.keys := by
    induction h with
    | nil => rfl
    | cons hentries _ ih => rw [List.flatMap_cons, List.flatMap_cons, keys_eq hentries, ih]
  rw [keysSeen, keysSeen, hkeys]

/-- Objects of the same keys hold values under the same ones. -/
theorem find?_coincide {entries entries' : Entries Json}
    (h : CoincideEntries limits entries entries') (key : String) : Option.Rel (Coincide limits)
    (entries.find? key) (entries'.find? key) := by
  induction h with
  | nil => exact .none
  | @cons entry entry' rest rest' hentry _ ih =>
      simp only [Entries.find?]
      rw [← hentry.1]
      split
      · exact .some hentry.2
      · exact ih

end Objects

section Depth

variable (hcost : 1 ≤ limits.costSampleSize)
  (hsample : limits.costSampleSize ≤ limits.sampleSize)

include hcost hsample

/-- Merging goes along with values that differ past the samples. -/
theorem congruent_coincide : Congruent (Coincide limits) (CoincideEntries limits) where
  null := .same .null
  kind := Coincide.kind_eq
  isFilled {value value'} h := by
    cases value with
    | arr items =>
        obtain ⟨items', rfl, hitems⟩ := h.items hcost hsample
        exact congrArg (!·) hitems.isEmpty
    | _ => cases h <;> rfl
  object {entries entries'} := by
    constructor
    · intro h
      obtain ⟨_, heq, hentries⟩ := h.entries
      obtain rfl := Json.obj.inj heq
      exact hentries
    · exact coincide_obj
  find? := find?_coincide

/-- What stands for the values under a key, when merging the objects a level
down keeps the relation. -/
theorem represent_coincide (threshold : Rat) {merge : List (Entries Json) → Merged}
    (hmerge : ∀ {objects objects'}, List.Forall₂ (CoincideEntries limits) objects objects' →
      SameMerged limits (merge objects) (merge objects')) (key : String)
    (h : CoincideAll limits values values') :
    Coincide limits (represent threshold merge key values).1 (represent threshold merge
      key values').1 ∧
      (represent threshold merge key values).2 = (represent threshold merge key values').2 := by
  have hcongruent := congruent_coincide hcost hsample
  refine ⟨hcongruent.represent (fun hobjects => (hmerge hobjects).representative) threshold key h,
    ?_⟩
  -- only objects have conflicts below them
  have hverdict := sameVerdict h threshold
  rw [represent, represent]
  generalize verdict threshold values = choice at hverdict
  generalize verdict threshold values' = choice' at hverdict
  cases hverdict with
  | unobserved => rfl
  | split _ => rfl
  | won kind =>
      cases kind with
      | object =>
          have hobjects := hcongruent.objects h
          dsimp only
          generalize values.filterMap Json.entries? = objects at hobjects
          generalize values'.filterMap Json.entries? = objects' at hobjects
          cases hobjects with
          | nil => rfl
          | cons hfirst hrest =>
              cases hrest with
              | nil => rfl
              | cons hsecond hrest =>
                  exact congrArg (List.map _)
                    (hmerge (.cons hfirst (.cons hsecond hrest))).conflicts
      | _ => rfl

/-- Merging objects that coincide finds the same conflicts and gives objects
that coincide. -/
theorem merge_coincide (threshold : Rat) (levels : Nat) {objects objects' : List (Entries Json)}
    (h : List.Forall₂ (CoincideEntries limits) objects objects') :
    SameMerged limits (merge threshold levels objects) (merge threshold levels objects') := by
  induction levels generalizing objects objects' with
  | zero =>
      refine ⟨?_, rfl⟩
      cases h with
      | nil => exact .nil
      | cons hentries _ => exact hentries
  | succ levels ih =>
      have hchosen := fun key => represent_coincide hcost hsample threshold ih key
        ((congruent_coincide hcost hsample).observations h key)
      -- the keys are the same and in one order, so the chosen entries stand side by side
      simp only [merge]
      rw [← keysSeen_eq h]
      refine ⟨?_, ?_⟩
      · simp only [List.map_map, List.forall₂_map_left_iff, List.forall₂_map_right_iff]
        exact List.forall₂_same.mpr fun key _ => ⟨rfl, (hchosen key).1⟩
      · simp only [List.flatMap_map]
        simp only [(hchosen _).2]

/-- Merging the elements of two arrays that are looked at. -/
theorem mergeItems_coincide (levels : Nat) {items items' : List Json}
    (h : SameItems limits items items') :
    Option.Rel (SameMerged limits) (mergeItems limits levels items)
    (mergeItems limits levels items') := by
  have hobjects := (congruent_coincide hcost hsample).objects h.sample
  rw [mergeItems, mergeItems]
  generalize (ofItems limits items).filterMap Json.entries? = objects at hobjects
  generalize (ofItems limits items').filterMap Json.entries? = objects' at hobjects
  cases hobjects with
  | nil => exact .none
  | cons hfirst hrest =>
      exact .some (merge_coincide hcost hsample limits.majorityThreshold levels
        (.cons hfirst hrest))

end Depth

/-- Whether the elements looked at are of more than one kind. -/
theorem isMixed_eq {items items' : List Json} (h : SameItems limits items items') :
    isMixed limits items = isMixed limits items' := by
  rw [isMixed, isMixed, kindsSeen_eq (coincideAll_present h.sample)]

end Sample

end JsonSelection
