import JsonSelection.Proofs.Entries
import JsonSelection.Sample

/-!
# Merged samples are well formed

A merged object holds no key twice, at any depth (`Sample.merge_wellFormed`):
its keys are those that the samples hold, each once, and each value is taken
from a sample or merged from samples in turn.

Beside this the module says what stands under a key of a merged object
(`Sample.find?_representative_succ`) and which keys it has
(`Sample.keys_representative_succ`), for a merge with a level left. These two
are how all other proofs look into a merge.
-/

set_option autoImplicit false

namespace JsonSelection

theorem Json.WellFormed.value {entries : List (String × Json)} (h : (Json.obj entries).WellFormed)
    {entry : String × Json} (hentry : entry ∈ entries) : entry.2.WellFormed :=
  (entriesWellFormed_iff entries).mp h.2 entry hentry

namespace Sample

theorem nodup_eraseDups {α : Type} [BEq α] [LawfulBEq α] (items : List α) :
    items.eraseDups.Nodup := by
  -- the rest is searched for duplicates after the first element is taken out of it
  induction hlength : items.length using Nat.strongRecOn generalizing items with
  | ind length ih =>
      cases items with
      | nil => exact List.nodup_nil
      | cons item rest =>
          have hshorter := List.length_filter_le (fun other => !other == item) rest
          rw [List.length_cons] at hlength
          rw [List.eraseDups_cons, List.nodup_cons]
          constructor
          · rw [List.mem_eraseDups]
            simp
          · exact ih _ (by omega) _ rfl

theorem observations_wellFormed {objects : List (Entries Json)}
    (h : ∀ entries ∈ objects, (Json.obj entries).WellFormed) (key : String) :
    ∀ value ∈ observations objects key, value.WellFormed := by
  intro value hvalue
  rw [observations, mem_present_iff, List.mem_filterMap] at hvalue
  obtain ⟨⟨entries, hentries, hfind⟩, -⟩ := hvalue
  exact (h entries hentries).value (Entries.mem_of_find? hfind)

/-- The first of some values, or `null`. -/
theorem headD_wellFormed {values : List Json} (h : ∀ value ∈ values, value.WellFormed) :
    (values.headD .null).WellFormed := by
  cases values with
  | nil => trivial
  | cons value rest => exact h value List.mem_cons_self

theorem firstFilled_wellFormed {values : List Json} (h : ∀ value ∈ values, value.WellFormed) :
    (firstFilled values).WellFormed := by
  rw [firstFilled]
  split
  · next value hfind => exact h value (List.mem_of_find?_eq_some hfind)
  · exact headD_wellFormed h

theorem ofKind_wellFormed {values : List Json} (h : ∀ value ∈ values, value.WellFormed)
    (kind : Kind) : ∀ value ∈ ofKind values kind, value.WellFormed :=
  fun value hvalue => h value (List.mem_filter.mp hvalue).1

theorem entries_wellFormed {values : List Json} (h : ∀ value ∈ values, value.WellFormed) :
    ∀ entries ∈ values.filterMap Json.entries?, (Json.obj entries).WellFormed := by
  intro entries hentries
  obtain ⟨value, hvalue, heq⟩ := List.mem_filterMap.mp hentries
  cases value with
  | obj others =>
      obtain rfl := Option.some.inj heq
      exact h _ hvalue
  | _ => cases heq

/-- What stands for values of one key is well formed if a merge of objects is. -/
theorem represent_wellFormed {threshold : Rat} {merge : List (Entries Json) → Merged}
    (hmerge : ∀ objects, (∀ entries ∈ objects, (Json.obj entries).WellFormed) →
      (Json.obj (merge objects).representative).WellFormed) (key : String) {values : List Json}
    (h : ∀ value ∈ values, value.WellFormed) :
    (represent threshold merge key values).1.WellFormed := by
  rw [represent]
  split
  · trivial
  · next first hverdict =>
      -- of a split the first value is shown, whatever its kind
      have hfirst : first = values.headD .null := by
        cases values with
        | nil => cases hverdict
        | cons value rest =>
            simp only [verdict] at hverdict
            split at hverdict
            · cases hverdict
            · cases hverdict
            · split at hverdict
              · exact (Verdict.split.inj hverdict).symm
              · cases hverdict
      rw [hfirst]
      exact headD_wellFormed h
  · split
    · trivial
    · next entries heq =>
        exact entries_wellFormed h entries (heq ▸ List.mem_singleton_self entries)
    · next objects _ _ heq => exact hmerge _ (entries_wellFormed h)
  · exact firstFilled_wellFormed (ofKind_wellFormed h .array)
  · next kind _ _ _ => exact headD_wellFormed (ofKind_wellFormed h kind)

/-- A merged object holds under each key of the samples what stands for the
values that are seen there. -/
theorem representative_succ (threshold : Rat) (levels : Nat) (objects : List (Entries Json)) :
    (merge threshold (levels + 1) objects).representative = (keysSeen objects).map fun key =>
      (key, (represent threshold (merge threshold levels) key (observations objects key)).1) := by
  simp only [merge, List.map_map]
  rfl

theorem keys_representative_succ (threshold : Rat) (levels : Nat) (objects : List (Entries Json)) :
    Entries.keys (merge threshold (levels + 1) objects).representative = keysSeen objects := by
  rw [representative_succ, Entries.keys, List.map_map]
  exact List.map_id _

theorem find?_representative_succ (threshold : Rat) (levels : Nat) {objects : List (Entries Json)}
    {key : String} (h : key ∈ keysSeen objects) :
    Entries.find? (merge threshold (levels + 1) objects).representative key =
      some (represent threshold (merge threshold levels) key (observations objects key)).1 := by
  have hdistinct : ((keysSeen objects).map id).Nodup := by
    rw [List.map_id]
    exact nodup_eraseDups _
  rw [representative_succ]
  exact Entries.find?_map_of_mem hdistinct _ h

/-- Merging well-formed objects gives a well-formed object. -/
theorem merge_wellFormed (threshold : Rat) (levels : Nat) {objects : List (Entries Json)}
    (h : ∀ entries ∈ objects, (Json.obj entries).WellFormed) :
    (Json.obj (merge threshold levels objects).representative).WellFormed := by
  induction levels generalizing objects with
  | zero =>
      cases objects with
      | nil => exact ⟨List.nodup_nil, trivial⟩
      | cons entries rest => exact h entries List.mem_cons_self
  | succ levels ih =>
      refine ⟨?_, ?_⟩
      · rw [Entries.Distinct, keys_representative_succ]
        exact nodup_eraseDups _
      · rw [Json.entriesWellFormed_iff, representative_succ]
        intro entry hentry
        obtain ⟨key, -, rfl⟩ := List.mem_map.mp hentry
        exact represent_wellFormed (fun _ => ih) key (observations_wellFormed h key)

theorem mergeItems_wellFormed (limits : Limits) (levels : Nat) {items : List Json}
    (h : ∀ item ∈ items, item.WellFormed) {merged : Merged}
    (hmerged : mergeItems limits levels items = some merged) :
    (Json.obj merged.representative).WellFormed := by
  have hlooked : ∀ item ∈ ofItems limits items, item.WellFormed :=
    fun item hitem => h item (List.mem_of_mem_take hitem)
  rw [mergeItems] at hmerged
  split at hmerged
  · cases hmerged
  · obtain rfl := Option.some.inj hmerged
    exact merge_wellFormed limits.majorityThreshold levels (entries_wellFormed hlooked)

end Sample

end JsonSelection
