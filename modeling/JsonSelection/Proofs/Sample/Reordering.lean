import JsonSelection.Proofs.Sample.Congruence

/-!
# Values up to the order of keys

Two values are equal up to the order of keys when they differ only in the places
of the entries in objects, at any depth (`Json.Reordered`). Arrays are compared
element by element, since their order means something.

Samples that are equal up to the order of keys are merged to objects that are
(`Sample.merge_reordered`). The merged keys stand in the order in which they
were first seen, which may differ, so the proof compares the merged objects key
by key.
-/

set_option autoImplicit false

namespace JsonSelection

/-- Two values that differ only in the order of the keys of objects, at any depth. -/
inductive Json.Reordered : Json → Json → Prop where
  | same (value : Json) : Reordered value value
  | array {items items' : List Json} : List.Forall₂ Reordered items items' →
      Reordered (.arr items) (.arr items')
  | object {entries entries' : Entries Json} :
      (Entries.keys entries).Perm (Entries.keys entries') →
      (∀ key value value', Entries.find? entries key = some value →
        Entries.find? entries' key = some value' → Reordered value value') →
      Reordered (.obj entries) (.obj entries')

namespace Sample

open Json (Reordered)

/-- Objects of the same keys in any order, with values that are equal up to the
order of keys. -/
structure ReorderedEntries (entries entries' : Entries Json) : Prop where
  keys : (Entries.keys entries).Perm (Entries.keys entries')
  values : ∀ key value value', Entries.find? entries key = some value →
    Entries.find? entries' key = some value' → Reordered value value'

theorem reorderedEntries_refl (entries : Entries Json) : ReorderedEntries entries entries := by
  refine ⟨List.Perm.refl _, ?_⟩
  intro key value value' hvalue hvalue'
  rw [hvalue] at hvalue'
  obtain rfl := Option.some.inj hvalue'
  exact .same value

/-- The same entries in another order. -/
theorem reordered_of_perm {entries entries' : Entries Json} (hdistinct : Entries.Distinct entries)
    (h : entries.Perm entries') : Reordered (.obj entries) (.obj entries') := by
  refine .object (h.map Prod.fst) ?_
  intro key value value' hvalue hvalue'
  have hmem : (key, value') ∈ entries := h.mem_iff.mpr (Entries.mem_of_find? hvalue')
  have hfound := Entries.find?_of_mem hdistinct hmem
  rw [hvalue] at hfound
  obtain rfl := Option.some.inj hfound
  exact .same value

/-- A key is found in both objects or in neither. -/
theorem ReorderedEntries.find? {entries entries' : Entries Json}
    (h : ReorderedEntries entries entries') (key : String) :
    Option.Rel Reordered (entries.find? key) (entries'.find? key) := by
  have hhas : Entries.has entries key = Entries.has entries' key := by
    rw [Bool.eq_iff_iff, Entries.has_iff_mem_keys, Entries.has_iff_mem_keys, h.keys.mem_iff]
  have hvalues := h.values key
  rw [Entries.has, Entries.has] at hhas
  cases hfound : entries.find? key with
  | none =>
      cases hfound' : entries'.find? key with
      | none => exact .none
      | some value' => simp [hfound, hfound'] at hhas
  | some value =>
      cases hfound' : entries'.find? key with
      | none => simp [hfound, hfound'] at hhas
      | some value' => exact .some (hvalues value value' hfound hfound')

/-- Merging goes along with the order of keys. -/
theorem congruent_reordered : Congruent Reordered ReorderedEntries where
  null := .same .null
  kind h := by cases h <;> rfl
  isFilled h := by
    cases h with
    | same => rfl
    | array hitems => cases hitems <;> rfl
    | object _ _ => rfl
  object {entries entries'} := by
    constructor
    · intro h
      cases h with
      | same => exact reorderedEntries_refl entries
      | object hkeys hvalues => exact ⟨hkeys, hvalues⟩
    · rintro ⟨hkeys, hvalues⟩
      exact .object hkeys hvalues
  find? := ReorderedEntries.find?

theorem mem_keysSeen_reordered {objects objects' : List (Entries Json)}
    (h : List.Forall₂ ReorderedEntries objects objects') (key : String) :
    key ∈ keysSeen objects ↔ key ∈ keysSeen objects' := by
  simp only [keysSeen, List.mem_eraseDups]
  induction h with
  | nil => exact Iff.rfl
  | cons hentries _ ih =>
      rw [List.flatMap_cons, List.flatMap_cons, List.mem_append, List.mem_append,
      hentries.keys.mem_iff, ih]

/-- Samples that are equal up to the order of keys are merged to objects that are. -/
theorem merge_reordered (threshold : Rat) (levels : Nat) {objects objects' : List (Entries Json)}
    (h : List.Forall₂ ReorderedEntries objects objects') :
    ReorderedEntries (merge threshold levels objects).representative
      (merge threshold levels objects').representative := by
  induction levels generalizing objects objects' with
  | zero =>
      -- the first sample stands for all
      cases h with
      | nil => exact reorderedEntries_refl []
      | cons hentries _ => exact hentries
  | succ levels ih =>
      have hseen := mem_keysSeen_reordered h
      have hkeys : (keysSeen objects).Perm (keysSeen objects') :=
        (List.perm_ext_iff_of_nodup (nodup_eraseDups _) (nodup_eraseDups _)).mpr hseen
      refine ⟨?_, ?_⟩
      · rw [keys_representative_succ, keys_representative_succ]
        exact hkeys
      · intro key value value' hvalue hvalue'
        have hkey : key ∈ keysSeen objects := by
          rw [← keys_representative_succ threshold levels]
          exact List.mem_map_of_mem (Entries.mem_of_find? hvalue)
        rw [find?_representative_succ _ _ hkey] at hvalue
        rw [find?_representative_succ _ _ ((hseen key).mp hkey)] at hvalue'
        obtain rfl := Option.some.inj hvalue
        obtain rfl := Option.some.inj hvalue'
        exact congruent_reordered.represent ih threshold key
          (congruent_reordered.observations h key)

end Sample

end JsonSelection
