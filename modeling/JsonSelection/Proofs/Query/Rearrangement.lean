import JsonSelection.Proofs.Query.Relocation
import JsonSelection.Proofs.Query.Running
import JsonSelection.Proofs.Sample.Reordering

/-!
# Selections in another order

The selections of a set may be written in any order, at any level. As long as
the response keys of each set are distinct, a run in another order has a result
exactly when the run has one, and the two results are equal up to the order of
keys.

## What this module delivers

- `Selection.Rearranged`: selections in another order, at any level.
- `Selection.KeysApart`: the response keys of each set are distinct.
- `Execution.runAll_eq_mapM`: with distinct response keys a set is a list of
  entries that do not touch each other.
- `Execution.runAll_rearranged`: runs in another order agree up to the order of
  keys.

Which error a run fails with is not kept; `Proofs/Query/Failing` says what it
can be.
-/

set_option autoImplicit false

namespace JsonSelection

open Outcome (Related)

namespace Selection

/-- A selection with the selections of its sets in another order, at any level.
Names, aliases and arguments stay as they are. -/
inductive Rearranged : Selection → Selection → Prop where
  | mk {selection : Selection} {middle children : List Selection} :
      List.Forall₂ Rearranged selection.children middle → middle.Perm children →
      Rearranged selection { selection with children := children }

/-- A selection set in another order, at any level. -/
def RearrangedSet (selections selections' : List Selection) : Prop :=
  ∃ middle, List.Forall₂ Rearranged selections middle ∧ middle.Perm selections'

/-- The response keys of each selection set are distinct. With one key twice the
later selection would replace the earlier one, and order would matter. -/
inductive KeysApart : List Selection → Prop where
  | mk {selections : List Selection} : (selections.map responseKey).Nodup →
      (∀ selection ∈ selections, KeysApart selection.children) → KeysApart selections

variable {selection selection' : Selection} {selections selections' : List Selection}

theorem KeysApart.nodup (h : KeysApart selections) : (selections.map responseKey).Nodup := by
  cases h with
  | mk hnodup _ => exact hnodup

theorem KeysApart.inside (h : KeysApart selections) (hmem : selection ∈ selections) :
    KeysApart selection.children := by
  cases h with
  | mk _ hbelow => exact hbelow selection hmem

theorem Rearranged.responseKey (h : Rearranged selection selection') :
    selection'.responseKey = selection.responseKey := by
  cases h with
  | mk _ _ => rfl

theorem rearranged_of_children (h : RearrangedSet selection.children selections) :
    Rearranged selection { selection with children := selections } := by
  obtain ⟨middle, hforall, hperm⟩ := h
  exact .mk hforall hperm

theorem RearrangedSet.map_responseKey (h : RearrangedSet selections selections') :
    (selections.map Selection.responseKey).Perm (selections'.map Selection.responseKey) := by
  obtain ⟨middle, hforall, hperm⟩ := h
  have hkeys : middle.map Selection.responseKey = selections.map Selection.responseKey := by
    -- the keys stay selection by selection, before any change of places
    clear hperm
    induction hforall with
    | nil => rfl
    | cons hfirst _ ih => rw [List.map_cons, List.map_cons, hfirst.responseKey, ih]
  rw [← hkeys]
  exact hperm.map Selection.responseKey

theorem RearrangedSet.isEmpty (h : RearrangedSet selections selections') :
    selections'.isEmpty = selections.isEmpty := by
  obtain ⟨middle, hforall, hperm⟩ := h
  rw [← hperm.isEmpty_eq]
  cases hforall <;> rfl

theorem rearranged_refl (selections : List Selection) :
    ∀ selection ∈ selections, Rearranged selection selection := by
  induction selections using Selection.induct with
  | nil => simp
  | cons first rest ihBelow ihRest =>
      intro selection hmem
      rcases List.mem_cons.mp hmem with rfl | hrest
      · cases selection
        exact .mk (List.forall₂_same.mpr ihBelow) (.refl _)
      · exact ihRest selection hrest

/-- Each selection of a set has its counterpart in the other order. -/
theorem RearrangedSet.exists_of_mem (h : RearrangedSet selections selections')
    (hmem : selection' ∈ selections') : ∃ selection ∈ selections,
    Rearranged selection selection' := by
  obtain ⟨middle, hforall, hperm⟩ := h
  have hmiddle := hperm.mem_iff.mpr hmem
  clear hperm hmem
  induction hforall with
  | nil => cases hmiddle
  | cons hfirst _ ih =>
      rcases List.mem_cons.mp hmiddle with rfl | hrest
      · exact ⟨_, List.mem_cons_self, hfirst⟩
      · obtain ⟨selection, hselection, hrearranged⟩ := ih hrest
        exact ⟨selection, List.mem_cons_of_mem _ hselection, hrearranged⟩

end Selection

open Selection (Rearranged RearrangedSet KeysApart)
open Sample (ReorderedEntries)
open Json (Reordered)

/-- Entries of one key with values that are equal up to the order of keys. -/
def ReorderedEntry (entry entry' : String × Json) : Prop :=
  entry'.1 = entry.1 ∧ Reordered entry.2 entry'.2

theorem keys_of_reorderedEntry {entries entries' : Entries Json}
    (h : List.Forall₂ ReorderedEntry entries entries') :
    Entries.keys entries' = Entries.keys entries := by
  induction h with
  | nil => rfl
  | cons hentry _ ih =>
      rw [Entries.keys, Entries.keys] at ih ⊢
      rw [List.map_cons, List.map_cons, hentry.1, ih]

theorem find?_of_reorderedEntry {entries entries' : Entries Json}
    (h : List.Forall₂ ReorderedEntry entries entries') (key : String) :
    Option.Rel Reordered (Entries.find? entries key) (Entries.find? entries' key) := by
  induction h with
  | nil => exact .none
  | cons hentry _ ih =>
      rw [Entries.find?, Entries.find?, hentry.1]
      split
      · exact .some hentry.2
      · exact ih

/-- Entries of the same keys whose values are reordered, written in another order. -/
theorem reorderedEntries_of_forall₂ {entries middle entries' : Entries Json}
    (hdistinct : Entries.Distinct entries) (h : List.Forall₂ ReorderedEntry entries middle)
    (hperm : middle.Perm entries') : ReorderedEntries entries entries' := by
  have hkeys := keys_of_reorderedEntry h
  refine ⟨?_, ?_⟩
  · rw [← hkeys]
    exact hperm.map Prod.fst
  · intro key value value' hvalue hvalue'
    have hmiddle : Entries.Distinct middle := by
      rw [Entries.Distinct, hkeys]
      exact hdistinct
    have hfound : Entries.find? middle key = some value' :=
      Entries.find?_of_mem hmiddle (hperm.mem_iff.mpr (Entries.mem_of_find? hvalue'))
    have hrel := find?_of_reorderedEntry h key
    rw [hvalue, hfound] at hrel
    cases hrel with
    | some hreordered => exact hreordered

namespace Execution

variable {schema : Schema}

/-! ### A set as a list of entries

A set writes its entries one over the other. With distinct keys nothing is
written over, so the set can be taken as a list, and lists can be permuted. -/

/-- The entry that a selection adds to the result. A run of a set is a row of
these. -/
def answer (schema : Schema) (owner : NamedType) (source : Json) (path : ResponsePath)
    (selection : Selection) : Outcome (String × Json) :=
  (runOne schema selection owner source (path ++ [selection.responseKey])).map fun value =>
    (selection.responseKey, value)

theorem runAll_eq_putAll (selections : List Selection) (owner : NamedType) (source : Json)
    (path : ResponsePath) (done : Entries Json) :
    runAll schema selections owner source path done =
      (selections.mapM (answer schema owner source path)).map (Entries.putAll done) := by
  induction selections generalizing done with
  | nil => rfl
  | cons selection rest ih =>
      rw [runAll, List.mapM_cons, answer]
      cases runOne schema selection owner source (path ++ [selection.responseKey]) with
      | error error => rfl
      | ok value =>
          dsimp only
          rw [ih]
          cases rest.mapM (answer schema owner source path) with
          | error error => rfl
          | ok entries => rfl

/-- The keys of the entries that selections add are their response keys. -/
theorem keys_of_answers {selections : List Selection} {owner : NamedType} {source : Json}
    {path : ResponsePath} {entries : Entries Json}
    (h : selections.mapM (answer schema owner source path) = .ok entries) :
    Entries.keys entries = selections.map Selection.responseKey := by
  induction selections generalizing entries with
  | nil =>
      obtain rfl := Except.ok.inj h
      rfl
  | cons selection rest ih =>
      rw [List.mapM_cons] at h
      obtain ⟨entry, hentry, h⟩ := Outcome.bind_eq_ok_iff.mp h
      obtain ⟨others, hothers, h⟩ := Outcome.bind_eq_ok_iff.mp h
      obtain rfl := Except.ok.inj h
      obtain ⟨value, -, rfl⟩ := Outcome.map_eq_ok_iff.mp hentry
      rw [List.map_cons, ← ih hothers]
      rfl

/-- With distinct response keys no entry gives way to another. -/
theorem runAll_eq_mapM {selections : List Selection}
    (hdistinct : (selections.map Selection.responseKey).Nodup) (owner : NamedType) (source : Json)
    (path : ResponsePath) :
    runAll schema selections owner source path [] =
      selections.mapM (answer schema owner source path) := by
  rw [runAll_eq_putAll]
  cases hentries : selections.mapM (answer schema owner source path) with
  | error error => rfl
  | ok entries =>
      have hkeys : Entries.Distinct entries := by
        rw [Entries.Distinct, keys_of_answers hentries]
        exact hdistinct
      exact congrArg Except.ok (Entries.ofList_of_distinct hkeys)

/-! ### Runs in another order -/

/-- The outcomes of two runs: results that are equal up to a relation, or errors
of any kind. -/
abbrev AgreeUpTo {α : Type} (values : α → α → Prop) : Outcome α → Outcome α → Prop :=
  Related (fun _ _ => True) values

/-- A step that both runs take goes before steps that agree. -/
theorem AgreeUpTo.bind {α β : Type} {values : β → β → Prop} {x : Outcome α}
    {f f' : α → Outcome β} (hf : ∀ a, AgreeUpTo values (f a) (f' a)) :
    AgreeUpTo values (x >>= f) (x >>= f') :=
  Related.bind_eq (Related.refl (fun _ => trivial) (fun _ => rfl) x) hf

/-- A selection set is run alike in another order, if its selections are run alike. -/
theorem runAll_agree {selections selections' : List Selection}
    (hdistinct : (selections.map Selection.responseKey).Nodup)
    (h : RearrangedSet selections selections') {owner : NamedType} {source : Json}
    {path : ResponsePath} (hone : ∀ selection ∈ selections, ∀ selection',
      Rearranged selection selection' → ∀ here,
      AgreeUpTo Reordered (runOne schema selection owner source here)
        (runOne schema selection' owner source here)) :
    AgreeUpTo ReorderedEntries (runAll schema selections owner source path [])
      (runAll schema selections' owner source path []) := by
  have hdistinct' := h.map_responseKey.nodup_iff.mp hdistinct
  obtain ⟨middle, hforall, hperm⟩ := h
  have hanswers : List.Forall₂ (fun selection selection' => AgreeUpTo ReorderedEntry
      (answer schema owner source path selection) (answer schema owner source path selection'))
      selections middle := by
    refine ((List.forall₂_and_left _ _).mpr ⟨hone, hforall⟩).imp ?_
    rintro selection selection' ⟨halike, hrearranged⟩
    have hkey := hrearranged.responseKey
    rw [answer, answer, hkey]
    exact Related.map (halike selection' hrearranged _) fun _ _ hvalue => ⟨rfl, hvalue⟩
  -- each selection in its place first, and then the places
  have hmiddle := Related.mapM hanswers
  have hlast := Outcome.mapM_perm (f := answer schema owner source path) hperm
  rw [runAll_eq_mapM hdistinct, runAll_eq_mapM hdistinct']
  generalize hentries : selections.mapM (answer schema owner source path) = outcome at hmiddle ⊢
  generalize middle.mapM (answer schema owner source path) = between at hmiddle hlast
  generalize selections'.mapM (answer schema owner source path) = outcome' at hlast ⊢
  cases hmiddle with
  | error _ =>
      cases hlast with
      | error _ => exact .error trivial
  | ok hforall =>
      cases hlast with
      | ok hperm =>
          refine .ok (reorderedEntries_of_forall₂ ?_ hforall hperm)
          rw [Entries.Distinct, keys_of_answers hentries]
          exact hdistinct

/-- A selection is run alike with its selection sets in another order. -/
theorem runOne_rearranged (schema : Schema) (selections : List Selection) :
    ∀ selection ∈ selections, KeysApart selection.children → ∀ selection',
      Rearranged selection selection' → ∀ owner source path,
        AgreeUpTo Reordered (runOne schema selection owner source path)
          (runOne schema selection' owner source path) := by
  induction selections using Selection.induct with
  | nil => simp
  | cons first rest ihBelow ihRest =>
      intro selection hmem hapart selection' hrearranged owner source path
      rcases List.mem_cons.mp hmem with rfl | hrest
      · cases hrearranged with
        | @mk _ middle children hforall hperm =>
            obtain ⟨name, aliasName, arguments, below⟩ := selection
            have hset : RearrangedSet below children := ⟨middle, hforall, hperm⟩
            rw [runOne, runOne]
            split
            · exact .ok (.same _)
            · cases owner.field? name with
              | none => exact .error trivial
              | some field =>
                  -- the checks of the selection itself do not depend on the order
                  dsimp only
                  rw [checkSelection_congr schema field.type name hset.isEmpty path]
                  apply AgreeUpTo.bind
                  rintro -
                  apply AgreeUpTo.bind
                  intro values
                  apply AgreeUpTo.bind
                  intro value
                  apply complete_related .same fun _ _ => .array
                  intro inner element
                  refine Related.map (runAll_agree hapart.nodup hset ?_) fun _ _ hentries =>
                    .object hentries.keys hentries.values
                  intro below hbelow below' hbelow' here
                  exact ihBelow below hbelow (hapart.inside hbelow) below' hbelow' _ element here
      · exact ihRest selection hrest hapart selection' hrearranged owner source path

/-- A selection set is run alike in another order. -/
theorem runAll_rearranged (schema : Schema) {selections selections' : List Selection}
    (hapart : KeysApart selections) (h : RearrangedSet selections selections') (owner : NamedType)
    (source : Json) (path : ResponsePath) :
    AgreeUpTo ReorderedEntries (runAll schema selections owner source path [])
      (runAll schema selections' owner source path []) := by
  apply runAll_agree hapart.nodup h
  intro selection hmem selection' hrearranged here
  exact runOne_rearranged schema selections selection hmem (hapart.inside hmem)
    selection' hrearranged
    owner source here

end Execution

end JsonSelection
