import JsonSelection.Proofs.Outcome
import JsonSelection.Proofs.Sample.Conflicts

/-!
# Merging with its partial steps guarded

Some steps of the analyses have no result for some operands: the first element
of a list, the value at a key, a quotient. A guarded step reports a fault there
(`Fault`), where the step that it stands for is given some value.

## What this module delivers

- `Guarded.first`, `Guarded.member`, `Guarded.share`: the guarded steps, each
  with the operands for which it has a result.
- `Guarded.verdict`, `Guarded.represent`, `Guarded.merge`: the merging of
  samples, step by step with guarded steps.
- `Guarded.mergeItems_eq`: merging reaches no fault. It gives what
  `Sample.mergeItems` gives, for any limits.

The two versions are written apart and proved equal; nothing of the plain
version is used by the guarded one but the steps that have a result for all
operands.
-/

set_option autoImplicit false

namespace JsonSelection

/-- What a partial step is stopped by. The plain functions have a value at these
places, which must never be reached. -/
inductive Fault where
  | divisionByZero
  | emptyList
  | missingKey
deriving DecidableEq, Repr

namespace Guarded

open Sample (Verdict Merged)

variable {α : Type}

/-! ### Partial steps -/

/-- The first element of a list, which an empty list does not have. -/
def first : List α → Except Fault α
  | [] => .error .emptyList
  | item :: _ => .ok item

/-- The value at a key. -/
def member (entries : Entries α) (key : String) : Except Fault α :=
  match entries.find? key with
  | some value => .ok value
  | none => .error .missingKey

/-- A part of some votes. Without any votes there is nothing to divide by. -/
def share (hits count : Nat) : Except Fault Rat :=
  if count = 0 then .error .divisionByZero else .ok ((hits : Rat) / (count : Rat))

theorem first_eq_headD {values : List α} (h : values ≠ []) (other : α) :
    first values = .ok (values.headD other) := by
  cases values with
  | nil => exact absurd rfl h
  | cons value rest => rfl

theorem member_of_find? {entries : Entries α} {key : String} {value : α}
    (h : entries.find? key = some value) : member entries key = .ok value := by
  rw [member, h]

theorem share_of_pos {hits count : Nat} (h : count ≠ 0) :
    share hits count = .ok ((hits : Rat) / (count : Rat)) :=
  if_neg h

/-! ### Kinds and verdicts

A verdict divides the votes of the most frequent kind by the number of values.
It gets there only if there are values, so there is a most frequent kind. -/

/-- The most frequent kind with its votes, in a list of one, or of none if there
are no values. -/
def mostCommon (values : List Json) : List (Kind × Nat) :=
  match Sample.dominant? values with
  | some kind => [(kind, Sample.votes values kind)]
  | none => []

/-- The verdict of the values under a key. -/
def verdict (threshold : Rat) (values : List Json) : Except Fault Verdict :=
  if values.isEmpty then .ok .unobserved
  else if (Sample.kindsSeen values).length = 1 then (first values).map fun value => .won value.kind
  else do
    let (kind, hits) ← first (mostCommon values)
    let part ← share hits values.length
    if part < threshold then (first values).map .split else return .won kind

/-- Values have a most frequent kind. -/
theorem dominant?_spec {values : List Json} (h : values ≠ []) :
    ∃ kind ∈ Sample.kindsSeen values, Sample.dominant? values = some kind := by
  cases values with
  | nil => exact absurd rfl h
  | cons value rest =>
      have hseen : value.kind ∈ Sample.kindsSeen (value :: rest) :=
        Sample.mem_kindsSeen.mpr ⟨value, List.mem_cons_self, rfl⟩
      cases hkinds : Sample.kindsSeen (value :: rest) with
      | nil =>
          rw [hkinds] at hseen
          cases hseen
      | cons first others =>
          exact ⟨_, Sample.leader_mem (value :: rest) first
            others, by rw [Sample.dominant?, hkinds]⟩

/-- A kind that leads the vote comes first in the count. -/
theorem first_mostCommon {values : List Json} {kind : Kind}
    (h : Sample.dominant? values = some kind) :
    first (mostCommon values) = .ok (kind, Sample.votes values kind) := by
  rw [mostCommon, h]
  rfl

/-- A verdict is found without a fault. -/
theorem verdict_eq (threshold : Rat) (values : List Json) :
    verdict threshold values = .ok (Sample.verdict threshold values) := by
  cases values with
  | nil => rfl
  | cons value rest =>
      obtain ⟨kind, hkind, hdominant⟩ := dominant?_spec (List.cons_ne_nil value rest)
      have hseen : value.kind ∈ Sample.kindsSeen (value :: rest) :=
        Sample.mem_kindsSeen.mpr ⟨value, List.mem_cons_self, rfl⟩
      have hfirst := first_mostCommon hdominant
      have hlength : (value :: rest).length ≠ 0 := Nat.succ_ne_zero _
      rw [Sample.dominant?] at hdominant
      simp only [verdict, Sample.verdict, hfirst, share_of_pos hlength]
      cases hkinds : Sample.kindsSeen (value :: rest) with
      | nil =>
          rw [hkinds] at hkind
          cases hkind
      | cons first others =>
          rw [hkinds] at hdominant hseen
          obtain rfl := Option.some.inj hdominant
          cases others with
          | nil =>
              -- one kind only, which is that of the first value
              rw [← List.mem_singleton.mp hseen]
              rfl
          | cons second others =>
              have hfilled : ¬ (value :: rest).isEmpty = true := Bool.false_ne_true
              have hmany : ¬ (first :: second :: others).length = 1 := by simp
              rw [if_neg hfilled, if_neg hmany]
              simp only [Outcome.ok_bind]
              split
              · rfl
              · rfl

/-! ### Representatives -/

/-- The value that stands for the values of the kind that won, and the conflicts
below it. -/
def pick (merge : List (Entries Json) → Except Fault Merged) (values : List Json) (kind : Kind) :
    Except Fault (Json × List String) :=
  let typed := Sample.ofKind values kind
  match kind with
  | .object =>
      if typed.length = 1 then (first typed).map fun value => (value, [])
      else
        (merge (typed.filterMap Json.entries?)).map fun merged =>
          (.obj merged.representative, merged.conflicts)
  | .array =>
      match typed.find? fun value => value.items?.any fun items => !items.isEmpty with
      | some value => .ok (value, [])
      | none => (first typed).map fun value => (value, [])
  | _ => (first typed).map fun value => (value, [])

/-- The value that stands for the values under a key, and the conflicts at the
key and below it. -/
def represent (threshold : Rat) (merge : List (Entries Json) → Except Fault Merged) (key : String)
    (values : List Json) : Except Fault (Json × List String) := do
  match ← verdict threshold values with
  | .unobserved => return (.null, [])
  | .split value => return (value, [key])
  | .won kind =>
      (pick merge values kind).map fun (value, conflicts) =>
        (value, conflicts.map fun path => key ++ "." ++ path)

/-- The objects among some values are those of their kind. -/
theorem ofKind_object (values : List Json) :
    Sample.ofKind values .object = (values.filterMap Json.entries?).map .obj := by
  induction values with
  | nil => rfl
  | cons value rest ih =>
      cases value with
      | obj entries => exact congrArg (Json.obj entries :: ·) ih
      | _ => exact ih

theorem entries_ofKind (values : List Json) :
    (Sample.ofKind values .object).filterMap Json.entries? = values.filterMap Json.entries? := by
  rw [ofKind_object, List.filterMap_map]
  exact List.filterMap_some

/-- A value is found for the values of a kind that is seen among them. -/
theorem pick_eq {merge : List (Entries Json) → Merged}
    {guarded : List (Entries Json) → Except Fault Merged}
    (hmerge : ∀ objects, guarded objects = .ok (merge objects)) {threshold : Rat} (key : String)
    {values : List Json} {kind : Kind} (h : Sample.verdict threshold values = .won kind) :
    (pick guarded values kind).map (fun (value, conflicts) =>
      (value, conflicts.map fun path => key ++ "." ++ path)) =
        .ok (Sample.represent threshold merge key values) := by
  -- only a kind that is seen wins, so there is a value to pick
  have hne := Sample.ofKind_ne_nil (Sample.won_spec h).2
  have hfirst := first_eq_headD hne .null
  rw [Sample.represent, h]
  cases kind with
  | object =>
      simp only [pick, hmerge, entries_ofKind]
      rw [ofKind_object] at hne ⊢
      generalize values.filterMap Json.entries? = objects at hne ⊢
      cases objects with
      | nil => exact absurd List.map_nil hne
      | cons entries rest =>
          cases rest with
          | nil => rfl
          | cons other rest => simp
  | array =>
      simp only [pick, Sample.firstFilled, hfirst]
      cases (Sample.ofKind values .array).find? fun value => value.items?.any fun items =>
          !items.isEmpty with
      | some value => rfl
      | none => rfl
  | _ =>
      simp only [pick, hfirst]
      rfl

theorem represent_eq {merge : List (Entries Json) → Merged}
    {guarded : List (Entries Json) → Except Fault Merged}
    (hmerge : ∀ objects, guarded objects = .ok (merge objects)) (threshold : Rat) (key : String)
    (values : List Json) :
    represent threshold guarded key values = .ok (Sample.represent threshold merge key values) := by
  rw [represent, verdict_eq, Outcome.ok_bind]
  cases hverdict : Sample.verdict threshold values with
  | unobserved =>
      rw [Sample.represent, hverdict]
      rfl
  | split value =>
      rw [Sample.represent, hverdict]
      rfl
  | won kind => exact pick_eq hmerge key hverdict

/-! ### Merging -/

/-- Merges objects key by key. With no level left the first object, if there is
one, stands for all. -/
def merge (threshold : Rat) : Nat → List (Entries Json) → Except Fault Merged
  | 0, objects =>
      if objects.isEmpty then .ok ⟨[], []⟩
        else (first objects).map fun entries => ⟨entries, []⟩
  | levels + 1, objects => do
      let chosen ← (Sample.keysSeen objects).mapM fun key =>
        (represent threshold (merge threshold levels) key (Sample.observations objects key)).map
          fun found => (key, found)
      return {
        representative := chosen.map fun entry => (entry.1, entry.2.1)
        conflicts := (chosen.flatMap fun entry => entry.2.2).eraseDups }

/-- Merges the objects among the elements that are looked at, if there are any. -/
def mergeItems (limits : Limits) (levels : Nat) (items : List Json) :
    Except Fault (Option Merged) :=
  let objects := (Sample.ofItems limits items).filterMap Json.entries?
  if objects.isEmpty then .ok none
  else (merge limits.majorityThreshold levels objects).map some

/-- Merging reaches no fault. -/
theorem merge_eq (threshold : Rat) (levels : Nat) (objects : List (Entries Json)) :
    merge threshold levels objects = .ok (Sample.merge threshold levels objects) := by
  induction levels generalizing objects with
  | zero =>
      cases objects with
      | nil => rfl
      | cons entries rest => rfl
  | succ levels ih =>
      simp only [merge, Sample.merge, represent_eq ih, Outcome.map_ok]
      rw [Outcome.mapM_of_ok fun key _ => rfl]
      rfl

theorem mergeItems_eq (limits : Limits) (levels : Nat) (items : List Json) :
    mergeItems limits levels items = .ok (Sample.mergeItems limits levels items) := by
  simp only [mergeItems, Sample.mergeItems, merge_eq]
  cases (Sample.ofItems limits items).filterMap Json.entries? with
  | nil => rfl
  | cons entries rest => rfl

end Guarded

end JsonSelection
