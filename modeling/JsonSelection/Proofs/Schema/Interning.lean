import JsonSelection.Proofs.Schema.Ascending
import JsonSelection.Proofs.Schema.Places

/-!
# Interned types

One registry may serve any number of inferences, one after the other. Each of
them only adds types at its end, and after each of them every type stands under
its own name, has a field, and refers to registered types with longer names
only.

## What this module delivers

- `Registry.Interned`: a registry that holds each type once, complete, and with
  all types that it refers to, none of which leads back.
- `Inference.settled_of_run`: what one call makes of a settled registry.
- `Inference.settled_of_runAll`: any calls in order leave a settled registry
  settled.
- `Inference.interned_of_calls`: so the registry is interned after any calls.

A type is referred to by its name, so what a field refers to is the entry of the
registry itself; since no entry changes later, it stays the type that it was
when the reference was made. In the course of an inference the registry also
holds names that are reserved for types whose fields are still walked. They are
settled before it ends.
-/

set_option autoImplicit false

namespace JsonSelection

namespace Registry

/-- The type under a name has a field or an argument whose type leads to another
name. -/
def Refers (types : Registry) (name other : String) : Prop :=
  other ∈ (types.typeNamed name).references

/-- A registry that holds each type once, complete, and with all types that it
refers to. -/
structure Interned (types : Registry) : Prop where
  distinct : Entries.Distinct types
  own : ∀ entry ∈ types, entry.2.name = entry.1
  filled : ∀ entry ∈ types, entry.2.fields ≠ []
  closed : ∀ name other, types.Refers name other → types.has other = true
  longer : ∀ name other, types.Refers name other → name.length < other.length
  acyclic : ∀ name, ¬ Relation.TransGen types.Refers name name

/-- References that lead to longer names lead nowhere back. -/
theorem acyclic_of_longer {types : Registry}
    (h : ∀ name other, types.Refers name other → name.length < other.length) (name : String) :
    ¬ Relation.TransGen types.Refers name name := by
  have hlonger : ∀ other, Relation.TransGen types.Refers name other →
      name.length < other.length := by
    intro other hpath
    induction hpath with
    | single hrefers => exact h _ _ hrefers
    | tail _ hrefers ih => exact Nat.lt_trans ih (h _ _ hrefers)
  intro hcycle
  exact Nat.lt_irrefl _ (hlonger name hcycle)

/-- A registry of output types none of which waits for its fields. Names that
are reserved during an inference are settled before it is over. -/
structure Settled (types : Registry) : Prop where
  distinct : Entries.Distinct types
  own : ∀ entry ∈ types, entry.2.name = entry.1
  filled : ∀ entry ∈ types, entry.2.fields ≠ []
  output : types.Output Schema.AnyPage
  up : ∀ entry ∈ types, entry.2.LeadsUp entry.1

theorem settled_nil : Settled [] :=
  ⟨List.nodup_nil, by simp, by simp, output_nil _, by simp⟩

/-- In a settled registry a reference is the type of a field. -/
theorem Settled.exists_of_refers {types : Registry} (h : types.Settled) {name other : String}
    (hrefers : types.Refers name other) :
    ∃ type, (name, type) ∈ types ∧ ∃ field ∈ type.fields,
    field.type.namedInside? = some other := by
  rw [Refers, typeNamed] at hrefers
  cases hfind : Entries.find? types name with
  | none =>
      rw [hfind] at hrefers
      cases hrefers
  | some type =>
      rw [hfind] at hrefers
      have hmem := Entries.mem_of_find? hfind
      refine ⟨type, hmem, ?_⟩
      obtain ⟨field, hfield, hinside | ⟨argument, hargument, hinside⟩⟩ :=
        Schema.reference_iff.mp hrefers
      · exact ⟨field, hfield, hinside⟩
      · -- the arguments of an output field select a page and lead to no type
        rw [(h.output _ hmem field hfield).arguments] at hargument
        exact (Schema.inside_pageArguments field.type (fun _ => False) argument hargument other
          hinside).elim

theorem Settled.interned {types : Registry} (h : types.Settled) : types.Interned := by
  have hlonger : ∀ name other, types.Refers name other → name.length < other.length := by
    intro name other hrefers
    obtain ⟨type, hmem, field, hfield, hinside⟩ := h.exists_of_refers hrefers
    exact h.up _ hmem field hfield other hinside
  refine ⟨h.distinct, h.own, h.filled, ?_, hlonger, acyclic_of_longer hlonger⟩
  intro name other hrefers
  obtain ⟨type, hmem, field, hfield, hinside⟩ := h.exists_of_refers hrefers
  exact (Schema.inside_of_output (h.output _ hmem field hfield).type other hinside).2

end Registry

namespace Inference

open Outline (places registered mem_registered_iff keys_registered)

theorem ownFields_ne_nil (child : Outline.Child) (entries : Entries Json) (typeName : String)
    (conflicts : List String) : Outline.ownFields child entries typeName conflicts ≠ [] := by
  cases entries with
  | nil => exact List.cons_ne_nil _ _
  | cons entry rest =>
      obtain ⟨key, value⟩ := entry
      simp only [Outline.ownFields, Outline.fields]
      split
      · exact List.cons_ne_nil _ _
      · exact List.cons_ne_nil _ _

/-- One inference: what it is asked to type, and under which limits. Different
calls may have different limits. -/
structure Call where
  limits : Limits
  depth : Int
  value : Json
  typeName : String
  conflicts : List String

/-- The type that a call gives, and the registry after it. -/
def Call.run (call : Call) (types : Registry) : Except CostError Typed :=
  inferType call.limits (call.limits.levelsFrom call.depth) call.value call.typeName
    call.conflicts types

/-- The registry after some calls in order. -/
def runAll (calls : List Call) (types : Registry) : Except CostError Registry :=
  calls.foldlM (fun types call => (call.run types).map Prod.snd) types

theorem runAll_append (calls : List Call) (call : Call) (types : Registry) :
    runAll (calls ++ [call]) types =
      runAll calls types >>= fun types => (call.run types).map Prod.snd := by
  rw [runAll, List.foldlM_append]
  congr 1
  funext types
  rw [List.foldlM_cons]
  cases call.run types <;> rfl

/-- What a call makes of a settled registry: types are added at the end, and it
stays settled. The type that the call gives refers to registered types. -/
theorem settled_of_run {call : Call} (hunit : call.limits.charsPerUnit ≠ 0) {types : Registry}
    (h : types.Settled) :
    ∃ type types', call.run types = .ok (type, types') ∧ types.Extends types' ∧
      (type.Inside fun name => types'.has name = true) ∧ types'.Settled := by
  -- the types of the call are those of its places, each a type of its own
  have hrun := inferType_eq_places hunit (call.limits.levelsFrom call.depth)
    call.value call.typeName
    call.conflicts types
  obtain ⟨houtput, htypes, hextends⟩ :=
    inferType_offers (Schema.anyPage call.limits) _ h.output hrun
  have hclimbs := inferType_climbs call.limits _ hrun
  refine ⟨_, _, hrun, hextends, ?_, ?_⟩
  · exact (Schema.inside_of_output houtput).imp fun name hname => hname.2
  · refine ⟨?_, ?_, ?_, htypes, ?_⟩
    · rw [Entries.Distinct, Entries.keys_append, keys_registered]
      exact Outline.places_fresh call.limits _ h.distinct
    · intro entry hentry
      rcases List.mem_append.mp hentry with hold | hnew
      · exact h.own entry hold
      · obtain ⟨place, -, rfl⟩ := mem_registered_iff.mp hnew
        rfl
    · intro entry hentry
      rcases List.mem_append.mp hentry with hold | hnew
      · exact h.filled entry hold
      · obtain ⟨place, -, rfl⟩ := mem_registered_iff.mp hnew
        exact ownFields_ne_nil _ _ _ _
    · intro entry hentry
      rcases hclimbs entry hentry with hold | hup
      · exact h.up entry hold
      · exact hup

/-- Any calls in order leave a settled registry settled. -/
theorem settled_of_runAll {calls : List Call}
    (hunit : ∀ call ∈ calls, call.limits.charsPerUnit ≠ 0) {types : Registry}
    (h : types.Settled) :
    ∃ types', runAll calls types = .ok types' ∧ types'.Settled := by
  induction calls generalizing types with
  | nil => exact ⟨types, rfl, h⟩
  | cons call rest ih =>
      obtain ⟨type, types₁, hrun, -, -, hsettled⟩ :=
        settled_of_run (hunit call List.mem_cons_self) h
      obtain ⟨types', hrest, hsettled'⟩ :=
        ih (fun other hother => hunit other (List.mem_cons_of_mem _ hother)) hsettled
      refine ⟨types', ?_, hsettled'⟩
      rw [runAll, List.foldlM_cons, hrun]
      exact hrest

/-- The calls that share a registry, which is empty at first, all give a type.
Each keeps the entries that it finds, and leaves a registry that holds every
type once, complete, and with all types that it refers to. -/
theorem interned_of_calls (calls : List Call) (call : Call)
    (hunit : ∀ other ∈ calls ++ [call], other.limits.charsPerUnit ≠ 0) :
    ∃ types type types', runAll calls [] = .ok types ∧ call.run types = .ok (type, types') ∧
      runAll (calls ++ [call]) [] = .ok types' ∧ types.Extends types' ∧
      (type.Inside fun name => types'.has name = true) ∧ types'.Interned := by
  obtain ⟨types, htypes, hsettled⟩ :=
    settled_of_runAll (fun other hother => hunit other (List.mem_append_left _ hother))
      Registry.settled_nil
  obtain ⟨type, types', hrun, hextends, hinside, hsettled'⟩ :=
    settled_of_run (hunit call (List.mem_append_right _ List.mem_cons_self)) hsettled
  refine ⟨types, type, types', htypes, hrun, ?_, hextends, hinside, hsettled'.interned⟩
  rw [runAll_append, htypes, Outcome.ok_bind, hrun]
  rfl

/-- An object that is named as a field of another one is going to be. -/
def memberCall : Call where
  limits := {}
  depth := 0
  value := .obj [("b", .int 1)]
  typeName := "T_a"
  conflicts := []

/-- An object with an object below it and a list of objects. -/
def ownerCall : Call where
  limits := {}
  depth := 0
  value := .obj [("a", .obj [("c", .null)]), ("l", .arr [.obj [], .obj [("d", .str "x")]])]
  typeName := "T"
  conflicts := []

/-- The object below the second call is not walked: its name stands for the type
of the first call. -/
theorem interned_of_calls_shared :
    (∀ other ∈ [memberCall, ownerCall], other.limits.charsPerUnit ≠ 0) ∧
      ∃ types type types', runAll [memberCall] [] = .ok types ∧
        ownerCall.run types = .ok (type, types') ∧ runAll [memberCall, ownerCall]
        [] = .ok types' ∧
        types.Extends types' ∧ (type.Inside fun name => types'.has name = true) ∧
        types'.Interned := by
  have hunit : ∀ other ∈ [memberCall, ownerCall], other.limits.charsPerUnit ≠ 0 := by
    intro other hother
    simp only [List.mem_cons, List.not_mem_nil, or_false] at hother
    rcases hother with rfl | rfl
    · decide
    · decide
  exact ⟨hunit, interned_of_calls [memberCall] ownerCall hunit⟩

example : (runAll [memberCall, ownerCall] []).toOption.map Entries.keys =
    some ["T_a", "T", "T_l_Item"] := by
  decide +kernel

end Inference

end JsonSelection
