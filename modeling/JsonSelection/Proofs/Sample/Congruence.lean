import JsonSelection.Proofs.Sample
import Mathlib.Data.List.Forall2

/-!
# What merging looks at

A verdict looks at the kinds of values and at the first of them
(`Sample.verdict_congr`). Besides kinds, merging asks of a value only whether it
is an array with elements, and what an object holds under a key.

So it goes along with every relation between values that keeps these
(`Sample.Congruent`): what stands for related values is related
(`Sample.Congruent.represent`). The relations that are used are equality up to
the order of keys and equality up to the samples; each has only to show that it
keeps what is asked for.
-/

set_option autoImplicit false

namespace JsonSelection

namespace Sample

/-! ### Kinds -/

/-- Values of one kind are `null` together. -/
theorem isNull_congr {value value' : Json} (h : value.kind = value'.kind) :
    value.isNull = value'.isNull := by
  have hnull : ∀ other : Json, other.isNull = (other.kind == .null) := by
    intro other
    cases other <;> rfl
  rw [hnull, hnull, h]

section Kinds

variable {values values' : List Json} (h : values.map Json.kind = values'.map Json.kind)

include h

theorem kindsSeen_congr : kindsSeen values = kindsSeen values' := by
  rw [kindsSeen, kindsSeen, h]

theorem votes_congr : votes values = votes values' := by
  have hvotes : ∀ (list : List Json) (kind : Kind),
      votes list kind = (list.map Json.kind).count kind := by
    intro list kind
    rw [votes, List.count, List.countP_map]
    rfl
  funext kind
  rw [hvotes, hvotes, h]

theorem leader_congr : leader values = leader values' := by
  funext first others
  rw [leader, leader, votes_congr h]

/-- Values of the same kinds have the same verdict, but for the value that
stands for a split. -/
theorem verdict_congr (threshold : Rat) :
    (verdict threshold values = .unobserved ∧ verdict threshold values' = .unobserved) ∨
      (verdict threshold values = .split (values.headD .null) ∧
        verdict threshold values' = .split (values'.headD .null)) ∨
      ∃ kind, verdict threshold values = .won kind ∧ verdict threshold values' = .won kind := by
  have hkinds := kindsSeen_congr h
  have hvotes := votes_congr h
  have hleader := leader_congr h
  have hlength : values.length = values'.length := by
    simpa only [List.length_map] using congrArg List.length h
  cases values with
  | nil =>
      rw [List.map_nil] at h
      rw [List.map_eq_nil_iff.mp h.symm]
      exact Or.inl ⟨rfl, rfl⟩
  | cons value rest =>
      cases values' with
      | nil => cases h
      | cons value' rest' =>
          simp only [verdict]
          rw [← hkinds]
          cases kindsSeen (value :: rest) with
          | nil => exact Or.inl ⟨rfl, rfl⟩
          | cons first others =>
              cases others with
              | nil => exact Or.inr (Or.inr ⟨first, rfl, rfl⟩)
              | cons second others =>
                  -- with two kinds or more the share of the leader decides, which
                  -- is the same
                  simp only [← hleader, ← hvotes, ← hlength]
                  split
                  · exact Or.inr (Or.inl ⟨rfl, rfl⟩)
                  · exact Or.inr (Or.inr ⟨_, rfl, rfl⟩)

end Kinds

/-! ### Related values of one kind -/

section Related

variable {related : Json → Json → Prop}
  (hkind : ∀ {value value' : Json}, related value value' → value.kind = value'.kind)
  {values values' : List Json} (h : List.Forall₂ related values values')

include h

theorem headD_related (hnull : related .null .null) :
    related (values.headD .null) (values'.headD .null) := by
  cases h with
  | nil => exact hnull
  | cons hvalue _ => exact hvalue

theorem before_related (stop : Int) :
    List.Forall₂ related (Slice.before values stop) (Slice.before values' stop) := by
  rw [Slice.before, Slice.before, h.length_eq]
  exact List.forall₂_take _ h

include hkind

theorem map_kind_related : values.map Json.kind = values'.map Json.kind := by
  induction h with
  | nil => rfl
  | cons hvalue _ ih => rw [List.map_cons, List.map_cons, hkind hvalue, ih]

/-- Related values stay side by side when values are left out by their kinds. -/
theorem filter_related {keep : Json → Bool}
    (hkeep : ∀ {value value' : Json}, value.kind = value'.kind → keep value = keep value') :
    List.Forall₂ related (values.filter keep) (values'.filter keep) :=
  List.rel_filter (fun _ _ hvalue => iff_of_eq (congrArg (· = true) (hkeep (hkind hvalue)))) h

theorem present_related : List.Forall₂ related (present values) (present values') :=
  filter_related hkind h fun hsame => by rw [isNull_congr hsame]

theorem ofKind_related (kind : Kind) :
    List.Forall₂ related (ofKind values kind) (ofKind values' kind) :=
  filter_related hkind h fun hsame => by rw [hsame]

end Related

/-! ### Relations that merging goes along with -/

/-- Whether a value is an array with elements. -/
def isFilled (value : Json) : Bool :=
  value.items?.any fun items => !items.isEmpty

theorem firstFilled_eq (arrays : List Json) :
    firstFilled arrays = (arrays.find? isFilled).getD (arrays.headD .null) := by
  have hfind : (arrays.find? fun value => value.items?.any fun items => !items.isEmpty) =
      arrays.find? isFilled := rfl
  rw [firstFilled, hfind]
  cases arrays.find? isFilled <;> rfl

/-- A relation between values, and the one between the entries of objects that
goes with it, which keep all that merging asks of values. -/
structure Congruent (related : Json → Json → Prop)
    (relatedEntries : Entries Json → Entries Json → Prop) : Prop where
  null : related .null .null
  kind {value value' : Json} : related value value' → value.kind = value'.kind
  isFilled {value value' : Json} : related value value' → isFilled value = isFilled value'
  object {entries entries' : Entries Json} :
    related (.obj entries) (.obj entries') ↔ relatedEntries entries entries'
  find? {entries entries' : Entries Json} : relatedEntries entries entries' →
    ∀ key, Option.Rel related (entries.find? key) (entries'.find? key)

namespace Congruent

variable {related : Json → Json → Prop}
  {relatedEntries : Entries Json → Entries Json → Prop}
  (hrelated : Congruent related relatedEntries) {values values' : List Json}

include hrelated

/-- What is related to an object is an object. -/
theorem entries? {value value' : Json} (h : related value value') :
    Option.Rel relatedEntries value.entries? value'.entries? := by
  have hkind := hrelated.kind h
  cases value with
  | obj entries =>
      cases value' with
      | obj entries' => exact .some (hrelated.object.mp h)
      | _ => cases hkind
  | _ =>
      cases value' with
      | obj entries' => cases hkind
      | _ => exact .none

theorem objects (h : List.Forall₂ related values values') :
    List.Forall₂ relatedEntries (values.filterMap Json.entries?)
    (values'.filterMap Json.entries?) :=
  List.rel_filterMap (fun _ _ hvalue => hrelated.entries? hvalue) h

theorem observations {objects objects' : List (Entries Json)}
    (h : List.Forall₂ relatedEntries objects objects') (key : String) :
    List.Forall₂ related (observations objects key) (observations objects' key) := by
  apply present_related hrelated.kind
  exact List.rel_filterMap (R := relatedEntries) (fun _ _ hentries => hrelated.find? hentries key) h

theorem firstFilled (h : List.Forall₂ related values values') :
    related (firstFilled values) (firstFilled values') := by
  -- related values are empty together, so the search stops at related ones
  have hfound : Option.Rel related (values.find? Sample.isFilled)
      (values'.find? Sample.isFilled) := by
    induction h with
    | nil => exact .none
    | @cons value value' rest rest' hvalue _ ih =>
        rw [List.find?_cons, List.find?_cons, ← hrelated.isFilled hvalue]
        split
        · exact .some hvalue
        · exact ih
  rw [firstFilled_eq, firstFilled_eq]
  generalize values.find? _ = found at hfound
  generalize values'.find? _ = found' at hfound
  cases hfound with
  | none => exact headD_related h hrelated.null
  | some hvalue => exact hvalue

/-- What stands for related values is related, if merging the objects one level
down goes along. -/
theorem represent {merge merge' : List (Entries Json) → Merged}
    (hmerge : ∀ {objects objects'}, List.Forall₂ relatedEntries objects objects' →
      relatedEntries (merge objects).representative (merge' objects').representative)
    (threshold : Rat) (key : String) (h : List.Forall₂ related values values') :
    related (represent threshold merge key values).1 (represent threshold merge' key
      values').1 := by
  rw [Sample.represent, Sample.represent]
  -- the verdict depends on the kinds alone, so both sides take the same branch
  rcases verdict_congr (map_kind_related hrelated.kind h) threshold with
    ⟨hverdict, hverdict'⟩ | ⟨hverdict, hverdict'⟩ | ⟨kind, hverdict, hverdict'⟩
  · rw [hverdict, hverdict']
    exact hrelated.null
  · rw [hverdict, hverdict']
    exact headD_related h hrelated.null
  · rw [hverdict, hverdict']
    cases kind with
    | object =>
        have hobjects := hrelated.objects h
        dsimp only
        generalize values.filterMap Json.entries? = objects at hobjects
        generalize values'.filterMap Json.entries? = objects' at hobjects
        cases hobjects with
        | nil => exact hrelated.null
        | cons hfirst hrest =>
            cases hrest with
            | nil => exact hrelated.object.mpr hfirst
            | cons hsecond hrest =>
                apply hrelated.object.mpr
                exact hmerge (.cons hfirst (.cons hsecond hrest))
    | array => exact hrelated.firstFilled (ofKind_related hrelated.kind h .array)
    | _ => exact headD_related (ofKind_related hrelated.kind h _) hrelated.null

end Congruent

end Sample

end JsonSelection
