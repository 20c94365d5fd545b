import JsonSelection.Proofs.Outcome
import Mathlib.Data.List.Forall2

/-!
# Outcomes that go together

Two computations go together when both have a result or neither has
(`Outcome.Related`). One relation is kept between the errors and another between
the results. Computations made of steps that go together go together themselves,
so a proof about two runs only looks at the steps in which they differ.

There is one lemma for each way to put steps together: `Related.map`,
`Related.mapError`, `Related.bind`, and for lists `Related.mapM` and
`Related.foldlM`. A list in another order has the same results in that order, or
an error in both (`Outcome.mapM_perm`); the two errors may differ, so nothing
relates them there.
-/

set_option autoImplicit false

namespace JsonSelection

namespace Outcome

universe u v

variable {ε ε' : Type u} {α α' β β' : Type v}

/-- Both outcomes are results, and related as such, or both are errors, and
related as such. -/
inductive Related (errors : ε → ε' → Prop) (values : α → α' → Prop) :
    Except ε α → Except ε' α' → Prop where
  | ok {a : α} {a' : α'} : values a a' → Related errors values (.ok a) (.ok a')
  | error {e : ε} {e' : ε'} : errors e e' → Related errors values (.error e) (.error e')

namespace Related

variable {errors : ε → ε' → Prop} {values : α → α' → Prop}
  {results : β → β' → Prop}

/-- One outcome with itself, if its error goes with itself. -/
theorem refl {errors : ε → ε → Prop} (herrors : ∀ e, errors e e)
    {values : α → α → Prop} (hvalues : ∀ a, values a a) (x : Except ε α) :
    Related errors values x x := by
  cases x with
  | ok a => exact .ok (hvalues a)
  | error e => exact .error (herrors e)

theorem map {x : Except ε α} {x' : Except ε' α'}
    (h : Related errors values x x') {f : α → β} {f' : α' → β'}
    (hf : ∀ a a', values a a' → results (f a) (f' a')) :
    Related errors results (x.map f) (x'.map f') := by
  cases h with
  | ok ha => exact .ok (hf _ _ ha)
  | error he => exact .error he

theorem mapError {ω ω' : Type u} {failures : ω → ω' → Prop} {x : Except ε α}
    {x' : Except ε' α'} (h : Related errors values x x') {g : ε → ω} {g' : ε' → ω'}
    (hg : ∀ e e', errors e e' → failures (g e) (g' e')) :
    Related failures values (x.mapError g) (x'.mapError g') := by
  cases h with
  | ok ha => exact .ok ha
  | error he => exact .error (hg _ _ he)

theorem bind {x : Except ε α} {x' : Except ε' α'} (h : Related errors values x x')
    {f : α → Except ε β} {f' : α' → Except ε' β'}
    (hf : ∀ a a', values a a' → Related errors results (f a) (f' a')) :
    Related errors results (x >>= f) (x' >>= f') := by
  cases h with
  | ok ha => exact hf _ _ ha
  | error he => exact .error he

/-- Steps that go together stay so after steps with equal results. -/
theorem bind_eq {x : Except ε α} {x' : Except ε' α} (h : Related errors Eq x x')
    {f : α → Except ε β} {f' : α → Except ε' β'}
    (hf : ∀ a, Related errors results (f a) (f' a)) :
    Related errors results (x >>= f) (x' >>= f') := by
  apply bind h
  rintro a _ rfl
  exact hf a

/-- Lists go together along their elements. -/
theorem mapM {γ γ' : Type v} {f : γ → Except ε β} {f' : γ' → Except ε' β'}
    {items : List γ} {items' : List γ'}
    (h : List.Forall₂ (fun item item' => Related errors results (f item) (f' item'))
      items items') :
    Related errors (List.Forall₂ results) (items.mapM f) (items'.mapM f') := by
  induction h with
  | nil => exact .ok .nil
  | cons hitem _ ih =>
      rw [List.mapM_cons, List.mapM_cons]
      apply bind hitem
      intro b b' hb
      apply bind ih
      intro bs bs' hbs
      exact .ok (.cons hb hbs)

/-- A value is carried along a list by steps that go together. -/
theorem foldlM {f : α → β → Except ε α} {f' : α' → β → Except ε' α'}
    {items : List β} (h : ∀ a a', values a a' → ∀ item ∈ items,
      Related errors values (f a item) (f' a' item))
    {start : α} {start' : α'} (hstart : values start start') :
    Related errors values (items.foldlM f start) (items.foldlM f' start') := by
  induction items generalizing start start' with
  | nil => exact .ok hstart
  | cons item rest ih =>
      rw [List.foldlM_cons, List.foldlM_cons]
      apply bind (h _ _ hstart item List.mem_cons_self)
      intro a a' ha
      exact ih (fun b b' hb other hother => h b b' hb other (List.mem_cons_of_mem _ hother)) ha

/-- Both outcomes are results or neither is. -/
theorem isOk_eq {x : Except ε α} {x' : Except ε' α'} (h : Related errors values x x') :
    x.isOk = x'.isOk := by
  cases h <;> rfl

theorem exists_error_iff {x : Except ε α} {x' : Except ε' α'} (h : Related errors values x x') :
    (∃ e, x = .error e) ↔ ∃ e', x' = .error e' := by
  cases h with
  | ok _ => exact ⟨fun ⟨_, he⟩ => (nomatch he), fun ⟨_, he⟩ => (nomatch he)⟩
  | error _ => exact ⟨fun _ => ⟨_, rfl⟩, fun _ => ⟨_, rfl⟩⟩

theorem of_isOk_eq {x : Except ε α} {x' : Except ε' α'} (h : x.isOk = x'.isOk) :
    Related (fun _ _ => True) (fun _ _ => True) x x' := by
  cases x with
  | ok a =>
      cases x' with
      | ok a' => exact .ok trivial
      | error e' => cases h
  | error e =>
      cases x' with
      | ok a' => cases h
      | error e' => exact .error trivial

end Related

/-- In another order a list has its results in that order, or an error, which
may be another one. -/
theorem mapM_perm {f : α → Except ε β} {items items' : List α} (h : items.Perm items') :
    Related (fun _ _ => True) List.Perm (items.mapM f) (items'.mapM f) := by
  induction h with
  | nil => exact .ok .nil
  | cons item _ ih =>
      rw [List.mapM_cons, List.mapM_cons]
      cases f item with
      | error e => exact .error trivial
      | ok b =>
          apply Related.bind ih
          intro bs bs' hbs
          exact .ok (hbs.cons b)
  | swap first second rest =>
      simp only [List.mapM_cons]
      -- where both fail, the two orders have different errors
      cases f first with
      | error e =>
          cases f second with
          | error e' => exact .error trivial
          | ok b' => exact .error trivial
      | ok b =>
          cases f second with
          | error e' => exact .error trivial
          | ok b' =>
              cases rest.mapM f with
              | error e => exact .error trivial
              | ok bs => exact .ok (.swap b b' bs)
  | @trans items middle items' _ _ ih ih' =>
      generalize items.mapM f = x, middle.mapM f = y, items'.mapM f = z at ih ih' ⊢
      cases ih with
      | ok hbs =>
          cases ih' with
          | ok hbs' => exact .ok (hbs.trans hbs')
      | error _ =>
          cases ih' with
          | error _ => exact .error trivial

end Outcome

end JsonSelection
