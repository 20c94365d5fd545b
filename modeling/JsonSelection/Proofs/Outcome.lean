/-!
# Results that may be errors

When a computation made of several steps succeeds, each of its steps does. The
proofs about parsing, inference and execution take their functions apart with
these equivalences (`Outcome.bind_eq_ok_iff`, `Outcome.map_eq_ok_iff`,
`Outcome.mapError_eq_ok_iff`).

For lists the results are those of the elements, one for each
(`Outcome.mapM_ok`), and without a result the list has the error of the first
element that has none (`Outcome.mapM_first_error`, `Outcome.mapM_of_first_error`).
The order of the elements thus shows in the error and in nothing else.
-/

set_option autoImplicit false

namespace JsonSelection

namespace Outcome

variable {ε ε' α β : Type}

/-- A sequence of two steps succeeds when both do. -/
theorem bind_eq_ok_iff {x : Except ε α} {f : α → Except ε β} {b : β} :
    (x >>= f) = .ok b ↔ ∃ a, x = .ok a ∧ f a = .ok b := by
  cases x with
  | error e => simp [bind, Except.bind]
  | ok a => simp [bind, Except.bind]

/-- A mapped result is there when the result is. -/
theorem map_eq_ok_iff {x : Except ε α} {f : α → β} {b : β} :
    x.map f = .ok b ↔ ∃ a, x = .ok a ∧ f a = b := by
  cases x with
  | error e => simp [Except.map]
  | ok a => simp [Except.map]

/-- Renaming errors changes no result. -/
theorem mapError_eq_ok_iff {x : Except ε α} {f : ε → ε'} {a : α} :
    x.mapError f = .ok a ↔ x = .ok a := by
  cases x with
  | error e =>
      constructor
      · intro h
        cases h
      · intro h
        cases h
  | ok b =>
      have hmap : (Except.ok b : Except ε α).mapError f = .ok b := rfl
      rw [hmap, Except.ok.injEq, Except.ok.injEq]

@[simp] theorem ok_bind (a : α) (f : α → Except ε β) : (Except.ok a >>= f) = f a := rfl

@[simp] theorem error_bind (e : ε) (f : α → Except ε β) :
    (Except.error e >>= f) = .error e := rfl

@[simp] theorem map_ok (a : α) (f : α → β) : (Except.ok a : Except ε α).map f =
    .ok (f a) := rfl

@[simp] theorem mapError_ok (a : α) (f : ε → ε') :
    (Except.ok a : Except ε α).mapError f = .ok a := rfl

theorem mapError_bind (x : Except ε α) (f : α → Except ε β) (g : ε → ε') :
    (x >>= f).mapError g = x.mapError g >>= fun a => (f a).mapError g := by
  cases x with
  | error e => rfl
  | ok a => rfl

theorem mapError_map (x : Except ε α) (f : α → β) (g : ε → ε') :
    (x.map f).mapError g = (x.mapError g).map f := by
  cases x with
  | error e => rfl
  | ok a => rfl

/-- Results that agree up to a renaming of errors agree when they are mapped. -/
theorem map_of_mapError {x : Except ε α} {y : Except ε' α} {g : ε → ε'}
    (h : y = x.mapError g) (f : α → β) : y.map f = (x.map f).mapError g := by
  rw [h, mapError_map]

theorem exists_of_isOk {x : Except ε α} (h : x.isOk = true) : ∃ a, x = .ok a := by
  cases x with
  | error e => cases h
  | ok a => exact ⟨a, rfl⟩

theorem not_isOk_error (error : ε) : ¬ (Except.error error : Except ε α).isOk = true :=
  Bool.false_ne_true

theorem isOk_map (x : Except ε α) (f : α → β) : (x.map f).isOk = x.isOk := by
  cases x with
  | error e => rfl
  | ok a => rfl

/-! ### Errors and lists of results -/

theorem map_error {x : Except ε α} {f : α → β} {error : ε}
    (h : x.map f = .error error) : x = .error error := by
  cases x with
  | ok value => cases h
  | error e =>
      obtain rfl := Except.error.inj h
      rfl

/-- When a sequence of two steps fails, the first step does, or the second one
after it. -/
theorem bind_error {x : Except ε α} {f : α → Except ε β} {error : ε}
    (h : (x >>= f) = .error error) :
    x = .error error ∨ ∃ a, x = .ok a ∧ f a = .error error := by
  cases x with
  | error e =>
      obtain rfl := Except.error.inj h
      exact Or.inl rfl
  | ok a => exact Or.inr ⟨a, rfl, h⟩

/-- When a list has no result, one of its elements has none. -/
theorem mapM_error {f : α → Except ε β} {items : List α} {error : ε}
    (h : items.mapM f = .error error) : ∃ item ∈ items, f item = .error error := by
  induction items with
  | nil => cases h
  | cons item rest ih =>
      rw [List.mapM_cons] at h
      cases hitem : f item with
      | error e =>
          rw [hitem] at h
          obtain rfl := Except.error.inj h
          exact ⟨item, List.mem_cons_self, hitem⟩
      | ok value =>
          rw [hitem, ok_bind] at h
          cases hrest : rest.mapM f with
          | ok values =>
              rw [hrest] at h
              cases h
          | error e =>
              rw [hrest] at h
              obtain rfl := Except.error.inj h
              obtain ⟨other, hother, herror⟩ := ih hrest
              exact ⟨other, List.mem_cons_of_mem _ hother, herror⟩

/-- When an element has no result, the list has none. -/
theorem mapM_fails {f : α → Except ε β} {items : List α} {item : α}
    (hitem : item ∈ items) (h : ∃ error, f item = .error error) :
    ∃ error, items.mapM f = .error error := by
  induction items with
  | nil => cases hitem
  | cons first rest ih =>
      rw [List.mapM_cons]
      cases hfirst : f first with
      | error e => exact ⟨e, rfl⟩
      | ok value =>
          rw [ok_bind]
          rcases List.mem_cons.mp hitem with rfl | hrest
          · obtain ⟨error, herror⟩ := h
            rw [hfirst] at herror
            cases herror
          · obtain ⟨error, herror⟩ := ih hrest
            exact ⟨error, by rw [herror]; rfl⟩

/-- A list without a result has the error of the first element that has none. -/
theorem mapM_first_error {f : α → Except ε β} {items : List α} {error : ε}
    (h : items.mapM f = .error error) : ∃ before item after, items = before ++ item :: after ∧
      (∀ other ∈ before, (f other).isOk = true) ∧ f item = .error error := by
  induction items with
  | nil => cases h
  | cons first rest ih =>
      rw [List.mapM_cons] at h
      cases hfirst : f first with
      | error e =>
          rw [hfirst] at h
          -- the first element fails, or it has a result and the error is one of the
          -- rest
          obtain rfl := Except.error.inj h
          exact ⟨[], first, rest, rfl, by simp, hfirst⟩
      | ok value =>
          rw [hfirst, ok_bind] at h
          cases hrest : rest.mapM f with
          | ok values =>
              rw [hrest] at h
              cases h
          | error e =>
              rw [hrest] at h
              obtain rfl := Except.error.inj h
              obtain ⟨before, item, after, rfl, hbefore, hitem⟩ := ih hrest
              refine ⟨first :: before, item, after, rfl, ?_, hitem⟩
              rw [List.forall_mem_cons, hfirst]
              exact ⟨rfl, hbefore⟩

/-- The error of an element shows if all elements before it have results. -/
theorem mapM_of_first_error {f : α → Except ε β} {before after : List α}
    {item : α} {error : ε} (hbefore : ∀ other ∈ before, (f other).isOk = true)
    (hitem : f item = .error error) :
    (before ++ item :: after).mapM f = .error error := by
  induction before with
  | nil =>
      rw [List.nil_append, List.mapM_cons, hitem]
      rfl
  | cons first rest ih =>
      obtain ⟨value, hvalue⟩ := exists_of_isOk (hbefore first List.mem_cons_self)
      rw [List.cons_append, List.mapM_cons, hvalue, ok_bind,
        ih fun other hother => hbefore other (List.mem_cons_of_mem _ hother)]
      rfl

/-- When every element has a result, the list has them all. -/
theorem mapM_of_ok {f : α → Except ε β} {g : α → β} {items : List α}
    (h : ∀ item ∈ items, f item = .ok (g item)) : items.mapM f = .ok (items.map g) := by
  induction items with
  | nil => rfl
  | cons item rest ih =>
      rw [List.mapM_cons, h item List.mem_cons_self, ok_bind,
        ih fun other hother => h other (List.mem_cons_of_mem _ hother)]
      rfl

/-- The results of two lists put together are the results of the one and those
of the other. -/
theorem mapM_append_ok {f : α → Except ε β} {first second : List α} {values : List β}
    (h : (first ++ second).mapM f = .ok values) :
    ∃ firsts seconds, first.mapM f = .ok firsts ∧ second.mapM f = .ok seconds ∧
      values = firsts ++ seconds := by
  induction first generalizing values with
  | nil => exact ⟨[], values, rfl, h, rfl⟩
  | cons item rest ih =>
      rw [List.cons_append, List.mapM_cons] at h
      obtain ⟨value, hvalue, h⟩ := bind_eq_ok_iff.mp h
      obtain ⟨others, hothers, h⟩ := bind_eq_ok_iff.mp h
      obtain rfl := Except.ok.inj h
      obtain ⟨firsts, seconds, hfirsts, hseconds, rfl⟩ := ih hothers
      refine ⟨value :: firsts, seconds, ?_, hseconds, rfl⟩
      rw [List.mapM_cons, hvalue, ok_bind, hfirsts, ok_bind]
      rfl

/-- The results of a list are those of its elements, one for each. -/
theorem mapM_ok {f : α → Except ε β} {items : List α} {values : List β}
    (h : items.mapM f = .ok values) :
    values.length = items.length ∧ ∀ (index : Nat) (item : α) (value : β),
      items[index]? = some item → values[index]? = some value → f item = .ok value := by
  induction items generalizing values with
  | nil =>
      obtain rfl := Except.ok.inj h
      exact ⟨rfl, fun index item value hitem => by cases hitem⟩
  | cons first rest ih =>
      rw [List.mapM_cons] at h
      obtain ⟨value, hvalue, h⟩ := bind_eq_ok_iff.mp h
      obtain ⟨others, hothers, h⟩ := bind_eq_ok_iff.mp h
      obtain rfl := Except.ok.inj h
      obtain ⟨hlength, hrest⟩ := ih hothers
      refine ⟨by simp [hlength], ?_⟩
      intro index item shown hitem hshown
      -- the value at an index is that of the element at the same index
      cases index with
      | zero =>
          obtain rfl := Option.some.inj hitem
          obtain rfl := Option.some.inj hshown
          exact hvalue
      | succ index => exact hrest index item shown hitem hshown

end Outcome

end JsonSelection
