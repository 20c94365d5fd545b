import JsonSelection.Cost.Estimate
import JsonSelection.Proofs.Outcome

/-!
# Costs are given

The one thing that a cost estimate can fail on is a unit of no characters. With
any other unit every value has a cost, and every list a page size
(`Cost.pageSize_succeeds`).

No other hypothesis enters: limits may be negative, depth caps may be zero, and
lists may be mixed or empty. That one element costs at least one unit
(`Cost.one_le_ofItem`) keeps the division by it away from zero.
-/

set_option autoImplicit false

namespace JsonSelection

namespace Amount

theorem one_le_atLeastOne (a : Amount) : 1 ≤ a.atLeastOne.toRat := by
  rw [atLeastOne]
  split
  · next h => exact Rat.le_of_lt h
  · exact Rat.le_refl

end Amount

namespace Cost

theorem total_succeeds {cost : Json → Except CostError Amount}
    (h : ∀ value, ∃ amount, cost value = .ok amount) (values : List Json) :
    ∃ amount, total cost values = .ok amount := by
  have hfold : ∀ sum : Amount, ∃ amount,
      values.foldlM (fun sum value => (cost value).map sum.add) sum = .ok amount := by
    induction values with
    | nil => exact fun sum => ⟨sum, rfl⟩
    | cons value rest ih =>
        intro sum
        obtain ⟨amount, hamount⟩ := h value
        obtain ⟨result, hresult⟩ := ih (sum.add amount)
        refine ⟨result, ?_⟩
        rw [List.foldlM_cons, hamount]
        exact hresult
  exact hfold (.whole 0)

theorem mean_succeeds {cost : Json → Except CostError Amount}
    (h : ∀ value, ∃ amount, cost value = .ok amount) (values : List Json) :
    ∃ amount, mean cost values = .ok amount := by
  obtain ⟨sum, hsum⟩ := total_succeeds h values
  exact ⟨sum.divide (.whole values.length), by rw [mean, hsum]; rfl⟩

/-- Every value has a cost, on any number of levels. The recursion is on the
levels, and a text is the only place where the unit is looked at. -/
theorem estimate_succeeds {limits : Limits} (hunit : limits.charsPerUnit ≠ 0) (levels : Nat)
    (value : Json) : ∃ amount, estimate limits levels value = .ok amount := by
  induction levels generalizing value with
  | zero => exact ⟨.whole 1, rfl⟩
  | succ levels ih =>
      cases value with
      | arr items =>
          simp only [estimate]
          split
          · exact ⟨.whole 1, rfl⟩
          · obtain ⟨amount, hamount⟩ := mean_succeeds ih
              (Slice.before items limits.costSampleSize)
            exact ⟨amount.atLeastOne, by rw [hamount]; rfl⟩
      | obj entries =>
          obtain ⟨amount, hamount⟩ := total_succeeds ih (entries.map Prod.snd)
          exact ⟨amount.atLeastOne, by rw [estimate, hamount]; rfl⟩
      | str text =>
          simp only [estimate, ofText, if_neg hunit]
          exact ⟨_, rfl⟩
      | _ => exact ⟨.whole 1, rfl⟩

theorem ofItem_succeeds {limits : Limits} (hunit : limits.charsPerUnit ≠ 0) (levels : Nat)
    (items : List Json) : ∃ amount, ofItem limits levels items = .ok amount := by
  simp only [ofItem]
  split
  · next merged _ =>
      obtain ⟨amount, hamount⟩ := estimate_succeeds hunit levels (.obj merged.representative)
      exact ⟨amount.atLeastOne, by rw [hamount]; rfl⟩
  · split
    · exact ⟨.whole 1, rfl⟩
    · obtain ⟨amount, hamount⟩ := mean_succeeds (estimate_succeeds hunit levels)
        (Slice.before items limits.costSampleSize)
      exact ⟨amount.atLeastOne, by rw [hamount]; rfl⟩

/-- One element of a list costs at least one unit. -/
theorem one_le_ofItem {limits : Limits} {levels : Nat} {items : List Json} {cost : Amount}
    (h : ofItem limits levels items = .ok cost) : 1 ≤ cost.toRat := by
  rw [ofItem] at h
  split at h
  · obtain ⟨amount, -, rfl⟩ := Outcome.map_eq_ok_iff.mp h
    exact amount.one_le_atLeastOne
  · split at h
    · obtain rfl := Except.ok.inj h
      exact Rat.le_refl
    · obtain ⟨amount, -, rfl⟩ := Outcome.map_eq_ok_iff.mp h
      exact amount.one_le_atLeastOne

/-- Every list has a page size. -/
theorem pageSize_succeeds {limits : Limits} (hunit : limits.charsPerUnit ≠ 0) (levels : Nat)
    (items : List Json) : ∃ page, pageSize limits levels items = .ok page := by
  cases items with
  | nil => exact ⟨limits.maxListLimit, rfl⟩
  | cons item rest =>
      obtain ⟨cost, hcost⟩ := ofItem_succeeds hunit levels (item :: rest)
      simp only [pageSize, hcost, Outcome.map_ok]
      exact ⟨_, rfl⟩

end Cost

end JsonSelection
