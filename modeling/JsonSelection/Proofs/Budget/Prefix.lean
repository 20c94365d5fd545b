import JsonSelection.Budget
import JsonSelection.Proofs.Json.Size
import Mathlib.Order.Bounds.Defs

/-!
# The prefix that truncation keeps

Truncation halves a range of lengths until nothing is left of it. All lengths
above the range are too great, and the one below it fits, since a shorter prefix
of a list has no longer text (`Budget.tokens_take_le`).

## What this module delivers

- `Budget.IsLongest`: the greatest of the lengths that fit, or one if none fits.
- `Budget.Narrowed`: the invariant of the search. Each of the two steps keeps it
  (`Narrowed.upper`, `Narrowed.lower`), and with an empty range it tells the
  result (`Narrowed.longest`).
- `Budget.search_longest`: the search ends with the longest length that fits.
- `Budget.truncate_keeps_longest`: what is kept of the main list is its longest
  prefix that fits beside the other entries, or one element, and nothing else of
  the object changes.

The search needs its test to hold of every length below one of which it holds.
That this is so for token sizes is the only fact about sizes that enters.
-/

set_option autoImplicit false

namespace JsonSelection

namespace Budget

/-! ### Sizes in tokens

Tokens are characters by four, rounded up, and at least one. The sizes that are
compared are never negative, so a budget in tokens is one in characters. -/

theorem tokens_eq (value : Json) : tokens value = max 1 (((value.size + 3) / 4 : Nat) : Int) := rfl

/-- A token pays for four characters. -/
theorem tokens_le_iff (value : Json) (budget : Int) :
    tokens value ≤ budget ↔ (value.size : Int) ≤ 4 * budget := by
  have hsize := value.size_pos
  rw [tokens_eq]
  omega

theorem tokens_mono {value value' : Json} (h : value.size ≤ value'.size) :
    tokens value ≤ tokens value' := by
  rw [tokens_eq, tokens_eq]
  omega

/-- A shorter prefix costs no more. -/
theorem tokens_take_le (items : List Json) {m n : Nat} (h : m ≤ n) :
    tokens (.arr (items.take m)) ≤ tokens (.arr (items.take n)) :=
  tokens_mono (Json.size_take_le items h)

/-! ### The search

The range is narrowed from both sides. What is known of the lengths outside of
it is kept as a structure, one field for each fact, because either step changes
two of the facts and keeps the others. -/

/-- The greatest of the lengths from one up to a bound that fit, or one if none
fits. -/
def IsLongest (fits : Nat → Prop) (bound kept : Nat) : Prop :=
  IsGreatest {n | 1 ≤ n ∧ n ≤ bound ∧ fits n} kept ∨
    (kept = 1 ∧ ∀ n, 1 ≤ n → n ≤ bound → ¬ fits n)

/-- What is known when a range of lengths is left: no length above it fits, and
the length below it is the best one so far, unless there is none. The bound is
that of the whole search and does not move. -/
structure Narrowed (fits : Nat → Bool) (bound low high best : Nat) : Prop where
  starts : 1 ≤ low
  ordered : low ≤ high + 1
  within : high ≤ bound
  below : (low = 1 ∧ best = 1) ∨ (1 ≤ best ∧ best + 1 = low ∧ fits best = true)
  above : ∀ n, high < n → n ≤ bound → fits n = false

section Search

variable {fits : Nat → Bool} {bound : Nat}

theorem narrowed_start (fits : Nat → Bool) (bound : Nat) : Narrowed fits bound 1 bound 1 where
  starts := Nat.le_refl 1
  ordered := by omega
  within := Nat.le_refl bound
  below := Or.inl ⟨rfl, rfl⟩
  above := by
    intro n hlow hhigh
    omega

/-- A middle that fits becomes the best length, and the upper half is left. -/
theorem Narrowed.upper {low high best : Nat} (h : Narrowed fits bound low high best)
    (hrange : low ≤ high) (hfits : fits ((low + high) / 2) = true) :
    Narrowed fits bound ((low + high) / 2 + 1) high ((low + high) / 2) where
  starts := by omega
  ordered := by omega
  within := h.within
  below := by
    have hstarts := h.starts
    exact Or.inr ⟨by omega, rfl, hfits⟩
  above := h.above

/-- Under a middle that does not fit, the lower half is left: a longer prefix
fits still less. -/
theorem Narrowed.lower {low high best : Nat} (h : Narrowed fits bound low high best)
    (hshorter : ∀ m n, m ≤ n → fits n = true → fits m = true) (hrange : low ≤ high)
    (hfits : fits ((low + high) / 2) = false) :
    Narrowed fits bound low ((low + high) / 2 - 1) best where
  starts := h.starts
  ordered := by
    have hstarts := h.starts
    omega
  within := by
    have hwithin := h.within
    omega
  below := h.below
  above := by
    intro n hn _
    rw [Bool.eq_false_iff]
    intro hlonger
    have hmiddle := hshorter ((low + high) / 2) n (by omega) hlonger
    rw [hfits] at hmiddle
    cases hmiddle

/-- When nothing is left of the range, the best length is the longest that fits. -/
theorem Narrowed.longest {low high best : Nat} (h : Narrowed fits bound low high best)
    (hempty : high < low) : IsLongest (fits · = true) bound best := by
  obtain ⟨hstarts, hordered, hwithin, hbelow, habove⟩ := h
  rcases hbelow with ⟨rfl, rfl⟩ | ⟨hpositive, hlow, hfits⟩
  · -- the whole range was passed over
    refine Or.inr ⟨rfl, ?_⟩
    intro n hone hbound
    show ¬ fits n = true
    rw [habove n (by omega) hbound]
    exact Bool.false_ne_true
  · refine Or.inl ⟨⟨hpositive, by omega, hfits⟩, ?_⟩
    rintro n ⟨hone, hbound, hn⟩
    apply Nat.le_of_not_lt
    intro hgreater
    rw [habove n (by omega) hbound] at hn
    cases hn

/-- The search ends with the longest length that fits, if it may take a step for
each length of the range. -/
theorem search_longest (hshorter : ∀ m n, m ≤ n → fits n = true → fits m = true)
    (fuel low high best : Nat) (h : Narrowed fits bound low high best)
    (hfuel : high + 1 ≤ fuel + low) :
    IsLongest (fits · = true) bound (search fits fuel low high best) := by
  induction fuel generalizing low high best with
  | zero => exact h.longest (by omega)
  | succ fuel ih =>
      rw [search]
      by_cases hrange : low ≤ high
      · have hstarts := h.starts
        simp only [if_pos hrange]
        -- the middle of the range moves one of its ends, so one step of fuel is
        -- paid
        cases hfits : fits ((low + high) / 2) with
        | true =>
            rw [if_pos rfl]
            apply ih _ _ _ (h.upper hrange hfits)
            omega
        | false =>
            rw [if_neg Bool.false_ne_true]
            apply ih _ _ _ (h.lower hshorter hrange hfits)
            omega
      · rw [if_neg hrange]
        exact h.longest (by omega)

theorem longest_spec (hshorter : ∀ m n, m ≤ n → fits n = true → fits m = true) :
    IsLongest (fits · = true) bound (longest fits bound) :=
  search_longest hshorter (bound + 1) 1 bound 1 (narrowed_start fits bound) (by omega)

end Search

/-! ### Truncation

What the search says is carried over to objects: the room for the list, the key
that it stands under, and the entries beside it. -/

/-- The entries of an object beside the one of a key. What they take of a budget
is not left for the list under the key. -/
def beside (entries : Entries Json) (key : String) : Entries Json :=
  entries.filter fun entry => entry.1 != key

theorem listAt_eq {entries : Entries Json} {key : String} {items : List Json}
    (h : Entries.find? entries key = some (.arr items)) : listAt entries key = items := by
  rw [listAt, h]
  rfl

/-- The test of a prefix is the same for `Bool` and for `Prop`. -/
theorem fits_take_iff (items : List Json) (room : Int) :
    (fun n => decide (tokens (.arr (items.take n)) ≤ room) = true) =
      fun n => tokens (.arr (items.take n)) ≤ room :=
  funext fun _ => propext decide_eq_true_iff

/-- A list that fits as a whole is its own longest prefix that fits. -/
theorem isLongest_whole {items : List Json} (hitems : items ≠ []) {room : Int}
    (h : tokens (.arr items) ≤ room) :
    IsLongest (fun n => tokens (.arr (items.take n)) ≤ room) items.length items.length := by
  have hone : 1 ≤ items.length := List.length_pos_iff.mpr hitems
  have hwhole : tokens (.arr (items.take items.length)) ≤ room := by
    rwa [List.take_length]
  exact Or.inl ⟨⟨hone, Nat.le_refl _, hwhole⟩, fun n hn => hn.2.1⟩

/-- The longest prefix is found by the search, since a shorter one costs no more. -/
theorem isLongest_prefix (items : List Json) (room : Int) :
    IsLongest (fun n => tokens (.arr (items.take n)) ≤ room) items.length
      (longest (fun n => tokens (.arr (items.take n)) ≤ room) items.length) := by
  rw [← fits_take_iff]
  apply longest_spec
  intro m n hmn hn
  have hle := tokens_take_le items hmn
  rw [decide_eq_true_iff] at hn ⊢
  omega

section Truncate

variable {entries : Entries Json} {key : String} {items : List Json}

theorem truncate_whole (hkey : primaryIn? entries = some key)
    (hlist : Entries.find? entries key = some (.arr items)) (hitems : items ≠ []) {budget : Int}
    (hfits : tokens (.arr items) ≤ listBudget entries key budget) :
    truncate entries budget = ⟨entries, items.length, items.length⟩ := by
  have hempty : items.isEmpty = false := List.isEmpty_eq_false_iff.mpr hitems
  simp only [truncate, hkey, listAt_eq hlist, hempty, Bool.false_eq_true, if_false, if_pos hfits]

theorem truncate_cut (hkey : primaryIn? entries = some key)
    (hlist : Entries.find? entries key = some (.arr items)) (hitems : items ≠ []) {budget : Int}
    (hfits : ¬ tokens (.arr items) ≤ listBudget entries key budget) :
    truncate entries budget =
      ⟨Entries.put entries key (.arr (items.take
          (longest (fun n => tokens (.arr (items.take n)) ≤ listBudget entries key budget)
            items.length))),
        items.length,
        longest (fun n => tokens (.arr (items.take n)) ≤ listBudget entries key budget)
          items.length⟩ := by
  have hempty : items.isEmpty = false := List.isEmpty_eq_false_iff.mpr hitems
  simp only [truncate, hkey, listAt_eq hlist, hempty, Bool.false_eq_true, if_false, if_neg hfits]

/-- Of an object with a main list that is not empty, truncation tells the length
of that list and keeps the longest prefix of it that fits what the other entries
leave of the budget, or one element if no prefix does. The keys stay as they
are, and so does what stands under every other key. -/
theorem truncate_keeps_longest (hkey : primaryIn? entries = some key)
    (hlist : Entries.find? entries key = some (.arr items)) (hitems : items ≠ []) (budget : Int) :
    (truncate entries budget).total = items.length ∧
      IsLongest
        (fun n => tokens (.arr (items.take n)) ≤ max 1
          (budget - tokens (.obj (beside entries key))))
        items.length (truncate entries budget).kept ∧
      Entries.keys (truncate entries budget).entries = Entries.keys entries ∧
      Entries.find? (truncate entries budget).entries key =
        some (.arr (items.take (truncate entries budget).kept)) ∧
      ∀ other, other ≠ key →
        Entries.find? (truncate entries budget).entries other = Entries.find? entries other := by
  have hroom : max 1 (budget - tokens (.obj (beside entries key))) = listBudget entries
      key budget := rfl
  have hmem : key ∈ Entries.keys entries := List.mem_map_of_mem (Entries.mem_of_find? hlist)
  rw [hroom]
  by_cases hfits : tokens (.arr items) ≤ listBudget entries key budget
  · rw [truncate_whole hkey hlist hitems hfits]
    refine ⟨rfl, isLongest_whole hitems hfits, rfl, ?_, fun _ _ => rfl⟩
    rw [List.take_length]
    exact hlist
  · rw [truncate_cut hkey hlist hitems hfits]
    exact ⟨rfl, isLongest_prefix items _, Entries.keys_put_of_mem _ hmem,
      Entries.find?_put_self _ _ _,
      fun other hother => Entries.find?_put_of_ne _ _ hother⟩

end Truncate

/-- A list of three elements beside their number. -/
def numbered : Entries Json :=
  [("items", .arr [.int 1, .str "two", .str "three"]), ("_count", .int 3)]

/-- Two of the three elements fit beside the number. -/
theorem truncate_keeps_longest_numbered :
    primaryIn? numbered = some "items" ∧ (truncate numbered 6).total = 3 ∧
      (truncate numbered 6).kept = 2 ∧
      IsLongest
        (fun n => tokens (.arr ([Json.int 1, .str "two", .str "three"].take n)) ≤
          max 1 (6 - tokens (.obj (beside numbered "items"))))
        3 (truncate numbered 6).kept := by
  have hkey : primaryIn? numbered = some "items" := rfl
  have hlist : Entries.find? numbered "items" = some (.arr [.int 1, .str "two", .str "three"]) :=
    rfl
  obtain ⟨htotal, hlongest, -⟩ := truncate_keeps_longest hkey hlist (List.cons_ne_nil _ _) 6
  exact ⟨hkey, htotal, by decide, hlongest⟩

end Budget

end JsonSelection
