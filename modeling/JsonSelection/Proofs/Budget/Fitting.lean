import JsonSelection.Proofs.Budget.Prefix

/-!
# Truncated results and the budget

The text of a truncated result is made up of the text of the cut list, that of
the other entries, and what joins the two: the key of the list, a colon and a
comma (`Json.seam`). Truncation leaves room for the first two only.

## What this module delivers

- `Budget.Truncated`: what a truncated object looks like. Its main list is a
  prefix of the old one, all else is as it was, and a prefix of several elements
  fits what the other entries leave of the budget.
- `Budget.truncated_of_fit`: only objects with a main list that is not empty are
  truncated, and they become such objects.
- `Budget.Truncated.tokens_le`: a truncated result of several elements exceeds
  its budget by the tokens of the seam at most.
- `Budget.truncated_fits_iff`: it fits the budget exactly if the budget pays for
  the characters of all three parts, or a single element is kept.

Which prefix is kept is the subject of `Proofs/Budget/Prefix`; here only its
size counts.
-/

set_option autoImplicit false

namespace JsonSelection

namespace Budget

/-! ### The main list

The main list is found by its key, and cutting it must not change which key that
is: a list stays a list, and what is hidden stays hidden. -/

/-- The main list of a result. A value that is no object has none, and neither
has an object whose only lists stand under hidden keys. -/
def mainList? (value : Json) : Option (List Json) :=
  (primaryKey? value).bind fun key => (value.member? key).bind Json.items?

theorem exists_items {value : Json} (h : isArray value = true) : ∃ items, value = .arr items := by
  cases value with
  | arr items => exact ⟨items, rfl⟩
  | _ => cases h

/-- The main list of an object is a list. -/
theorem find?_of_primaryIn? {entries : Entries Json} (hdistinct : Entries.Distinct entries)
    {key : String} (h : primaryIn? entries = some key) : ∃ items,
    Entries.find? entries key = some (.arr items) := by
  rw [primaryIn?] at h
  split at h
  · next hitems =>
      obtain rfl := Option.some.inj h
      cases hfind : Entries.find? entries "items" with
      | none =>
          rw [hfind] at hitems
          cases hitems
      | some value =>
          rw [hfind] at hitems
          obtain ⟨items, rfl⟩ := exists_items hitems
          exact ⟨items, rfl⟩
  -- without items the first list of the object is the main one
  · obtain ⟨entry, hentry, rfl⟩ := Option.map_eq_some_iff.mp h
    have hlist := List.find?_some hentry
    simp only [Bool.and_eq_true] at hlist
    obtain ⟨items, hitems⟩ := exists_items hlist.2
    refine ⟨items, ?_⟩
    rw [← hitems]
    exact Entries.find?_of_mem hdistinct (List.mem_of_find?_eq_some hentry)

/-- The first visible list stays where it is when a list is replaced by a list. -/
theorem firstVisible_put {entries : Entries Json} {key : String} {items : List Json}
    (h : Entries.find? entries key = some (.arr items)) (others : List Json) :
    (List.find? (fun entry => !isHidden entry.1 && isArray entry.2)
        (Entries.put entries key (.arr others))).map Prod.fst =
      (List.find? (fun entry => !isHidden entry.1 && isArray entry.2) entries).map Prod.fst := by
  induction entries with
  | nil => cases h
  | cons entry rest ih =>
      obtain ⟨k, v⟩ := entry
      by_cases hk : k = key
      · rw [Entries.find?, if_pos hk] at h
        obtain rfl := Option.some.inj h
        rw [Entries.put, if_pos hk, List.find?_cons, List.find?_cons]
        -- both are lists, so what counts is whether the key is hidden
        cases hhidden : isHidden k with
        | true => simp
        | false => simp [isArray, Json.items?]
      · rw [Entries.find?, if_neg hk] at h
        rw [Entries.put, if_neg hk, List.find?_cons, List.find?_cons]
        split
        · rfl
        · exact ih h

/-- A list that is cut stays the main list, so cutting twice cuts the same list. -/
theorem primaryIn?_put {entries : Entries Json} {key : String} {items : List Json}
    (h : Entries.find? entries key = some (.arr items)) (others : List Json) :
    primaryIn? (Entries.put entries key (.arr others)) = primaryIn? entries := by
  have hitems : (Entries.find? (Entries.put entries key (.arr others)) "items").any isArray =
      (Entries.find? entries "items").any isArray := by
    by_cases hkey : "items" = key
    · subst hkey
      rw [Entries.find?_put_self, h]
      rfl
    · rw [Entries.find?_put_of_ne _ _ hkey]
  rw [primaryIn?, primaryIn?, hitems, firstVisible_put h]

/-! ### What is kept

The size of a truncated object splits into the three parts, and two of them are
bounded together by what truncation tests. -/

/-- A truncated object: the main list is cut to some of its first elements, all
else is as it was. If it is more than one element, they fit what the other
entries leave of the budget. -/
structure Truncated (entries : Entries Json) (budget : Int) (key : String) (items : List Json)
    (kept : Nat) (shown : Entries Json) : Prop where
  list : Entries.find? shown key = some (.arr (items.take kept))
  distinct : Entries.Distinct shown
  others : beside shown key = beside entries key
  main : primaryIn? shown = some key
  positive : 1 ≤ kept
  within : kept ≤ items.length
  fits : kept = 1 ∨ tokens (.arr (items.take kept)) ≤ listBudget entries key budget

theorem IsLongest.fits {fits : Nat → Prop} {bound kept : Nat} (h : IsLongest fits bound kept) :
    kept = 1 ∨ fits kept := by
  rcases h with ⟨hmem, -⟩ | ⟨hone, -⟩
  · exact Or.inr hmem.2.2
  · exact Or.inl hone

theorem IsLongest.bounds {fits : Nat → Prop} {bound kept : Nat} (h : IsLongest fits bound kept)
    (hbound : 1 ≤ bound) : 1 ≤ kept ∧ kept ≤ bound := by
  rcases h with ⟨hmem, -⟩ | ⟨rfl, -⟩
  · exact ⟨hmem.1, hmem.2.1⟩
  · exact ⟨Nat.le_refl 1, hbound⟩

section Truncate

variable {entries : Entries Json} {key : String} {items : List Json}

theorem truncated_truncate (hdistinct : Entries.Distinct entries)
    (hkey : primaryIn? entries = some key) (hlist : Entries.find? entries key = some (.arr items))
    (hitems : items ≠ []) (budget : Int) :
    Truncated entries budget key items (truncate entries budget).kept (truncate entries
      budget).entries := by
  have hone : 1 ≤ items.length := List.length_pos_iff.mpr hitems
  by_cases hfits : tokens (.arr items) ≤ listBudget entries key budget
  · rw [truncate_whole hkey hlist hitems hfits]
    have hwhole : items.take items.length = items := List.take_length
    exact ⟨by rw [hwhole, hlist], hdistinct, rfl, hkey, hone, Nat.le_refl _,
      Or.inr (by rw [hwhole]; exact hfits)⟩
  · rw [truncate_cut hkey hlist hitems hfits]
    have hlongest := isLongest_prefix items (listBudget entries key budget)
    obtain ⟨hpositive, hwithin⟩ := hlongest.bounds hone
    exact ⟨Entries.find?_put_self _ _ _, Entries.distinct_put _ _ hdistinct,
      Entries.filter_put _ _ _,
      (primaryIn?_put hlist _).trans hkey, hpositive, hwithin, hlongest.fits⟩

/-- Only objects with a main list that is not empty are truncated. -/
theorem truncated_of_fit (hdistinct : Entries.Distinct entries) {budget limit : Int}
    {kept total : Nat} {shown : Json} (h : fit (.obj entries) budget =
      (.truncated kept total limit, shown)) :
    ∃ key items result, primaryIn? entries = some key ∧
      Entries.find? entries key = some (.arr items) ∧ shown = .obj result ∧
      Truncated entries budget key items kept result := by
  simp only [fit] at h
  split at h
  · cases h
  · split at h
    · cases h
    · next htotal =>
        simp only [Prod.mk.injEq, Status.truncated.injEq] at h
        obtain ⟨⟨rfl, -, -⟩, rfl⟩ := h
        -- no main list and an empty one give a total of zero
        cases hkey : primaryIn? entries with
        | none =>
            simp only [truncate, hkey, not_true_eq_false] at htotal
        | some key =>
            obtain ⟨items, hlist⟩ := find?_of_primaryIn? hdistinct hkey
            have hitems : items ≠ [] := by
              rintro rfl
              apply htotal
              simp [truncate, hkey, listAt_eq hlist]
            exact ⟨key, items, _, rfl, hlist, rfl,
              truncated_truncate hdistinct hkey hlist hitems budget⟩

/-- The text of a truncated object is made up of the other entries, the cut list
and what joins them. -/
theorem Truncated.size_eq {budget : Int} {kept : Nat} {result : Entries Json}
    (h : Truncated entries budget key items kept result) :
    Json.size (.obj result) = Json.size (.obj (beside entries key)) +
      Json.size (.arr (items.take kept)) + Json.seam key (beside entries key) := by
  have hperm := Entries.perm_of_find? h.distinct h.list
  have hothers : (result.filter fun entry => entry.1 != key) = beside entries key := h.others
  rw [Json.size_obj_perm hperm, Json.size_obj_cons, hothers]

/-- Several elements fit the budget together with the other entries, what joins
them apart. -/
theorem Truncated.counted {budget : Int} {kept : Nat} {result : Entries Json}
    (h : Truncated entries budget key items kept result) (hkept : kept ≠ 1) :
    tokens (.obj (beside entries key)) + tokens (.arr (items.take kept)) ≤ budget := by
  have hlength : 2 ≤ (items.take kept).length := by
    have hpositive := h.positive
    have hwithin := h.within
    rw [List.length_take, Nat.min_eq_left hwithin]
    omega
  -- two elements cost two tokens at least, so the room is more than the one token
  -- that is always left
  have hsize := Json.five_le_size hlength
  have hlist : 2 ≤ tokens (.arr (items.take kept)) := by
    rw [tokens_eq]
    omega
  have hroom : listBudget entries key budget = max 1
      (budget - tokens (.obj (beside entries key))) := rfl
  have hfits := h.fits.resolve_left hkept
  rw [hroom] at hfits
  omega

/-- Of several elements the budget is exceeded by what joins the list to the
other entries at most. -/
theorem Truncated.tokens_le {budget : Int} {kept : Nat} {result : Entries Json}
    (h : Truncated entries budget key items kept result) (hkept : kept ≠ 1) :
    tokens (.obj result) ≤ budget + ((Json.seam key (beside entries key) + 3) / 4 : Nat) := by
  have hcounted := h.counted hkept
  rw [tokens_eq, tokens_eq] at hcounted
  rw [tokens_eq, h.size_eq]
  omega

theorem Truncated.mainList?_eq {budget : Int} {kept : Nat} {result : Entries Json}
    (h : Truncated entries budget key items kept result) :
    mainList? (.obj result) = some (items.take kept) := by
  have hkey : primaryKey? (.obj result) = some key := h.main
  have hlist : Json.member? (.obj result) key = some (.arr (items.take kept)) := h.list
  rw [mainList?, hkey, Option.bind_some, hlist]
  rfl

end Truncate

/-- A result that is shown truncated fits the budget, or shows a single element,
exactly if it shows a single element or the budget pays for the characters of
the cut list, of the other entries and of the seam between them. Truncation
itself sees to the first two only: of several elements, the list and the other
entries fit the budget together, so the whole exceeds it by the tokens of the
seam at most. -/
theorem truncated_fits_iff {entries : Entries Json} (hdistinct : Entries.Distinct entries)
    {budget limit : Int} {kept total : Nat} {shown : Json}
    (h : fit (.obj entries) budget = (.truncated kept total limit, shown)) :
    ∃ key items, primaryIn? entries = some key ∧
    Entries.find? entries key = some (.arr items) ∧
      mainList? shown = some (items.take kept) ∧ 1 ≤ kept ∧ kept ≤ items.length ∧
      ((tokens shown ≤ budget ∨ ∃ item, mainList? shown = some [item]) ↔
        kept = 1 ∨ (Json.size (.obj (beside entries key)) + Json.size (.arr (items.take kept)) +
          Json.seam key (beside entries key) : Nat) ≤ 4 * budget) ∧
      (kept ≠ 1 →
        tokens (.obj (beside entries key)) + tokens (.arr (items.take kept)) ≤ budget ∧
          tokens shown ≤ budget + ((Json.seam key (beside entries key) + 3) / 4 : Nat)) := by
  obtain ⟨key, items, result, hkey, hlist, rfl, htruncated⟩ := truncated_of_fit hdistinct h
  have hmain := htruncated.mainList?_eq
  have hsingle : (∃ item, mainList? (.obj result) = some [item]) ↔ kept = 1 := by
    have hwithin := htruncated.within
    rw [hmain]
    simp only [Option.some.injEq, ← List.length_eq_one_iff, List.length_take,
      Nat.min_eq_left hwithin]
  refine ⟨key, items, hkey, hlist, hmain, htruncated.positive, htruncated.within, ?_,
    fun hkept => ⟨htruncated.counted hkept, htruncated.tokens_le hkept⟩⟩
  rw [hsingle, tokens_le_iff, htruncated.size_eq]
  exact Or.comm

/-- Two numbers under the key `items` cost two tokens, and what is left of the
object costs one, but their object costs four. -/
theorem truncated_fits_iff_pair :
    fit (.obj [("items", .arr [.int 1, .int 2])]) 3 =
        (.truncated 2 2 3, .obj [("items", .arr [.int 1, .int 2])]) ∧
      ¬ (tokens (.obj [("items", .arr [.int 1, .int 2])]) ≤ 3 ∨
        ∃ item, mainList? (.obj [("items", .arr [.int 1, .int 2])]) = some [item]) := by
  have hfit : fit (.obj [("items", .arr [.int 1, .int 2])]) 3 =
      (.truncated 2 2 3, .obj [("items", .arr [.int 1, .int 2])]) := rfl
  have hdistinct : Entries.Distinct [("items", Json.arr [.int 1, .int 2])] := by
    simp [Entries.Distinct, Entries.keys]
  refine ⟨hfit, ?_⟩
  obtain ⟨key, items, hkey, hlist, -, -, -, hiff, -⟩ :=
    truncated_fits_iff hdistinct hfit
  obtain rfl : key = "items" := Option.some.inj (hkey.symm.trans rfl)
  obtain rfl : items = [.int 1, .int 2] := by
    have hitems : some (Json.arr items) = some (.arr [.int 1, .int 2]) := hlist.symm.trans rfl
    simpa using hitems
  rw [hiff]
  decide

end Budget

end JsonSelection
