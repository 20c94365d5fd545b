import JsonSelection.Entries

/-!
# Lookups, writes and distinct keys

What is found in a map and what a write changes, for maps in which no key occurs
twice: an entry is found under its key (`Entries.find?_of_mem`), and a new key
goes to the end (`Entries.put_of_not_mem`).

Writing many entries keeps the keys that are there and adds the new ones in the
order in which they first occur (`Entries.keys_putAll`); of two entries with one
key the later one is found (`Entries.find?_putAll`, `Entries.find?_ofList`). A
list in which no key repeats is the map that is made of it
(`Entries.ofList_of_distinct`).
-/

set_option autoImplicit false

namespace JsonSelection

namespace Entries

variable {α β : Type}

/-- An entry of a map after a write was there before it, or is the written one. -/
theorem mem_put {entries : Entries α} {key : String} {value : α} {entry : String × α}
    (h : entry ∈ put entries key value) : entry ∈ entries ∨ entry = (key, value) := by
  induction entries with
  | nil => exact Or.inr (List.mem_singleton.mp h)
  | cons first rest ih =>
      obtain ⟨k, v⟩ := first
      by_cases hk : k = key
      · simp only [put, if_pos hk, List.mem_cons] at h
        rcases h with rfl | h
        · exact Or.inr (by rw [hk])
        · exact Or.inl (List.mem_cons_of_mem _ h)
      · simp only [put, if_neg hk, List.mem_cons] at h
        rcases h with rfl | h
        · exact Or.inl List.mem_cons_self
        · rcases ih h with h | h
          · exact Or.inl (List.mem_cons_of_mem _ h)
          · exact Or.inr h

/-- What is found under a key is an entry with that key. -/
theorem mem_of_find? {entries : Entries α} {key : String} {value : α}
    (h : find? entries key = some value) : (key, value) ∈ entries := by
  induction entries with
  | nil => cases h
  | cons first rest ih =>
      obtain ⟨k, v⟩ := first
      simp only [find?] at h
      split at h
      · next hk =>
          obtain rfl := Option.some.inj h
          rw [hk]
          exact List.mem_cons_self
      · exact List.mem_cons_of_mem _ (ih h)

/-- In entries that are made from a list, each element is found under its own key. -/
theorem find?_map_of_mem {items : List β} {key : β → String} (hdistinct : (items.map key).Nodup)
    (value : β → α) {item : β} (hitem : item ∈ items) :
    find? (items.map fun other => (key other, value other)) (key item) = some (value item) := by
  induction items with
  | nil => cases hitem
  | cons first rest ih =>
      rw [List.map_cons, List.nodup_cons] at hdistinct
      rw [List.map_cons]
      by_cases heq : key first = key item
      · rw [find?, if_pos heq]
        rcases List.mem_cons.mp hitem with rfl | hrest
        · rfl
        · exact absurd (heq ▸ List.mem_map_of_mem hrest) hdistinct.1
      · rw [find?, if_neg heq]
        rcases List.mem_cons.mp hitem with rfl | hrest
        · exact absurd rfl heq
        · exact ih hdistinct.2 hrest

theorem find?_of_mem {entries : Entries α} (hdistinct : Distinct entries) {entry : String × α}
    (h : entry ∈ entries) : find? entries entry.1 = some entry.2 := by
  have hfind := find?_map_of_mem hdistinct Prod.snd h
  rwa [List.map_id'] at hfind

/-- A map is made of its keys and of what is found under them. -/
theorem map_keys_eq {entries : Entries α} (hdistinct : Distinct entries) (other : α) :
    (keys entries).map (fun key => (key, (find? entries key).getD other)) = entries := by
  rw [keys, List.map_map]
  conv => rhs; rw [← List.map_id entries]
  apply List.map_congr_left
  intro entry hentry
  rw [Function.comp_apply, find?_of_mem hdistinct hentry]
  rfl

theorem keys_map (items : List β) (key : β → String) (value : β → α) :
    keys (items.map fun item => (key item, value item)) = items.map key := by
  rw [keys, List.map_map]
  rfl

theorem keys_append (first second : Entries α) :
    keys (first ++ second) = keys first ++ keys second :=
  List.map_append

/-- Writing under a new key adds an entry at the end. -/
theorem put_of_not_mem {entries : Entries α} {key : String} (value : α)
    (h : key ∉ keys entries) :
    put entries key value = entries ++ [(key, value)] := by
  induction entries with
  | nil => rfl
  | cons entry rest ih =>
      obtain ⟨k, v⟩ := entry
      have hk : k ≠ key := fun heq => h (List.mem_cons.mpr (Or.inl heq.symm))
      have hrest : key ∉ keys rest := fun hmem => h (List.mem_cons_of_mem _ hmem)
      rw [put, if_neg hk, ih hrest, List.cons_append]

/-- Writing under a key that is present changes the first entry that has it. -/
theorem put_append_cons {first : Entries α} {key : String} (h : key ∉ keys first)
    (old value : α) (rest : Entries α) : put (first ++ (key, old) :: rest) key value =
      first ++ (key, value) :: rest := by
  induction first with
  | nil => simp [put]
  | cons entry others ih =>
      obtain ⟨k, v⟩ := entry
      have hk : k ≠ key := fun heq => h (List.mem_cons.mpr (Or.inl heq.symm))
      have hothers : key ∉ keys others := fun hmem => h (List.mem_cons_of_mem _ hmem)
      rw [List.cons_append, put, if_neg hk, ih hothers, List.cons_append]

theorem find?_append (first second : Entries α) (key : String) :
    find? (first ++ second) key = (find? first key).or (find? second key) := by
  induction first with
  | nil => rfl
  | cons entry rest ih =>
      obtain ⟨other, value⟩ := entry
      rw [List.cons_append, find?, find?, ih]
      split <;> rfl

/-- In entries that are made from a list, a key finds the first element with
this key. -/
theorem find?_map (items : List β) (keyOf : β → String) (value : β → α) (key : String) :
    find? (items.map fun item => (keyOf item, value item)) key =
      (items.find? fun item => keyOf item == key).map value := by
  induction items with
  | nil => rfl
  | cons item rest ih =>
      rw [List.map_cons, find?, List.find?_cons, ih]
      by_cases hkey : keyOf item = key
      · rw [if_pos hkey, beq_iff_eq.mpr hkey]
        rfl
      · rw [if_neg hkey, beq_eq_false_iff_ne.mpr hkey]

/-- Of two values that are written under one key the second one stays. -/
theorem put_put_self (entries : Entries α) (key : String) (first second : α) :
    put (put entries key first) key second = put entries key second := by
  induction entries with
  | nil => simp [put]
  | cons entry rest ih =>
      obtain ⟨k, v⟩ := entry
      by_cases hk : k = key
      · simp [put, hk]
      · simp [put, hk, ih]

/-- A key that is there keeps its place, so it does not matter when another key
is written. -/
theorem put_put_of_ne {entries : Entries α} {key other : String}
    (hother : other ≠ key) {old : α} (h : find? entries key = some old) (value added : α) :
    put (put entries key value) other added = put (put entries other added) key value := by
  induction entries with
  | nil => cases h
  | cons entry rest ih =>
      obtain ⟨k, v⟩ := entry
      by_cases hk : k = key
      · subst hk
        simp [put, Ne.symm hother]
      · rw [find?, if_neg hk] at h
        by_cases hko : k = other
        · simp [put, hko, hother]
        · simp [put, hk, hko, ih h]

/-- An entry of a map can be taken to the front. -/
theorem perm_of_find? {entries : Entries α} (hdistinct : Distinct entries)
    {key : String} {value : α} (h : find? entries key = some value) :
    entries.Perm ((key, value) :: entries.filter fun entry => entry.1 != key) := by
  induction entries with
  | nil => cases h
  | cons entry rest ih =>
      obtain ⟨k, v⟩ := entry
      obtain ⟨hnew, hrest⟩ := List.nodup_cons.mp hdistinct
      by_cases hk : k = key
      · subst hk
        rw [find?, if_pos rfl] at h
        obtain rfl := Option.some.inj h
        -- no other entry has the key, so nothing else is taken out
        have hothers : rest.filter (fun entry => entry.1 != k) = rest := by
          rw [List.filter_eq_self]
          intro other hother
          have hmem : other.1 ∈ rest.map Prod.fst := List.mem_map_of_mem hother
          have hne : other.1 ≠ k := by
            intro heq
            rw [heq] at hmem
            exact hnew hmem
          simpa using hne
        simp [hothers]
      · rw [find?, if_neg hk] at h
        have hkept : (k != key) = true := by simpa using hk
        rw [List.filter_cons, if_pos hkept]
        exact ((ih hrest h).cons (k, v)).trans (.swap _ _ _)

/-- What stands under the other keys does not depend on what is written under a
key. -/
theorem filter_put (entries : Entries α) (key : String) (value : α) :
    (put entries key value).filter (fun entry => entry.1 != key) =
      entries.filter fun entry => entry.1 != key := by
  induction entries with
  | nil => simp [put]
  | cons entry rest ih =>
      obtain ⟨k, v⟩ := entry
      by_cases hk : k = key
      · simp [put, hk]
      · simp [put, hk, ih]

/-! ### Maps made by writing

A map that is made by writing a list of entries has the keys of the list, each
once, and under each key the value that comes last in the list. -/

/-- Writing all entries of a list keeps the keys that are there and adds the new
ones in the order in which they first occur. -/
theorem keys_putAll (entries : Entries α) (added : List (String × α)) :
    keys (putAll entries added) =
      keys entries ++ ((keys added).filter fun key => !(keys entries).contains key).eraseDups := by
  induction added generalizing entries with
  | nil => simp [putAll, keys]
  | cons entry rest ih =>
      obtain ⟨key, value⟩ := entry
      have hstep : putAll entries ((key, value) :: rest) = putAll (put entries key value) rest :=
        rfl
      have hkeys : keys ((key, value) :: rest) = key :: keys rest := rfl
      rw [hstep, ih, hkeys]
      by_cases hmem : key ∈ keys entries
      · rw [keys_put_of_mem value hmem]
        simp [hmem]
      · -- the new key is no longer new to those after it
        rw [keys_put_of_not_mem value hmem]
        have hfilter : (keys rest).filter (fun other => !(keys entries ++ [key]).contains other) =
            ((keys rest).filter fun other => !(keys entries).contains other).filter
              (!· == key) := by
          rw [List.filter_filter]
          apply List.filter_congr
          intro other _
          by_cases hother : other = key <;> simp [hother]
        have hnew : (!(keys entries).contains key) = true := by simpa using hmem
        rw [hfilter, List.filter_cons, if_pos hnew, List.eraseDups_cons, List.append_assoc]
        rfl

/-- Entries of new and distinct keys are added as they are. -/
theorem putAll_of_distinct {entries added : Entries α} (h : Distinct (entries ++ added)) :
    putAll entries added = entries ++ added := by
  induction added generalizing entries with
  | nil => exact (List.append_nil entries).symm
  | cons entry rest ih =>
      have hassoc : entries ++ entry :: rest = entries ++ [entry] ++ rest := by
        rw [List.append_assoc, List.singleton_append]
      have hstep : putAll entries (entry :: rest) = putAll (put entries entry.1 entry.2) rest := rfl
      have hnew : entry.1 ∉ keys entries := by
        rw [Distinct, keys_append, List.nodup_append] at h
        exact fun hmem => h.2.2 entry.1 hmem entry.1 List.mem_cons_self rfl
      rw [hassoc] at h ⊢
      rw [hstep, put_of_not_mem entry.2 hnew]
      exact ih h

theorem ofList_of_distinct {added : Entries α} (h : Distinct added) : ofList added = added := by
  have hnone : Distinct ([] ++ added) := h
  exact putAll_of_distinct hnone

theorem keys_ofList (added : List (String × α)) :
    keys (ofList added) = (keys added).eraseDups := by
  have hnone : (keys added).filter (fun key => !(keys ([] : Entries α)).contains key) =
      keys added :=
    List.filter_eq_self.mpr fun key _ => rfl
  rw [ofList, keys_putAll, hnone]
  rfl

/-- Of the entries of a list with one key the last one is written last. -/
theorem find?_putAll (entries : Entries α) (added : List (String × α)) (key : String) :
    find? (putAll entries added) key = (find? added.reverse key).or (find? entries key) := by
  induction added generalizing entries with
  | nil => rfl
  | cons entry rest ih =>
      obtain ⟨other, value⟩ := entry
      have hstep : putAll entries ((other, value) :: rest) =
          putAll (put entries other value) rest := rfl
      rw [hstep, ih, List.reverse_cons, find?_append, Option.or_assoc]
      by_cases hkey : key = other
      · subst hkey
        simp [find?_put_self, find?]
      · simp [find?_put_of_ne entries value hkey, find?, Ne.symm hkey]

theorem find?_ofList (added : List (String × α)) (key : String) :
    find? (ofList added) key = find? added.reverse key := by
  rw [ofList, find?_putAll]
  exact Option.or_none

/-- In a map that is written from some items, a key finds the last item with it. -/
theorem find?_ofList_map (items : List β) (counts : β → Bool) (entry : β → String × α)
    (key : String) (value : α) :
    find? (ofList ((items.filter counts).map entry)) key = some value ↔
      ∃ before item after, items = before ++ item :: after ∧ counts item = true ∧
        entry item = (key, value) ∧
        ∀ other ∈ after, counts other = true → (entry other).1 ≠ key := by
  -- a later item overwrites an earlier one, so the last one with the key is the
  -- first one of the reversed list
  have hmap := find?_map (items.reverse.filter counts) (fun item => (entry item).1)
    (fun item => (entry item).2) key
  rw [find?_ofList, ← List.map_reverse, ← List.filter_reverse, hmap, List.find?_filter,
    Option.map_eq_some_iff]
  constructor
  · rintro ⟨item, hfind, hvalue⟩
    obtain ⟨hitem, after, before, hsplit, hafter⟩ := List.find?_eq_some_iff_append.mp hfind
    simp only [decide_eq_true_eq, beq_iff_eq] at hitem
    refine ⟨before.reverse, item, after.reverse, ?_, hitem.1, Prod.ext hitem.2 hvalue, ?_⟩
    · rw [← List.reverse_reverse items, hsplit]
      simp
    · intro other hother hcounts
      have hnot := hafter other (List.mem_reverse.mp hother)
      simpa [hcounts] using hnot
  · rintro ⟨before, item, after, rfl, hcounts, hentry, hafter⟩
    refine ⟨item, List.find?_eq_some_iff_append.mpr ⟨?_, after.reverse,
      before.reverse, ?_, ?_⟩, ?_⟩
    · simp [hcounts, hentry]
    · simp
    · intro other hother
      have hne := hafter other (List.mem_reverse.mp hother)
      by_cases hother : counts other = true
      · simp [hother, hne hother]
      · simp [hother]
    · rw [hentry]

theorem has_eq_false_iff (entries : Entries α) (key : String) :
    entries.has key = false ↔ key ∉ keys entries := by
  rw [← has_iff_mem_keys, Bool.not_eq_true]

end Entries

end JsonSelection
