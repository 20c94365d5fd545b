/-!
# Ordered entries

A finite map written as the list of its entries in the order in which their keys
first came. Objects, field lists, type registries and caches all use it.

## What this module delivers

- `Entries.find?`, `Entries.has`, `Entries.keys`: what a map holds.
- `Entries.put`, `Entries.putAll`, `Entries.ofList`: writing. Writing to a key
  that is present keeps the key's place.
- `Entries.Distinct`: no key occurs twice. A map made by writing alone is of
  this kind (`Entries.distinct_ofList`).

The type itself does not demand distinct keys, because lists of entries also
stand for what is still to be written, where a later entry replaces an earlier
one. What needs distinct keys has them as a hypothesis.
-/

set_option autoImplicit false

namespace JsonSelection

universe u

/-- Entries of an ordered map from texts. The list is meant to have distinct
keys (`Entries.Distinct`), but nothing in the type demands it. -/
abbrev Entries (α : Type u) := List (String × α)

namespace Entries

variable {α : Type u}

/-- The value at a key, taken from the first entry that has the key. With
distinct keys that is the only one. -/
def find? : Entries α → String → Option α
  | [], _ => none
  | (k, v) :: rest, key => if k = key then some v else find? rest key

/-- Whether some entry has the key. -/
def has (entries : Entries α) (key : String) : Bool :=
  (entries.find? key).isSome

/-- Keys in order. -/
def keys (entries : Entries α) : List String :=
  entries.map Prod.fst

/-- Writes a value: in place when the key is present, at the end otherwise. So
the order of keys is that in which they were first written. -/
def put : Entries α → String → α → Entries α
  | [], key, value => [(key, value)]
  | (k, v) :: rest, key, value =>
      if k = key then (k, value) :: rest else (k, v) :: put rest key value

/-- Writes all entries of a list one after the other; a later entry replaces the
value of an earlier one. -/
def putAll (entries : Entries α) (added : List (String × α)) : Entries α :=
  added.foldl (fun acc entry => put acc entry.1 entry.2) entries

/-- Entries of a list in which a later entry replaces an earlier one of the same
key. -/
def ofList (added : List (String × α)) : Entries α :=
  putAll [] added

/-- No key occurs twice. -/
def Distinct (entries : Entries α) : Prop :=
  (keys entries).Nodup

/-! ## What writing changes -/

theorem find?_put_self (entries : Entries α) (key : String) (value : α) :
    find? (put entries key value) key = some value := by
  induction entries with
  | nil => simp [put, find?]
  | cons entry rest ih =>
      obtain ⟨k, v⟩ := entry
      by_cases h : k = key
      · simp [put, find?, h]
      · simp [put, find?, h, ih]

theorem find?_put_of_ne (entries : Entries α) {key other : String} (value : α)
    (h : other ≠ key) : find? (put entries key value) other = find? entries other := by
  induction entries with
  | nil => simp [put, find?, Ne.symm h]
  | cons entry rest ih =>
      obtain ⟨k, v⟩ := entry
      by_cases hk : k = key
      · subst hk
        simp [put, find?, Ne.symm h]
      · by_cases ho : k = other
        · subst ho
          simp [put, find?, hk]
        · simp [put, find?, hk, ho, ih]

theorem has_iff_mem_keys (entries : Entries α) (key : String) :
    entries.has key = true ↔ key ∈ keys entries := by
  induction entries with
  | nil => simp [has, find?, keys]
  | cons entry rest ih =>
      obtain ⟨k, v⟩ := entry
      by_cases h : k = key
      · simp [has, find?, keys, h]
      · have hne : key ≠ k := fun e => h e.symm
        simpa [has, find?, keys, h, hne] using ih

theorem keys_put_of_mem {entries : Entries α} {key : String} (value : α)
    (h : key ∈ keys entries) : keys (put entries key value) = keys entries := by
  induction entries with
  | nil => simp [keys] at h
  | cons entry rest ih =>
      obtain ⟨k, v⟩ := entry
      by_cases hk : k = key
      · simp [put, keys, hk]
      · have hrest : key ∈ keys rest := by
          rcases List.mem_cons.mp h with he | hr
          · exact absurd he.symm hk
          · exact hr
        simpa [put, keys, hk] using ih hrest

theorem keys_put_of_not_mem {entries : Entries α} {key : String} (value : α)
    (h : key ∉ keys entries) : keys (put entries key value) = keys entries ++ [key] := by
  induction entries with
  | nil => simp [put, keys]
  | cons entry rest ih =>
      obtain ⟨k, v⟩ := entry
      have hk : k ≠ key := fun e => h (List.mem_cons.mpr (Or.inl e.symm))
      have hrest : key ∉ keys rest := fun hm => h (List.mem_cons.mpr (Or.inr hm))
      simpa [put, keys, hk] using ih hrest

/-- Writing to a map keeps its keys apart. -/
theorem distinct_put {entries : Entries α} (key : String) (value : α) (h : Distinct entries) :
    Distinct (put entries key value) := by
  by_cases hm : key ∈ keys entries
  · rw [Distinct, keys_put_of_mem value hm]
    exact h
  · rw [Distinct, keys_put_of_not_mem value hm, List.nodup_append]
    refine ⟨h, by simp, ?_⟩
    intro a ha b hb hab
    rw [List.mem_singleton.mp hb] at hab
    exact hm (hab ▸ ha)

theorem distinct_putAll {entries : Entries α} (added : List (String × α))
    (h : Distinct entries) :
    Distinct (putAll entries added) := by
  induction added generalizing entries with
  | nil => exact h
  | cons entry rest ih => exact ih (distinct_put entry.1 entry.2 h)

/-- A list of entries in which keys repeat becomes a map in which none does. -/
theorem distinct_ofList (added : List (String × α)) : Distinct (ofList added) :=
  distinct_putAll added List.nodup_nil

end Entries

end JsonSelection
