import JsonSelection.Proofs.Sample.Congruence
import JsonSelection.Proofs.Sample.Majority

/-!
# Samples that repeat

Samples that are given several times over are merged to the same object, with
the same conflicts, as when they are given once (`Sample.merge_copies`). Each
kind keeps its share of the values under a key, and what is first among them
stays first.

Where a lone object has been kept as it is, its copies are merged. They are
merged to the object itself, because no key occurs in it twice. Of arrays this
says that the number of times their elements are repeated does not matter, as
long as all elements are looked at (`Sample.mergeItems_copies`).
-/

set_option autoImplicit false

namespace JsonSelection

namespace Sample

variable {α β : Type} {count : Nat}

/-! ### Copies of a list -/

/-- The elements of a list several times over. -/
def copies (count : Nat) (items : List α) : List α :=
  (List.replicate count items).flatten

theorem copies_succ (count : Nat) (items : List α) :
    copies (count + 1) items = items ++ copies count items := by
  rw [copies, List.replicate_succ, List.flatten_cons, copies]

theorem copies_nil (count : Nat) : copies count ([] : List α) = [] := by
  induction count with
  | zero => rfl
  | succ count ih => rw [copies_succ, ih, List.append_nil]

theorem mem_of_mem_copies {items : List α} {item : α} (h : item ∈ copies count items) :
    item ∈ items := by
  obtain ⟨list, hlist, hitem⟩ := List.mem_flatten.mp h
  rwa [← List.eq_of_mem_replicate hlist]

theorem length_copies (count : Nat) (items : List α) :
    (copies count items).length = count * items.length := by
  rw [copies, List.length_flatten, List.map_replicate, List.sum_replicate_nat]

theorem filterMap_copies (f : α → Option β) (count : Nat) (items : List α) :
    (copies count items).filterMap f = copies count (items.filterMap f) := by
  rw [copies, copies, List.filterMap_flatten, List.map_replicate]

theorem filter_copies (keep : α → Bool) (count : Nat) (items : List α) :
    (copies count items).filter keep = copies count (items.filter keep) := by
  rw [copies, copies, List.filter_flatten, List.map_replicate]

theorem map_copies (f : α → β) (count : Nat) (items : List α) :
    (copies count items).map f = copies count (items.map f) := by
  rw [copies, copies, List.map_flatten, List.map_replicate]

theorem flatMap_copies (f : α → List β) (count : Nat) (items : List α) :
    (copies count items).flatMap f = copies count (items.flatMap f) := by
  induction count with
  | zero => rfl
  | succ count ih => rw [copies_succ, copies_succ, List.flatMap_append, ih]

/-! ### What copies do not change

A merge asks a list for its first element of some form, for its elements without
repetition, and for the share of some of them. None of these changes with the
number of copies, as long as there is one. -/

section Copies

variable (hcount : 0 < count)

include hcount

/-- Of at least one copy the first one comes first. -/
theorem exists_copies (items : List α) : ∃ others, copies count items = items ++ others := by
  obtain ⟨fewer, rfl⟩ := Nat.exists_eq_succ_of_ne_zero (Nat.ne_of_gt hcount)
  exact ⟨copies fewer items, copies_succ fewer items⟩

theorem headD_copies (items : List α) (other : α) : (copies count items).headD other =
    items.headD other := by
  cases items with
  | nil => rw [copies_nil]
  | cons item rest =>
      obtain ⟨others, hothers⟩ := exists_copies hcount (item :: rest)
      rw [hothers]
      rfl

theorem find?_copies (found : α → Bool) (items : List α) :
    (copies count items).find? found = items.find? found := by
  -- what is found is the first of all that could be
  rw [← List.head?_filter, ← List.head?_filter, filter_copies]
  cases items.filter found with
  | nil => rw [copies_nil]
  | cons item rest =>
      obtain ⟨others, hothers⟩ := exists_copies hcount (item :: rest)
      rw [hothers]
      rfl

/-- Copies bring nothing that has not been seen. -/
theorem eraseDups_copies [BEq α] [LawfulBEq α] (items : List α) :
    (copies count items).eraseDups = items.eraseDups := by
  obtain ⟨fewer, rfl⟩ := Nat.exists_eq_succ_of_ne_zero (Nat.ne_of_gt hcount)
  have hseen : (copies fewer items).removeAll items = [] := by
    rw [List.removeAll, List.filter_eq_nil_iff]
    intro item hitem
    simpa using mem_of_mem_copies hitem
  rw [Nat.succ_eq_add_one, copies_succ, List.eraseDups_append, hseen, List.eraseDups_nil,
    List.append_nil]

theorem kindsSeen_copies (values : List Json) :
    kindsSeen (copies count values) = kindsSeen values := by
  rw [kindsSeen, kindsSeen, map_copies, eraseDups_copies hcount]

theorem keysSeen_copies (objects : List (Entries Json)) :
    keysSeen (copies count objects) = keysSeen objects := by
  rw [keysSeen, keysSeen, flatMap_copies, eraseDups_copies hcount]

omit hcount in
theorem votes_copies (count : Nat) (values : List Json) (kind : Kind) :
    votes (copies count values) kind = count * votes values kind := by
  rw [votes, votes, List.countP_eq_length_filter, List.countP_eq_length_filter, filter_copies,
    length_copies]

/-- Every kind has more votes by the same factor. -/
theorem leader_copies (values : List Json) (first : Kind) (others : List Kind) :
    leader (copies count values) first others = leader values first others := by
  induction others generalizing first with
  | nil => rfl
  | cons next rest ih =>
      have hvotes : votes (copies count values) first < votes (copies count values) next ↔
          votes values first < votes values next := by
        rw [votes_copies, votes_copies, Nat.mul_lt_mul_left hcount]
      rw [leader_cons, leader_cons, ih]
      simp only [hvotes]

/-- Every kind keeps its share. -/
theorem share_copies (values : List Json) (kind : Kind) :
    (votes (copies count values) kind : Rat) / ((copies count values).length : Rat) =
      (votes values kind : Rat) / (values.length : Rat) := by
  have hpositive : (count : Rat) ≠ 0 := by
    exact_mod_cast Nat.ne_of_gt hcount
  rw [votes_copies, length_copies, Rat.natCast_mul, Rat.natCast_mul]
  grind

theorem verdict_copies (threshold : Rat) (values : List Json) :
    verdict threshold (copies count values) = verdict threshold values := by
  cases values with
  | nil => rw [copies_nil]
  | cons value rest =>
      obtain ⟨others, hothers⟩ := exists_copies hcount (value :: rest)
      -- the verdict looks at the values through these three alone
      have hkinds := kindsSeen_copies hcount (value :: rest)
      have hleader := leader_copies hcount (value :: rest)
      have hshare := share_copies hcount (value :: rest)
      rw [hothers] at hkinds hleader hshare ⊢
      rw [List.cons_append] at hkinds hleader hshare ⊢
      simp only [verdict, hkinds, hleader, hshare]

theorem firstFilled_copies (arrays : List Json) :
    firstFilled (copies count arrays) = firstFilled arrays := by
  rw [firstFilled_eq, firstFilled_eq, find?_copies hcount, headD_copies hcount]

/-! ### Merging copies

By induction on the levels of the merge. The values under a key of the copies
are copies of the values under the key. -/

omit hcount in
theorem observations_copies (objects : List (Entries Json)) (key : String) :
    observations (copies count objects) key = copies count (observations objects key) := by
  rw [observations, observations, filterMap_copies, present, present, filter_copies]

/-- Copies of values are represented as the values are, if copies of objects are
merged as the objects are. -/
theorem represent_copies {threshold : Rat} {levels : Nat} {values : List Json}
    (hformed : ∀ value ∈ values, value.WellFormed)
    (hmerge : ∀ objects : List (Entries Json),
      (∀ entries ∈ objects, (Json.obj entries).WellFormed) →
      merge threshold levels (copies count objects) = merge threshold levels objects)
        (key : String) :
    represent threshold (merge threshold levels) key (copies count values) =
      represent threshold (merge threshold levels) key values := by
  have hverdict := verdict_copies hcount threshold values
  rcases verdict_cases threshold values with ⟨rfl, -⟩ | ⟨-, hsplit⟩ | ⟨-, kind, -, hwon⟩
  · rw [copies_nil]
  · rw [represent, represent, hverdict, hsplit]
  · cases kind with
    | object =>
        have hcopies : ∀ value ∈ copies count values, value.WellFormed :=
          fun value hvalue => hformed value (mem_of_mem_copies hvalue)
        rw [represent_eq_merge hcopies (hverdict.trans hwon), represent_eq_merge hformed hwon,
          filterMap_copies, hmerge _ (entries_wellFormed hformed)]
    | array =>
        rw [represent, represent, hverdict, hwon]
        simp only [ofKind, filter_copies, firstFilled_copies hcount]
    | _ =>
        rw [represent, represent, hverdict, hwon]
        simp only [ofKind, filter_copies, headD_copies hcount]

/-- Copies of objects are merged as the objects are. -/
theorem merge_copies {threshold : Rat} {levels : Nat} {objects : List (Entries Json)}
    (hformed : ∀ entries ∈ objects, (Json.obj entries).WellFormed) :
    merge threshold levels (copies count objects) = merge threshold levels objects := by
  -- the objects under a key are merged one level below, so the hypothesis is needed for all lists
  induction levels generalizing objects with
  | zero => rw [merge, merge, headD_copies hcount]
  | succ levels ih =>
      have hchosen : ∀ key, represent threshold (merge threshold levels) key
          (observations (copies count objects) key) =
            represent threshold (merge threshold levels) key (observations objects key) := by
        intro key
        rw [observations_copies]
        exact represent_copies hcount (observations_wellFormed hformed key) (fun _ => ih) key
      simp only [merge, keysSeen_copies hcount, hchosen]

section Sampled

variable {limits : Limits} {items : List Json}
  (hsample : ((count * items.length : Nat) : Int) ≤ limits.sampleSize)

include hsample

omit hcount in
/-- All copies are looked at. -/
theorem ofItems_copies : ofItems limits (copies count items) = copies count items := by
  apply ofItems_of_length_le
  rwa [length_copies]

/-- Where all copies are looked at, each of them is. -/
theorem ofItems_of_copies : ofItems limits items = items := by
  have hfewer : items.length ≤ count * items.length := Nat.le_mul_of_pos_left _ hcount
  exact ofItems_of_length_le (by omega)

/-- Copies that are all looked at are merged as one of them is. -/
theorem mergeItems_copies (hformed : ∀ item ∈ items, item.WellFormed) (levels : Nat) :
    mergeItems limits levels (copies count items) = mergeItems limits levels items := by
  have hobjects := entries_wellFormed hformed
  rw [mergeItems, mergeItems, ofItems_copies hsample, ofItems_of_copies hcount hsample,
    filterMap_copies]
  generalize items.filterMap Json.entries? = objects at hobjects
  have hmerge : merge limits.majorityThreshold levels (copies count objects) =
      merge limits.majorityThreshold levels objects := merge_copies hcount hobjects
  cases objects with
  | nil => rw [copies_nil]
  | cons entries rest =>
      obtain ⟨others, hothers⟩ := exists_copies hcount (entries :: rest)
      rw [hothers] at hmerge ⊢
      exact congrArg some hmerge

end Sampled

end Copies

end Sample

end JsonSelection
