import JsonSelection.Proofs.Sample.Congruence
import JsonSelection.Proofs.Schema.Building

/-!
# Costs and levels

Costs and merged samples are cut off below a number of levels, where everything
counts one unit. One level more makes no difference to values that hold nothing
but such units where they are cut off (`Json.Shallow`).

## What this module delivers

- `Sample.merge_succ`: such values are merged alike.
- `Cost.estimate_succ`, `Cost.ofItem_succ`: they cost the same.
- `Cost.pageSize_succ`: a list of them has pages of the same size.
- `Schema.page_eq_reported_iff`: the page size that is reported for a response
  array is found with one level less than the one that its schema uses, so the
  two are the same exactly if the array is mixed or that level makes no
  difference.

Texts need a level of their own to be shallow, because a text costs one unit
where it is cut off and its length in units where it is not. `Schema.buried` puts
a text at the very level at which the two walks differ.
-/

set_option autoImplicit false

namespace JsonSelection

/-- A value without texts, arrays and objects below a number of levels.
Constants and numbers may stand anywhere, since they cost one unit at any
level. -/
inductive Json.Shallow : Nat → Json → Prop where
  | null {levels : Nat} : Shallow levels .null
  | bool {levels : Nat} (value : Bool) : Shallow levels (.bool value)
  | int {levels : Nat} (value : Int) : Shallow levels (.int value)
  | float {levels : Nat} (value : Float) : Shallow levels (.float value)
  | str {levels : Nat} (value : String) : Shallow (levels + 1) (.str value)
  | arr {levels : Nat} {items : List Json} :
      (∀ item ∈ items, Shallow levels item) → Shallow (levels + 1) (.arr items)
  | obj {levels : Nat} {entries : Entries Json} :
      (∀ entry ∈ entries, Shallow levels entry.2) → Shallow (levels + 1) (.obj entries)

open Json (Shallow)

/-! ### Merged samples

Merging looks at a value one level down for every key it passes, and what it
makes is as shallow as what it is made from. The values that stand for a key are
`null`, one of the samples, or a merge of objects among them
(`Sample.represent_induct`). -/

namespace Sample

theorem mem_of_mem_entries {values : List Json} {entries : Entries Json}
    (h : entries ∈ values.filterMap Json.entries?) : .obj entries ∈ values := by
  obtain ⟨value, hvalue, heq⟩ := List.mem_filterMap.mp h
  cases value with
  | obj others =>
      obtain rfl := Option.some.inj heq
      exact hvalue
  | _ => cases heq

/-- What stands for the values under a key is `null`, one of them, or an object
merged from some of them. -/
theorem represent_induct {motive : Json → Prop} {threshold : Rat}
    {merge : List (Entries Json) → Merged} {key : String} {values : List Json}
    (hnull : motive .null) (hvalues : ∀ value ∈ values, motive value)
    (hmerged : ∀ objects, objects ≠ [] →
      (∀ entries ∈ objects, .obj entries ∈ values) →
      motive (.obj (merge objects).representative)) :
    motive (represent threshold merge key values).1 := by
  have hheadD : ∀ {others : List Json}, (∀ value ∈ others, value ∈ values) →
      motive (others.headD .null) := by
    intro others hothers
    cases others with
    | nil => exact hnull
    | cons value rest => exact hvalues value (hothers value List.mem_cons_self)
  have hkind : ∀ kind, ∀ value ∈ ofKind values kind, value ∈ values :=
    fun kind value hvalue => (List.mem_filter.mp hvalue).1
  rw [represent]
  split
  · exact hnull
  -- the kinds differ too much, and the first value is taken as it is
  · next first hverdict =>
      have hfirst : first = values.headD .null := by
        rcases verdict_congr (rfl : values.map Json.kind = values.map Json.kind) threshold with
          ⟨hother, -⟩ | ⟨hother, -⟩ | ⟨kind, hother, -⟩
        · cases hverdict.symm.trans hother
        · exact Verdict.split.inj (hverdict.symm.trans hother)
        · cases hverdict.symm.trans hother
      rw [hfirst]
      exact hheadD fun value hvalue => hvalue
  · split
    · exact hnull
    · next entries heq =>
        exact hvalues _ (mem_of_mem_entries (heq ▸ List.mem_singleton_self entries))
    · next hnil _ => exact hmerged _ hnil fun entries => mem_of_mem_entries
  · rw [firstFilled]
    split
    · next value hfind =>
        exact hvalues value (hkind .array value (List.mem_of_find?_eq_some hfind))
    · exact hheadD (hkind .array)
  · exact hheadD (hkind _)

/-- The objects among shallow values hold shallow values. -/
theorem shallow_observations {levels : Nat} {objects : List (Entries Json)}
    (h : ∀ entries ∈ objects, Shallow (levels + 1) (.obj entries)) (key : String) :
    ∀ value ∈ observations objects key, Shallow levels value := by
  intro value hvalue
  rw [observations, mem_present_iff, List.mem_filterMap] at hvalue
  obtain ⟨⟨entries, hentries, hfind⟩, -⟩ := hvalue
  cases h entries hentries with
  | obj hvalues => exact hvalues _ (Entries.mem_of_find? hfind)

/-- Merged objects are as shallow as the objects that are merged. -/
theorem shallow_merge (threshold : Rat) (count : Nat) {levels : Nat} {objects : List (Entries Json)}
    (hne : objects ≠ []) (h : ∀ entries ∈ objects, Shallow levels (.obj entries)) :
    Shallow levels (.obj (merge threshold count objects).representative) := by
  induction count generalizing levels objects with
  | zero =>
      cases objects with
      | nil => exact absurd rfl hne
      | cons entries rest => exact h entries List.mem_cons_self
  | succ count ih =>
      -- an object needs a level of its own
      obtain ⟨entries, hentries⟩ := List.exists_mem_of_ne_nil objects hne
      cases levels with
      | zero => cases h entries hentries
      | succ levels =>
          refine .obj ?_
          rw [representative_succ]
          intro entry hentry
          obtain ⟨key, -, rfl⟩ := List.mem_map.mp hentry
          have hvalues := shallow_observations h key
          exact represent_induct .null hvalues fun objects hne hobjects =>
            ih hne fun entries hmem => hvalues _ (hobjects entries hmem)

/-- Merges that agree on the objects among some values give one value to stand
for them. -/
theorem represent_eq_of_merge {threshold : Rat} {merge merge' : List (Entries Json) → Merged}
    {key : String} {values : List Json}
    (h : merge (values.filterMap Json.entries?) = merge' (values.filterMap Json.entries?)) :
    represent threshold merge key values = represent threshold merge' key values := by
  rw [represent, represent]
  split
  · rfl
  · rfl
  · split
    · rfl
    · rfl
    · rw [h]
  · rfl
  · rfl

/-- One level more makes no difference to objects that are cut off where all is
shallow. -/
theorem merge_succ (threshold : Rat) {levels : Nat} {objects : List (Entries Json)}
    (h : ∀ entries ∈ objects, Shallow levels (.obj entries)) :
    merge threshold (levels + 1) objects = merge threshold levels objects := by
  induction levels generalizing objects with
  | zero =>
      -- no object is shallow without a level
      have hnone : objects = [] := by
        cases objects with
        | nil => rfl
        | cons entries rest => cases h entries List.mem_cons_self
      subst hnone
      rfl
  | succ levels ih =>
      have hchosen : ∀ key, represent threshold (merge threshold (levels + 1)) key
          (observations objects key) =
            represent threshold (merge threshold levels) key (observations objects key) := by
        intro key
        apply represent_eq_of_merge
        apply ih
        intro entries hentries
        exact shallow_observations h key _ (mem_of_mem_entries hentries)
      rw [merge, merge]
      simp only [hchosen]

theorem shallow_entries {limits : Limits} {levels : Nat} {items : List Json}
    (h : ∀ item ∈ items, Shallow levels item) :
    ∀ entries ∈ (ofItems limits items).filterMap Json.entries?, Shallow levels (.obj entries) :=
  fun _ hentries => h _ (List.mem_of_mem_take (mem_of_mem_entries hentries))

theorem mergeItems_succ {limits : Limits} {levels : Nat} {items : List Json}
    (h : ∀ item ∈ items, Shallow levels item) :
    mergeItems limits (levels + 1) items = mergeItems limits levels items := by
  rw [mergeItems, mergeItems]
  split
  · rfl
  · rw [merge_succ limits.majorityThreshold (shallow_entries h)]

theorem shallow_mergeItems {limits : Limits} {levels count : Nat} {items : List Json}
    {merged : Merged} (h : ∀ item ∈ items, Shallow levels item)
    (hmerged : mergeItems limits count items = some merged) :
    Shallow levels (.obj merged.representative) := by
  rw [mergeItems] at hmerged
  split at hmerged
  · cases hmerged
  · next hne =>
      obtain rfl := Option.some.inj hmerged
      exact shallow_merge limits.majorityThreshold count hne (shallow_entries h)

end Sample

/-! ### Costs -/

namespace Cost

variable {limits : Limits} {levels : Nat} {items : List Json}

theorem total_congr {cost cost' : Json → Except CostError Amount} {values : List Json}
    (h : ∀ value ∈ values, cost value = cost' value) :
    total cost values = total cost' values := by
  rw [total, total]
  generalize Amount.whole 0 = sum
  induction values generalizing sum with
  | nil => rfl
  | cons value rest ih =>
      have hrest := ih fun other hother => h other (List.mem_cons_of_mem _ hother)
      rw [List.foldlM_cons, List.foldlM_cons, h value List.mem_cons_self]
      cases cost' value with
      | error error => rfl
      | ok amount => exact hrest (sum.add amount)

theorem mean_congr {cost cost' : Json → Except CostError Amount} {values : List Json}
    (h : ∀ value ∈ values, cost value = cost' value) :
    mean cost values = mean cost' values := by
  rw [mean, mean, total_congr h]

/-- A value that is shallow where its cost is cut off costs the same with one
level more. -/
theorem estimate_succ (limits : Limits) {levels : Nat} {value : Json} (h : Shallow levels value) :
    estimate limits (levels + 1) value = estimate limits levels value := by
  induction h with
  | @null levels => cases levels <;> rfl
  | @bool levels _ => cases levels <;> rfl
  | @int levels _ => cases levels <;> rfl
  | @float levels _ => cases levels <;> rfl
  | str text => rfl
  -- of a long array a sample is costed, and only its items need the hypothesis
  | @arr levels items _ ih =>
      rw [estimate, estimate]
      cases hsample : Slice.before items limits.costSampleSize with
      | nil => rfl
      | cons first rest =>
          have hitems : ∀ item ∈ first :: rest,
              estimate limits (levels + 1) item = estimate limits levels item := by
            intro item hitem
            rw [← hsample] at hitem
            exact ih item (List.mem_of_mem_take hitem)
          dsimp only
          rw [mean_congr hitems]
  | @obj levels entries _ ih =>
      have hvalues : ∀ value ∈ entries.map Prod.snd,
          estimate limits (levels + 1) value = estimate limits levels value := by
        intro value hvalue
        obtain ⟨entry, hentry, rfl⟩ := List.mem_map.mp hvalue
        exact ih entry hentry
      rw [estimate, estimate, total_congr hvalues]

/-- One element of a list of shallow values costs the same with one level more. -/
theorem ofItem_succ (limits : Limits) {levels : Nat} {items : List Json}
    (h : ∀ item ∈ items, Shallow levels item) :
    ofItem limits (levels + 1) items = ofItem limits levels items := by
  rw [ofItem, ofItem, Sample.mergeItems_succ h]
  split
  · next merged hmerged =>
      rw [estimate_succ limits (Sample.shallow_mergeItems h hmerged)]
  · cases hsample : Slice.before items limits.costSampleSize with
    | nil => rfl
    | cons first rest =>
        have hitems : ∀ item ∈ first :: rest,
            estimate limits (levels + 1) item = estimate limits levels item := by
          intro item hitem
          rw [← hsample] at hitem
          exact estimate_succ limits (h item (List.mem_of_mem_take hitem))
        dsimp only
        rw [mean_congr hitems]

theorem pageSize_succ (limits : Limits) {levels : Nat} {items : List Json}
    (h : ∀ item ∈ items, Shallow levels item) :
    pageSize limits (levels + 1) items = pageSize limits levels items := by
  cases items with
  | nil => rfl
  | cons item rest => simp only [pageSize, ofItem_succ limits h]

end Cost

/-! ### The elements of a response array

The list of a response array stands one level above its elements. A mixed array
is not walked at all, and its page size is found from the first level. -/

namespace Schema

variable {limits : Limits} {items : List Json}

/-- The levels below the elements of a response array from which a schema finds
their page size. The list stands one level above them, but a mixed one is taken
to stand on the first level. -/
def pageLevels (limits : Limits) (items : List Json) : Nat :=
  if Sample.isMixed limits items then limits.levelsFrom 1 else limits.levelsFrom 0

theorem listType_of_ne_nil (hitems : items ≠ []) (hmixed : Sample.isMixed limits items = false)
    (levels : Nat) (child : Outline.Child) (typeName : String) :
    ∃ item, (Outline.listType limits levels child items typeName).1 =
      .list item (Cost.pageSize limits levels items).toOption := by
  obtain ⟨first, rest, rfl⟩ := List.exists_cons_of_ne_nil hitems
  simp only [Outline.listType, hmixed]
  exact ⟨_, rfl⟩

/-- The type of the elements of a response array that is not empty is a list
with a page size. -/
theorem shared_array (hunit : limits.charsPerUnit ≠ 0) (hdepth : 0 < limits.maxDepth)
    (hitems : items ≠ []) (baseName : String) :
    ∃ item page, (Outline.shared limits (.arr items) baseName).1 = .list item (some page) ∧
      Cost.pageSize limits (pageLevels limits items) items = .ok page := by
  obtain ⟨page, hpage⟩ := Cost.pageSize_succeeds hunit (pageLevels limits items) items
  have hnonempty : items.isEmpty = false := by simpa using hitems
  cases hmixed : Sample.isMixed limits items with
  | true =>
      refine ⟨.json, page, ?_, hpage⟩
      rw [pageLevels, if_pos hmixed] at hpage
      simp only [Outline.shared, Outline.ofResponse, hnonempty, hmixed, hpage]
      rfl
  | false =>
      -- the root list stands one level above its elements
      have hlevels : limits.levelsFrom (-1) = limits.levelsFrom 0 + 1 := by
        simp only [Limits.levelsFrom]
        omega
      obtain ⟨item, hitem⟩ := listType_of_ne_nil hitems hmixed (limits.levelsFrom 0)
        (Outline.ofJson limits (limits.levelsFrom 0)) baseName
      refine ⟨item, page, ?_, hpage⟩
      rw [pageLevels, if_neg (by simp [hmixed])] at hpage
      rw [hpage] at hitem
      simp only [Outline.shared, Outline.ofResponse, hnonempty, hmixed, hlevels, Outline.ofJson]
      exact hitem

/-- The page size that a schema uses for the elements of a response array is the
one that is reported exactly if the array is mixed, or one level more makes no
difference to the size. It makes none to elements without texts, arrays and
objects below the last level of the report. -/
theorem page_eq_reported_iff (hunit : limits.charsPerUnit ≠ 0) (hdepth : 0 < limits.maxDepth)
    (hitems : items ≠ []) (method path : String) :
    ∃ schema item used reported, build limits (.arr items) method path none = .ok schema ∧
      schema.query.field? "items" = some (itemsField (.list item (some used))) ∧
      Cost.pageSize limits (pageLevels limits items) items = .ok used ∧
      Cost.pageSize limits (limits.levelsFrom 1) items = .ok reported ∧
      (used = reported ↔ Sample.isMixed limits items = true ∨
        Cost.pageSize limits (limits.levelsFrom 0) items = .ok reported) ∧
      ((∀ value ∈ items, Shallow (limits.levelsFrom 1) value) → used = reported) := by
  obtain ⟨item, used, hlist, hused⟩ :=
    shared_array hunit hdepth hitems (TypeName.derive (Text.upper method) path)
  obtain ⟨reported, hreported⟩ := Cost.pageSize_succeeds hunit (limits.levelsFrom 1) items
  have hiff : used = reported ↔ Sample.isMixed limits items = true ∨
      Cost.pageSize limits (limits.levelsFrom 0) items = .ok reported := by
    cases hmixed : Sample.isMixed limits items with
    | true =>
        rw [pageLevels, if_pos hmixed, hreported] at hused
        exact iff_of_true (Except.ok.inj hused).symm (Or.inl rfl)
    | false =>
        rw [pageLevels, if_neg (by simp [hmixed])] at hused
        rw [hused, Except.ok.injEq]
        simp
  refine ⟨_, item, used, reported, build_of_queryRoot (queryRoot_eq_shared hunit _ _), ?_, hused,
    hreported, hiff, ?_⟩
  · rw [ofRoot, rootType, hlist]
    rfl
  · intro hshallow
    -- the schema looks one level further than the report
    have hlevels : limits.levelsFrom 0 = limits.levelsFrom 1 + 1 := by
      simp only [Limits.levelsFrom]
      omega
    rw [hiff, hlevels, Cost.pageSize_succ limits hshallow]
    exact Or.inr hreported

/-- A text below some objects. -/
def buried : Nat → Json
  | 0 => .str "xxxxxxxxxx"
  | levels + 1 => .obj [("a", buried levels)]

/-- A text at the last level that the schema looks at makes its pages shorter
than the reported ones. -/
theorem page_eq_reported_iff_buried : ∃ schema item,
    build {} (.arr [buried 7]) "GET" "/" none = .ok schema ∧
      schema.query.field? "items" = some (itemsField (.list item (some 40))) ∧
      Cost.pageSize {} (Limits.levelsFrom {} 1) [buried 7] = .ok 50 := by
  have hunit : ({} : Limits).charsPerUnit ≠ 0 := by decide
  have hpage : Cost.pageSize {} (pageLevels {} [buried 7]) [buried 7] = .ok 40 := by decide +kernel
  have hreported : Cost.pageSize {} (Limits.levelsFrom {} 1) [buried 7] = .ok 50 := by
    decide +kernel
  obtain ⟨schema, item, used, _, hbuild, hfield, hused, -⟩ :=
    page_eq_reported_iff hunit (by decide) (List.cons_ne_nil (buried 7) []) "GET" "/"
  rw [hpage, Except.ok.injEq] at hused
  rw [← hused] at hfield
  exact ⟨schema, item, hbuild, hfield, hreported⟩

end Schema

end JsonSelection
