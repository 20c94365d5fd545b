import JsonSelection.Proofs.Sample.Coincidence
import JsonSelection.Schema.Build
import JsonSelection.Shape.Fingerprint

/-!
# Elements past the samples are not seen

When costs are taken from one element at least, and from no more than are looked
at, two values that coincide up to the samples have the same costs
(`Cost.estimate_eq`), the same types (`Inference.inferType_eq`) and the same
shape (`Shape.ofJson_eq`).

So the elements of an array that stand past its sample, of which one is not
`null`, have no effect on the schema of a response or on its shape
(`Schema.past_sample_unseen`). The schemas are equal, page sizes included,
because a page is sized by elements that are looked at.
-/

set_option autoImplicit false

namespace JsonSelection

open Sample (Coincide CoincideAll CoincideEntries SameItems)

variable {limits : Limits}

/-! ### Costs

The mean of the costs of some elements is taken, so it must be the same
elements. -/

namespace Cost

variable {cost : Json → Except CostError Amount}

theorem total_eq (hvalue : ∀ {value value'}, Coincide limits value value' →
    cost value = cost value') {values values' : List Json} (h : CoincideAll limits values values') :
    total cost values = total cost values' := by
  have hfold : ∀ sum : Amount,
      values.foldlM (fun sum value => (cost value).map sum.add) sum =
        values'.foldlM (fun sum value => (cost value).map sum.add) sum := by
    induction h with
    | nil => exact fun sum => rfl
    | cons hfirst _ ih =>
        intro sum
        rw [List.foldlM_cons, List.foldlM_cons, hvalue hfirst]
        exact bind_congr ih
  exact hfold (.whole 0)

theorem mean_eq (hvalue : ∀ {value value'}, Coincide limits value value' →
    cost value = cost value') {values values' : List Json} (h : CoincideAll limits values values') :
    mean cost values = mean cost values' := by
  rw [mean, mean, total_eq hvalue h, h.length_eq]

section Depth

variable (hcost : 1 ≤ limits.costSampleSize)
  (hsample : limits.costSampleSize ≤ limits.sampleSize)

include hcost hsample

/-- A cost looks at no element past the samples. -/
theorem estimate_eq (levels : Nat) {value value' : Json} (h : Coincide limits value value') :
    estimate limits levels value = estimate limits levels value' := by
  induction levels generalizing value value' with
  | zero => rfl
  | succ levels ih =>
      cases value with
      | arr items =>
          obtain ⟨items', rfl, hitems⟩ := h.items hcost hsample
          have hmean := mean_eq ih hitems.costs
          have hcosts := hitems.costs
          -- one sample is empty exactly when the other one is
          simp only [estimate]
          generalize Slice.before items limits.costSampleSize = sample at hmean hcosts
          generalize Slice.before items' limits.costSampleSize = sample' at hmean hcosts
          cases hcosts with
          | nil => rfl
          | cons _ _ => exact congrArg (Except.map Amount.atLeastOne) hmean
      | obj entries =>
          obtain ⟨entries', rfl, hentries⟩ := h.entries
          have htotal := total_eq ih (Sample.coincideAll_values hentries)
          simp only [estimate, htotal]
      | _ =>
          cases h with
          | same => rfl

theorem ofItem_eq (levels : Nat) {items items' : List Json} (h : SameItems limits items items') :
    ofItem limits levels items = ofItem limits levels items' := by
  have hmerged := Sample.mergeItems_coincide hcost hsample levels h
  have hmean := mean_eq (estimate_eq hcost hsample levels) h.costs
  have hcosts := h.costs
  rw [ofItem, ofItem]
  generalize Sample.mergeItems limits levels items = merged at hmerged
  generalize Sample.mergeItems limits levels items' = merged' at hmerged
  -- the mean of the sample counts where there are no objects to merge
  cases hmerged with
  | some hsame =>
      have hobject := estimate_eq hcost hsample levels (Sample.coincide_obj hsame.representative)
      exact congrArg (Except.map Amount.atLeastOne) hobject
  | none =>
      dsimp only
      generalize Slice.before items limits.costSampleSize = sample at hmean hcosts
      generalize Slice.before items' limits.costSampleSize = sample' at hmean hcosts
      cases hcosts with
      | nil => rfl
      | cons _ _ => exact congrArg (Except.map Amount.atLeastOne) hmean

theorem pageSize_eq (levels : Nat) {items items' : List Json} (h : SameItems limits items items') :
    pageSize limits levels items = pageSize limits levels items' := by
  have hitem := ofItem_eq hcost hsample levels h
  rcases h.nil_or_cons with ⟨rfl, rfl⟩ | ⟨item, rest, item', rest', rfl, rfl⟩
  · rfl
  · simp only [pageSize, hitem]

end Depth

end Cost

/-! ### Shapes

Objects are sorted by their keys before their shapes are taken. Related lists
stay so, because the keys are the same. -/

namespace Shape

/-- Lists whose elements are related stay so when they are sorted by orders that
agree on related elements. -/
theorem forall₂_mergeSort {α β : Type} {related : α → β → Prop} {le : α → α → Bool}
    {le' : β → β → Bool}
    (hle : ∀ {a a' b b'}, related a a' → related b b' → le a b = le' a' b') {items : List α}
    {items' : List β} (h : List.Forall₂ related items items') :
    List.Forall₂ related (items.mergeSort le) (items'.mergeSort le') := by
  obtain ⟨hlength, hpairs⟩ := List.forall₂_iff_zip.mp h
  -- both are sorted as one list of pairs
  let order (pair other : α × β) : Bool := le pair.1 other.1
  have hleft : ((items.zip items').mergeSort order).map Prod.fst = items.mergeSort le := by
    rw [List.map_mergeSort (s := le) (f := Prod.fst) fun _ _ _ _ => rfl,
      List.map_fst_zip (Nat.le_of_eq hlength)]
  have hright : ((items.zip items').mergeSort order).map Prod.snd = items'.mergeSort le' := by
    rw [List.map_mergeSort (s := le') (f := Prod.snd) fun a ha b hb => hle (hpairs ha) (hpairs hb),
      List.map_snd_zip (Nat.le_of_eq hlength.symm)]
  rw [← hleft, ← hright, List.forall₂_map_left_iff, List.forall₂_map_right_iff,
    List.forall₂_same]
  exact fun pair hpair => hpairs (List.mem_mergeSort.mp hpair)

/-- Sorting by keys keeps entries of the same keys side by side. -/
theorem sortedEntries_coincide {entries entries' : Entries Json}
    (h : CoincideEntries limits entries entries') :
    CoincideEntries limits (sortedEntries entries) (sortedEntries entries') :=
  forall₂_mergeSort (fun hentry hother => by rw [hentry.1, hother.1]) h

section Depth

variable (hcost : 1 ≤ limits.costSampleSize)
  (hsample : limits.costSampleSize ≤ limits.sampleSize)

include hcost hsample

theorem representative_coincide (levels : Nat) {items items' : List Json}
    (h : SameItems limits items items') :
    Coincide limits (representative limits levels items) (representative limits levels items') := by
  have hmerged := Sample.mergeItems_coincide hcost hsample levels h
  rw [representative, representative]
  generalize Sample.mergeItems limits levels items = merged at hmerged
  generalize Sample.mergeItems limits levels items' = merged' at hmerged
  cases hmerged with
  | none => exact h.first
  | some hsame => exact Sample.coincide_obj hsame.representative

/-- A shape shows no element past the samples. -/
theorem ofJson_eq (levels : Nat) {value value' : Json} (h : Coincide limits value value') :
    ofJson limits levels value = ofJson limits levels value' := by
  induction levels generalizing value value' with
  | zero => cases h <;> rfl
  | succ levels ih =>
      cases value with
      | arr items =>
          obtain ⟨items', rfl, hitems⟩ := h.items hcost hsample
          have hmixed := Sample.isMixed_eq hitems
          have hshape := ih (representative_coincide hcost hsample levels hitems)
          rcases hitems.nil_or_cons with ⟨rfl, rfl⟩ | ⟨item, rest, item', rest', rfl, rfl⟩
          · rfl
          · simp only [ofJson, hmixed, hshape]
      | obj entries =>
          obtain ⟨entries', rfl, hentries⟩ := h.entries
          have hsorted := sortedEntries_coincide hentries
          have hfields : (sortedEntries entries).map (fun entry =>
            (entry.1, ofJson limits levels entry.2)) =
              (sortedEntries entries').map fun entry =>
                (entry.1, ofJson limits levels entry.2) := by
            -- the entries coincide in order, so the induction is on how they do
            generalize sortedEntries entries = sorted at hsorted
            generalize sortedEntries entries' = sorted' at hsorted
            induction hsorted with
            | nil => rfl
            | cons hentry _ hrest =>
                rw [List.map_cons, List.map_cons, hentry.1, ih hentry.2, hrest]
          simp only [ofJson, hfields]
      | _ =>
          cases h with
          | same => rfl

end Depth

end Shape

/-! ### Types

A registry passes through the whole value, so what is shown of a value is that
its type and the registry after it are the same, for every registry before it. -/

namespace Inference

/-- The fields of objects that coincide, when the types of their values are the
same. -/
theorem fields_eq {child : Child}
    (hchild : ∀ {value value'}, Coincide limits value value' → child value = child value')
    (typeName : String) (conflicts : List String) {entries entries' : Entries Json}
    (h : CoincideEntries limits entries entries') (used : List String) (types : Registry) :
    fields child typeName conflicts used entries types =
      fields child typeName conflicts used entries' types := by
  induction h generalizing used types with
  | nil => rfl
  | @cons entry entry' rest rest' hentry _ ih =>
      obtain ⟨key, value⟩ := entry
      obtain ⟨key', value'⟩ := entry'
      obtain ⟨hkey, hvalue⟩ := hentry
      obtain rfl : key = key' := hkey
      simp only [fields, hchild hvalue, ih]

theorem objectType_eq {child : Child}
    (hchild : ∀ {value value'}, Coincide limits value value' → child value = child value')
    (typeName : String) (conflicts : List String) {entries entries' : Entries Json}
    (h : CoincideEntries limits entries entries') (types : Registry) :
    objectType child entries typeName conflicts types =
      objectType child entries' typeName conflicts types := by
  have hfields := fields_eq hchild typeName conflicts h
  cases h with
  | nil => rfl
  | cons _ _ => simp only [objectType, hfields]

section Depth

variable (hcost : 1 ≤ limits.costSampleSize)
  (hsample : limits.costSampleSize ≤ limits.sampleSize)

include hcost hsample

theorem representative_coincide (levels : Nat) {items items' : List Json}
    (h : SameItems limits items items') :
    Coincide limits (representative limits levels items).1 (representative limits
      levels items').1 ∧
      (representative limits levels items).2 = (representative limits levels items').2 := by
  have hmerged := Sample.mergeItems_coincide hcost hsample levels h
  rw [representative, representative]
  generalize Sample.mergeItems limits levels items = merged at hmerged
  generalize Sample.mergeItems limits levels items' = merged' at hmerged
  cases hmerged with
  | none => exact ⟨h.present, rfl⟩
  | some hsame => exact ⟨Sample.coincide_obj hsame.representative, hsame.conflicts⟩

theorem listType_eq {child : Child}
    (hchild : ∀ {value value'}, Coincide limits value value' → child value = child value')
    (levels : Nat) {items items' : List Json} (h : SameItems limits items items')
    (typeName : String) (types : Registry) :
    listType limits levels child items typeName types =
      listType limits levels child items' typeName types := by
  obtain ⟨hitem, hconflicts⟩ := representative_coincide hcost hsample levels h
  have hmixed := Sample.isMixed_eq h
  have hpage := Cost.pageSize_eq hcost hsample levels h
  rcases h.nil_or_cons with ⟨rfl, rfl⟩ | ⟨item, rest, item', rest', rfl, rfl⟩
  · rfl
  · simp only [listType, hmixed, hchild hitem, hconflicts, hpage]

/-- A type depends on no element past the samples. -/
theorem inferType_eq (levels : Nat) {value value' : Json} (h : Coincide limits value value') :
    inferType limits levels value = inferType limits levels value' := by
  induction levels generalizing value value' with
  | zero => cases h <;> rfl
  | succ levels ih =>
      -- stated for the function of a value, so that it can replace `child` as a whole
      funext typeName conflicts types
      cases value with
      | arr items =>
          obtain ⟨items', rfl, hitems⟩ := h.items hcost hsample
          exact listType_eq hcost hsample ih levels hitems typeName types
      | obj entries =>
          obtain ⟨entries', rfl, hentries⟩ := h.entries
          exact objectType_eq ih typeName conflicts hentries types
      | _ =>
          cases h with
          | same => rfl

end Depth

end Inference

namespace Schema

section Depth

variable (hcost : 1 ≤ limits.costSampleSize)
  (hsample : limits.costSampleSize ≤ limits.sampleSize)

include hcost hsample

theorem itemsType_eq {items items' : List Json} (hitems : SameItems limits items items')
    (harray : Coincide limits (.arr items) (.arr items')) (baseName : String) :
    itemsType limits items baseName = itemsType limits items' baseName := by
  rw [itemsType, itemsType, hitems.isEmpty, Sample.isMixed_eq hitems,
    Cost.pageSize_eq hcost hsample _ hitems, Inference.inferType_eq hcost hsample _ harray]

theorem queryRoot_eq {data data' : Json} (h : Coincide limits data data') (baseName : String) :
    queryRoot limits data baseName = queryRoot limits data' baseName := by
  have htype := Inference.inferType_eq hcost hsample (limits.levelsFrom 0) h
  cases data with
  | arr items =>
      obtain ⟨items', rfl, hitems⟩ := h.items hcost hsample
      simp only [queryRoot, itemsType_eq hcost hsample hitems h]
  | obj entries =>
      obtain ⟨entries', rfl, -⟩ := h.entries
      simp only [queryRoot, htype]
  | _ =>
      cases h with
      | same => rfl

end Depth

/-- Values that differ only in elements past the samples of arrays have the same
schema and the same shape. -/
theorem past_sample_unseen (hcost : 1 ≤ limits.costSampleSize)
    (hsample : limits.costSampleSize ≤ limits.sampleSize) {data data' : Json}
    (h : Coincide limits data data') :
    (∀ (method path : String) (body : Option Json),
      build limits data method path body = build limits data' method path body) ∧
      ∀ depth : Int, Shape.fingerprint limits depth data = Shape.fingerprint limits
        depth data' := by
  refine ⟨fun method path body => ?_, fun depth => ?_⟩
  · rw [build, build, queryRoot_eq hcost hsample h]
  · rw [Shape.fingerprint, Shape.fingerprint, Shape.ofJson_eq hcost hsample _ h]

/-- Three elements of which two are looked at: the rows past them are changed
and removed, and so are the elements past the sample of an array inside the
first row. -/
theorem past_sample_unseen_rows :
    let limits : Limits := { sampleSize := 2, costSampleSize := 1 }
    let data : Json := .arr [.obj [("tags", .arr [.null, .str "a", .str "b"])], .null, .int 5]
    let data' : Json := .arr [.obj [("tags", .arr [.null, .str "a"])], .null, .str "c", .bool true]
    1 ≤ limits.costSampleSize ∧ limits.costSampleSize ≤ limits.sampleSize ∧
      Coincide limits data data' ∧
      build limits data "GET" "/rows" none = build limits data' "GET" "/rows" none ∧
      Shape.fingerprint limits 0 data = Shape.fingerprint limits 0 data' := by
  intro limits data data'
  have htags : Coincide limits (.arr [.null, .str "a", .str "b"]) (.arr [.null, .str "a"]) :=
    .sampled (Sample.coincideAll_refl [.null, .str "a"])
      ⟨.str "a", List.mem_cons_of_mem _ List.mem_cons_self, rfl⟩
  have hrow : CoincideEntries limits [("tags", .arr [.null, .str "a", .str "b"])]
      [("tags", .arr [.null, .str "a"])] :=
    .cons ⟨rfl, htags⟩ .nil
  have hdata : Coincide limits data data' :=
    .sampled (.cons (Sample.coincide_obj hrow) (.cons (.same .null) .nil))
      ⟨_, List.mem_cons_self, rfl⟩
  have hsame := past_sample_unseen (by decide) (by decide) hdata
  exact ⟨by decide, by decide, hdata, hsame.1 "GET" "/rows" none, hsame.2 0⟩

end Schema

end JsonSelection
