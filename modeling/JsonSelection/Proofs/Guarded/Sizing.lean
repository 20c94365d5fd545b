import JsonSelection.Proofs.Cost.Tree
import JsonSelection.Proofs.Guarded.Merging

/-!
# Costs with their partial steps guarded

The costs, page sizes and cost trees of `JsonSelection.Cost` with guarded
quotients and lookups. A quotient is taken by the length of a list that is not
empty, or by a cost, which is at least one; so the one fault that can be reached
is the one that `CostError` tells of, a text measured in units of no characters.

## What this module delivers

- `Guarded.estimate_eq`: a guarded cost is the plain one, fault for error.
- `Guarded.pageSize_eq`: so is a page size, whose quotient is by a cost.
- `Guarded.ofSamples_eq`: so is a cost tree, whose totals are read back from the
  nodes as they are written.

The limits are any: a depth cap may be zero, and samples may be empty or counted
from the end.
-/

set_option autoImplicit false

namespace JsonSelection

/-- The fault that an error of the costs stands for. -/
def Fault.ofCost : CostError → Fault
  | .emptyUnit => .divisionByZero

namespace Guarded

/-! ### Costs -/

/-- The rounded quotient of two amounts. -/
def quotient (a b : Amount) : Except Fault Amount :=
  if b.toRat = 0 then .error .divisionByZero else .ok (a.divide b)

theorem quotient_of_ne {a b : Amount} (h : b.toRat ≠ 0) : quotient a b = .ok (a.divide b) :=
  if_neg h

theorem quotient_length {α : Type} (a : Amount) {values : List α} (h : values ≠ []) :
    quotient a (.whole values.length) = .ok (a.divide (.whole values.length)) := by
  apply quotient_of_ne
  simpa [Amount.toRat] using h

/-- The sum of the costs of some values. -/
def total (cost : Json → Except Fault Amount) (values : List Json) : Except Fault Amount :=
  values.foldlM (fun sum value => (cost value).map sum.add) (.whole 0)

/-- The mean cost of some values. -/
def mean (cost : Json → Except Fault Amount) (values : List Json) : Except Fault Amount := do
  let sum ← total cost values
  quotient sum (.whole values.length)

/-- The cost of a value. -/
def estimate (limits : Limits) : Nat → Json → Except Fault Amount
  | 0, _ => .ok (.whole 1)
  | levels + 1, value =>
      match value with
      | .arr items =>
          let sample := Slice.before items limits.costSampleSize
          if sample.isEmpty then .ok (.whole 1)
          else (mean (estimate limits levels) sample).map Amount.atLeastOne
      | .obj entries =>
          (total (estimate limits levels) (entries.map Prod.snd)).map Amount.atLeastOne
      | .str text =>
          (quotient (.whole (text.length + limits.charOverhead)) (.whole limits.charsPerUnit)).map
            fun units => .whole units.ceil
      | _ => .ok (.whole 1)

/-- The cost of one element of a list. -/
def ofItem (limits : Limits) (levels : Nat) (items : List Json) : Except Fault Amount := do
  match ← mergeItems limits levels items with
  | some merged => (estimate limits levels (.obj merged.representative)).map Amount.atLeastOne
  | none =>
      let sample := Slice.before items limits.costSampleSize
      if sample.isEmpty then return .whole 1
      else (mean (estimate limits levels) sample).map Amount.atLeastOne

/-- The page size of a list. -/
def pageSize (limits : Limits) (levels : Nat) (items : List Json) : Except Fault Int :=
  if items.isEmpty then .ok limits.maxListLimit
  else do
    let cost ← ofItem limits levels items
    let count ← quotient (.whole limits.itemBudget) cost
    return Cost.clampPage limits count.floor

theorem total_eq {cost : Json → Except CostError Amount} {guarded : Json → Except Fault Amount}
    (h : ∀ value, guarded value = (cost value).mapError Fault.ofCost) (values : List Json) :
    total guarded values = (Cost.total cost values).mapError Fault.ofCost := by
  have hfold : ∀ sum : Amount,
      values.foldlM (fun sum value => (guarded value).map sum.add) sum =
        (values.foldlM (fun sum value => (cost value).map sum.add) sum).mapError Fault.ofCost := by
    induction values with
    | nil => exact fun sum => rfl
    | cons value rest ih =>
        intro sum
        rw [List.foldlM_cons, List.foldlM_cons, Outcome.mapError_bind, Outcome.mapError_map, h]
        exact bind_congr ih
  exact hfold (.whole 0)

/-- The mean of some costs is taken by a length that is not zero. -/
theorem mean_eq {cost : Json → Except CostError Amount} {guarded : Json → Except Fault Amount}
    (h : ∀ value, guarded value = (cost value).mapError Fault.ofCost) {values : List Json}
    (hne : values ≠ []) : mean guarded values =
      (Cost.mean cost values).mapError Fault.ofCost := by
  rw [mean, Cost.mean, total_eq h, Outcome.mapError_map]
  cases (Cost.total cost values).mapError Fault.ofCost with
  | error fault => rfl
  | ok sum => exact quotient_length sum hne

/-- A cost reaches no fault but that of a unit of no characters. -/
theorem estimate_eq (limits : Limits) (levels : Nat) (value : Json) :
    estimate limits levels value = (Cost.estimate limits levels value).mapError Fault.ofCost := by
  induction levels generalizing value with
  | zero => rfl
  | succ levels ih =>
      cases value with
      | arr items =>
          simp only [estimate, Cost.estimate]
          -- a slice of elements may be empty, and the mean is taken only if it is not
          cases hsample : Slice.before items limits.costSampleSize with
          | nil => rfl
          | cons item rest =>
              have hmean := mean_eq ih (List.cons_ne_nil item rest)
              exact Outcome.map_of_mapError hmean Amount.atLeastOne
      | obj entries =>
          simp only [estimate, Cost.estimate]
          exact Outcome.map_of_mapError (total_eq ih _) Amount.atLeastOne
      | str text =>
          simp only [estimate, Cost.estimate, Cost.ofText]
          by_cases hunit : limits.charsPerUnit = 0
          · rw [if_pos hunit, quotient, if_pos (by rw [hunit]; rfl)]
            rfl
          · rw [if_neg hunit, quotient_of_ne (by simpa [Amount.toRat] using hunit)]
            rfl
      | _ => rfl

theorem ofItem_eq (limits : Limits) (levels : Nat) (items : List Json) :
    ofItem limits levels items = (Cost.ofItem limits levels items).mapError Fault.ofCost := by
  rw [ofItem, Cost.ofItem, mergeItems_eq, Outcome.ok_bind]
  cases Sample.mergeItems limits levels items with
  | some merged =>
      exact Outcome.map_of_mapError (estimate_eq limits levels _) Amount.atLeastOne
  | none =>
      dsimp only
      cases hsample : Slice.before items limits.costSampleSize with
      | nil => rfl
      | cons item rest =>
          have hmean := mean_eq (estimate_eq limits levels) (List.cons_ne_nil item rest)
          exact Outcome.map_of_mapError hmean Amount.atLeastOne

/-- The budget of a page is divided by a cost that is not zero. -/
theorem pageSize_eq (limits : Limits) (levels : Nat) (items : List Json) :
    pageSize limits levels items = (Cost.pageSize limits levels items).mapError Fault.ofCost := by
  cases items with
  | nil => rfl
  | cons item rest =>
      simp only [pageSize, Cost.pageSize, ofItem_eq]
      cases hcost : Cost.ofItem limits levels (item :: rest) with
      | error error => rfl
      | ok cost =>
          have hpositive := Cost.one_le_ofItem hcost
          have hne : cost.toRat ≠ 0 := by
            intro hzero
            rw [hzero] at hpositive
            exact absurd hpositive (by decide)
          simp only [Outcome.mapError_ok, Outcome.ok_bind, quotient_of_ne hne]
          rfl

/-! ### Cost trees

The totals of children are looked up in their JSON objects. They are there,
since the keys of the children of an array node are not reserved. -/

/-- The values that some objects hold under a key, of the objects that have it. -/
def samplesAt (objects : List (Entries Json)) (key : String) : Except Fault (List Json) :=
  (objects.filter fun entries => entries.has key).mapM fun entries => member entries key

/-- The total of a node, read from its JSON object, where it stands under a key
of its own. -/
def readTotal (node : CostNode) : Except Fault Int :=
  match node.toJson.member? "_total" with
  | some (.int total) => .ok total
  | _ => .error .missingKey

/-- The children of an object node, one for each key, and the sum of their totals. -/
def buildAll (build : List Json → Except Fault CostNode) (objects : List (Entries Json)) :
    List String → Except Fault (List (String × CostNode) × Int)
  | [] => .ok ([], 0)
  | key :: rest => do
      let samples ← samplesAt objects key
      let node ← build samples
      let total ← readTotal node
      let (nodes, sum) ← buildAll build objects rest
      return ((key, node) :: nodes, total + sum)

/-- The array node over some arrays. -/
def ofArrays (limits : Limits) (levels : Nat) (build : List Json → Except Fault CostNode)
    (arrays : List (List Json)) : Except Fault CostNode := do
  let items := CostNode.pooledItems limits arrays
  let length ← (quotient (.whole arrays.flatten.length) (.whole arrays.length)).map Amount.toRat
  let (perItem, children) ←
    if items.isEmpty then pure (1, [])
    else do
      let cost ← ofItem limits levels items
      let node ← build items
      pure (cost.ceil, node.children.filter fun child => !CostNode.isReserved child.1)
  return .array children perItem (Rounding.tenths length)
    (max 1 (Amount.scale perItem length).ceil)

/-- The node over the values seen at one place. -/
def ofSamples (limits : Limits) : Nat → List Json → Except Fault CostNode
  | 0, _ => .ok (.leaf 1)
  | levels + 1, samples =>
      let values := Sample.present samples
      if values.isEmpty then .ok (.leaf 1)
      else do
        let (kind, _) ← first (mostCommon values)
        let typed := Sample.ofKind values kind
        match kind with
        | .object =>
            let objects := typed.filterMap Json.entries?
            let (nodes, sum) ← buildAll (ofSamples limits levels) objects
              (Sample.keysSeen objects)
            return .object nodes (max 1 sum)
        | .array => ofArrays limits levels (ofSamples limits levels) (typed.filterMap Json.items?)
        | _ =>
            (mean (estimate limits (levels + 1)) typed).map fun mean => .leaf (max 1 mean.ceil)

theorem samplesAt_eq (objects : List (Entries Json)) (key : String) :
    samplesAt objects key = .ok (objects.filterMap fun entries => entries.find? key) := by
  induction objects with
  | nil => rfl
  | cons entries rest ih =>
      rw [samplesAt] at ih ⊢
      cases hfind : entries.find? key with
      | none =>
          have hhas : entries.has key = false := by rw [Entries.has, hfind]; rfl
          rw [List.filter_cons_of_neg (by simp [hhas]), ih, List.filterMap_cons, hfind]
      | some value =>
          have hhas : entries.has key = true := by rw [Entries.has, hfind]; rfl
          rw [List.filter_cons_of_pos (by simp [hhas]), List.mapM_cons, member_of_find? hfind, ih,
            List.filterMap_cons, hfind]
          rfl

theorem readTotal_eq {node : CostNode} (h : node.Unreserved) : readTotal node = .ok node.total := by
  rw [readTotal, CostNode.member?_total h]

theorem buildAll_eq {build : List Json → Except CostError CostNode}
    {guarded : List Json → Except Fault CostNode}
    (h : ∀ samples, guarded samples = (build samples).mapError Fault.ofCost)
    (hread : ∀ {samples node}, build samples = .ok node → node.Unreserved)
    (objects : List (Entries Json)) (keys : List String) :
    buildAll guarded objects keys =
      ((CostNode.buildAll build (keys.map fun key =>
        (key, objects.filterMap fun entries => entries.find? key))).mapError Fault.ofCost).map
          fun nodes => (nodes, CostNode.totals nodes) := by
  induction keys with
  | nil => rfl
  | cons key rest ih =>
      simp only [buildAll, List.map_cons, CostNode.buildAll, samplesAt_eq, Outcome.ok_bind, h]
      cases hnode : build (objects.filterMap fun entries => entries.find? key) with
      | error error => rfl
      | ok node =>
          simp only [Outcome.mapError_ok, Outcome.ok_bind, readTotal_eq (hread hnode), ih]
          cases CostNode.buildAll build (rest.map fun key =>
              (key, objects.filterMap fun entries => entries.find? key)) with
          | error error => rfl
          | ok nodes => rfl

/-- The mean length of some arrays is taken by their number, which is not zero. -/
theorem ofArrays_eq {build : List Json → Except CostError CostNode}
    {guarded : List Json → Except Fault CostNode}
    (h : ∀ samples, guarded samples = (build samples).mapError Fault.ofCost) (limits : Limits)
    (levels : Nat) {arrays : List (List Json)} (hne : arrays ≠ []) :
    ofArrays limits levels guarded arrays =
      (CostNode.ofArrays limits levels build arrays).mapError Fault.ofCost := by
  simp only [ofArrays, CostNode.ofArrays, CostNode.meanLength, quotient_length _ hne,
    Outcome.map_ok,
    Outcome.ok_bind]
  split
  · rfl
  · rw [ofItem_eq, h]
    cases Cost.ofItem limits levels (CostNode.pooledItems limits arrays) with
    | error error => rfl
    | ok cost =>
        cases build (CostNode.pooledItems limits arrays) with
        | error error => rfl
        | ok node => rfl

/-- The arrays among some values are those of their kind. -/
theorem ofKind_array (values : List Json) :
    Sample.ofKind values .array = (values.filterMap Json.items?).map .arr := by
  induction values with
  | nil => rfl
  | cons value rest ih =>
      cases value with
      | arr items => exact congrArg (Json.arr items :: ·) ih
      | _ => exact ih

theorem items_ofKind (values : List Json) :
    (Sample.ofKind values .array).filterMap Json.items? = values.filterMap Json.items? := by
  rw [ofKind_array, List.filterMap_map]
  exact List.filterMap_some

/-- A cost tree reaches no fault but that of a unit of no characters. -/
theorem ofSamples_eq (limits : Limits) (levels : Nat) (samples : List Json) :
    ofSamples limits levels samples =
      (CostNode.ofSamples limits levels samples).mapError Fault.ofCost := by
  induction levels generalizing samples with
  | zero => rfl
  | succ levels ih =>
      rw [ofSamples, CostNode.ofSamples_succ]
      generalize Sample.present samples = values
      cases values with
      | nil => rfl
      | cons value rest =>
          obtain ⟨kind, hkind, hdominant⟩ := dominant?_spec (List.cons_ne_nil value rest)
          -- the leading kind is seen among the values, so there is a value of it to divide by
          have hne := Sample.ofKind_ne_nil hkind
          have hfilled : ¬ (value :: rest).isEmpty = true := Bool.false_ne_true
          rw [if_neg hfilled, first_mostCommon hdominant, Outcome.ok_bind, hdominant]
          cases kind with
          | object =>
              simp only [entries_ofKind, CostNode.childSamples,
                buildAll_eq ih CostNode.unreserved_ofSamples]
              cases CostNode.buildAll (CostNode.ofSamples limits levels) _ with
              | error error => rfl
              | ok nodes => rfl
          | array =>
              have harrays : (value :: rest).filterMap Json.items? ≠ [] := by
                rw [ofKind_array] at hne
                exact fun hnil => hne (congrArg (List.map Json.arr) hnil)
              simp only [items_ofKind]
              exact ofArrays_eq ih limits levels harrays
          | _ =>
              simp only [mean_eq (estimate_eq limits (levels + 1)) hne]
              rw [Outcome.mapError_bind]
              cases (Cost.mean (Cost.estimate limits (levels + 1)) _).mapError Fault.ofCost with
              | error error => rfl
              | ok mean => rfl

end Guarded

end JsonSelection
