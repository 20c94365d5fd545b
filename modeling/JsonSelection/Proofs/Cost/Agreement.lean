import JsonSelection.Proofs.Cost.Mirroring
import JsonSelection.Proofs.Number.Rounding
import JsonSelection.Proofs.Schema.Plain

/-!
# The cost tree and the estimate of a cost

A value without arrays has its cost told twice: by the total of its cost tree
and by the estimate. Both go down the same levels and add up whole numbers, so
they can differ only at a text. There the tree counts at least one unit, and the
estimate counts none if the text is so short, measured in units, that its length
is rounded to zero.

## What this module delivers

- `Cost.one_le_textCost_iff`: when a text costs at least one unit.
- `CostNode.agrees_text_iff`: the two costs of a text are the same exactly then.
- `CostNode.agrees_of_arrayFree`: they are the same for a value without arrays
  if they are so for every text in it.
- `CostNode.total_eq_estimate_iff`: with units that are not too large they are
  the same for every such value and every depth, and with larger ones they are
  not.

The bound on the unit is astronomical, but it is a bound on a limit that a
caller sets. Values with arrays are left out: the tree counts their elements,
and the estimate counts one average element.
-/

set_option autoImplicit false

namespace JsonSelection

open Sample (present dominant? keysSeen)

theorem Amount.atLeastOne_whole (n : Int) : (Amount.whole n).atLeastOne = .whole (max 1 n) := by
  have hcast : (1 : Rat) < (n : Rat) ↔ 1 < n := by
    rw [← Int.cast_one, Int.cast_lt]
  simp only [atLeastOne, toRat, hcast]
  split
  · next h => rw [max_eq_right (by omega)]
  · next h => rw [max_eq_left (by omega)]

namespace Cost

/-- The length of a text and the overhead, in units. This is the exact quotient,
before anything is rounded. -/
def units (limits : Limits) (text : String) : Rat :=
  (((text.length : Int) + limits.charOverhead : Int) : Rat) / limits.charsPerUnit

/-- The cost of a text, as a whole number. Two roundings stand in it: the
quotient is rounded to binary64, and then up. -/
def textCost (limits : Limits) (text : String) : Int :=
  (Rounding.nearest (units limits text)).ceil

variable {limits : Limits}

theorem ofText_eq (hunit : 0 < limits.charsPerUnit) (text : String) :
    ofText limits text = .ok (.whole (textCost limits text)) := by
  rw [ofText, if_neg (ne_of_gt hunit)]
  rfl

theorem units_pos (hunit : 0 < limits.charsPerUnit) (hoverhead : 0 < limits.charOverhead)
    (text : String) : 0 < units limits text := by
  have hlength : 0 < (text.length : Int) + limits.charOverhead := by omega
  exact div_pos (Int.cast_pos.mpr hlength) (Int.cast_pos.mpr hunit)

/-- A text costs at least one unit, unless its length in units is rounded to zero. -/
theorem one_le_textCost_iff (hunit : 0 < limits.charsPerUnit) (hoverhead : 0 < limits.charOverhead)
    (text : String) : 1 ≤ textCost limits text ↔
      limits.charsPerUnit < 2 ^ 1075 * (text.length + limits.charOverhead) := by
  have hpositive := units_pos hunit hoverhead text
  have hnonneg := Rounding.nearest_nonneg hpositive
  have hcast : (0 : Rat) < limits.charsPerUnit := Int.cast_pos.mpr hunit
  have hzero := Rounding.nearest_eq_zero_iff hpositive
  have hcount : 1 ≤ textCost limits text ↔ 0 < textCost limits text := by omega
  -- the ceiling is positive as soon as the rounded quotient is, and it is rounded
  -- to zero up to half of the smallest number
  calc 1 ≤ textCost limits text
      ↔ 0 < Rounding.nearest (units limits text) := by
        rw [hcount, textCost, Rat.lt_ceil_iff, Int.cast_zero]
    _ ↔ 1 < units limits text * 2 ^ (Rounding.lastPlace + 1) := by
        rw [lt_iff_le_and_ne, ← not_le, ← hzero]
        exact ⟨fun h heq => h.2 heq.symm, fun h => ⟨hnonneg, fun heq => h heq.symm⟩⟩
    _ ↔ limits.charsPerUnit < 2 ^ 1075 * (text.length + limits.charOverhead) := by
        have hpower : (2 : Rat) ^ (Rounding.lastPlace + 1) = ((2 ^ 1075 : Int) : Rat) := by
          rw [Int.cast_pow]
          exact zpow_natCast 2 1075
        rw [units, div_mul_eq_mul_div, one_lt_div hcast, hpower, ← Int.cast_mul, Int.cast_lt,
          mul_comm]

/-- The mean of one whole cost is that cost, rounded. -/
theorem mean_singleton {cost : Json → Except CostError Amount} {value : Json} {n : Int}
    (h : cost value = .ok (.whole n)) :
    mean cost [value] = .ok (.rounded (Rounding.nearest n)) := by
  simp only [mean, total, List.foldlM_cons, List.foldlM_nil, h, Outcome.map_ok, Outcome.ok_bind]
  simp [pure, Except.pure, Amount.add, Amount.divide]

end Cost

theorem Sample.dominant?_present_singleton {value : Json} (h : value.isNull = false) :
    dominant? (present [value]) = some value.kind := by
  have hpresent : present [value] = [value] := by simp [present, h]
  rw [hpresent]
  apply dominant?_of_all (List.cons_ne_nil _ _)
  intro other hother
  rw [List.mem_singleton.mp hother]

namespace CostNode

/-- The tree of a value and its estimate are given, and the total of the tree is
the estimate. -/
def Agrees (limits : Limits) (levels : Nat) (value : Json) : Prop :=
  ∃ node, ofSamples limits levels [value] = .ok node ∧
    Cost.estimate limits levels value = .ok (.whole node.total)

variable {limits : Limits} {levels : Nat}

/-- The tree of a value that is neither `null` nor a container is a leaf with
the mean of one value. -/
theorem ofSamples_scalar {value : Json} (hnull : value.isNull = false)
    (harray : value.kind ≠ .array) (hobject : value.kind ≠ .object) {n : Int}
    (hcost : Cost.estimate limits (levels + 1) value = .ok (.whole n)) :
    ofSamples limits (levels + 1) [value] = .ok (leaf (max 1 (Rounding.nearest n).ceil)) := by
  have hpresent : present [value] = [value] := by simp [present, hnull]
  have hkind : Sample.ofKind [value] value.kind = [value] := by simp [Sample.ofKind]
  rw [ofSamples_succ, Sample.dominant?_present_singleton hnull, hpresent]
  split
  · next heq => cases heq
  · next heq => exact absurd (Option.some.inj heq) hobject
  · next heq => exact absurd (Option.some.inj heq) harray
  · next kind _ _ heq =>
      obtain rfl := Option.some.inj heq
      rw [hkind, Cost.mean_singleton hcost]
      rfl

theorem agrees_one {value : Json} (hnull : value.isNull = false) (harray : value.kind ≠ .array)
    (hobject : value.kind ≠ .object)
    (hcost : Cost.estimate limits (levels + 1) value = .ok (.whole 1)) :
    Agrees limits (levels + 1) value :=
  ⟨_, ofSamples_scalar hnull harray hobject hcost, hcost⟩

/-- The two costs of a text are the same exactly if it costs at least one unit. -/
theorem agrees_text_iff (hunit : 0 < limits.charsPerUnit) (hoverhead : 0 < limits.charOverhead)
    (text : String) : Agrees limits (levels + 1) (.str text) ↔
      limits.charsPerUnit < 2 ^ 1075 * (text.length + limits.charOverhead) := by
  have hcost : Cost.estimate limits (levels + 1) (.str text) =
      .ok (.whole (Cost.textCost limits text)) := Cost.ofText_eq hunit text
  have htree := ofSamples_scalar rfl (fun h => by cases h) (fun h => by cases h) hcost
  -- the cost has been rounded before, so the mean of this one cost is the cost
  rw [Cost.textCost, Rounding.nearest_ceil_nearest (Cost.units_pos hunit hoverhead text),
    Rat.ceil_intCast, ← Cost.textCost] at htree
  rw [← Cost.one_le_textCost_iff hunit hoverhead]
  constructor
  · rintro ⟨node, hnode, hestimate⟩
    obtain rfl := Except.ok.inj (htree.symm.trans hnode)
    rw [hcost] at hestimate
    have htotal : Cost.textCost limits text = max 1 (Cost.textCost limits text) :=
      Amount.whole.inj (Except.ok.inj hestimate)
    omega
  · intro hone
    refine ⟨_, htree, ?_⟩
    rw [hcost, total, max_eq_right hone]

/-! ### Objects

One object is a sample of its own, so its children have one sample each, and the
totals are added up in the same order. -/

/-- The samples of the children of a single object are its values, one for each
key. -/
theorem childSamples_singleton {entries : Entries Json} (h : Entries.Distinct entries) :
    childSamples [entries] = entries.map fun entry => (entry.1, [entry.2]) := by
  have hkeys : keysSeen [entries] = Entries.keys entries := by
    rw [keysSeen, List.flatMap_singleton, Sample.eraseDups_of_nodup h]
  rw [childSamples, hkeys, Entries.keys, List.map_map]
  apply List.map_congr_left
  intro entry hentry
  simp [Entries.find?_of_mem h hentry]

/-- The costs of some values are added up to the total of their nodes. -/
theorem buildAll_agrees {entries : Entries Json}
    (h : ∀ entry ∈ entries, Agrees limits levels entry.2) (sum : Int) :
    ∃ nodes, buildAll (ofSamples limits levels) (entries.map fun entry => (entry.1, [entry.2])) =
        .ok nodes ∧
      (entries.map Prod.snd).foldlM
          (fun (sum : Amount) value => (Cost.estimate limits levels value).map sum.add)
          (.whole sum) =
        .ok (.whole (sum + totals nodes)) := by
  induction entries generalizing sum with
  | nil => exact ⟨[], rfl, by simp [totals, pure, Except.pure]⟩
  | cons entry rest ih =>
      obtain ⟨node, hnode, hcost⟩ := h entry List.mem_cons_self
      obtain ⟨nodes, hnodes, hsum⟩ :=
        ih (fun other hother => h other (List.mem_cons_of_mem _ hother)) (sum + node.total)
      refine ⟨(entry.1, node) :: nodes, ?_, ?_⟩
      · rw [List.map_cons, buildAll, hnode, Outcome.ok_bind, hnodes]
        rfl
      · have htotals : sum + totals ((entry.1, node) :: nodes) = sum + node.total + totals nodes :=
          (Int.add_assoc _ _ _).symm
        rw [List.map_cons, List.foldlM_cons, hcost, Outcome.map_ok, Outcome.ok_bind, htotals]
        exact hsum

theorem agrees_object {entries : Entries Json} (hdistinct : Entries.Distinct entries)
    (h : ∀ entry ∈ entries, Agrees limits levels entry.2) :
    Agrees limits (levels + 1) (.obj entries) := by
  obtain ⟨nodes, hnodes, hsum⟩ := buildAll_agrees h 0
  rw [Int.zero_add] at hsum
  refine ⟨object nodes (max 1 (totals nodes)), ?_, ?_⟩
  · rw [ofSamples_succ, Sample.dominant?_present_singleton rfl]
    change (buildAll (ofSamples limits levels) (childSamples [entries]) >>= _) = _
    rw [childSamples_singleton hdistinct, hnodes]
    rfl
  · change (Cost.total (Cost.estimate limits levels)
      (entries.map Prod.snd)).map Amount.atLeastOne = _
    rw [Cost.total, hsum, Outcome.map_ok, Amount.atLeastOne_whole]
    rfl

/-! ### Values without arrays -/

/-- Where every text costs at least one unit, the two costs of a value without
arrays are the same. -/
theorem agrees_of_arrayFree (hunit : 0 < limits.charsPerUnit) (hoverhead : 0 < limits.charOverhead)
    (hcoarse : limits.charsPerUnit < 2 ^ 1075 * limits.charOverhead) (levels : Nat) {value : Json}
    (hformed : value.WellFormed) (hfree : value.ArrayFree) : Agrees limits levels value := by
  -- both costs go down the same levels, and neither looks at a value below the last one
  induction levels generalizing value with
  | zero => exact ⟨.leaf 1, rfl, rfl⟩
  | succ levels ih =>
      cases value with
      | null => exact ⟨.leaf 1, rfl, rfl⟩
      | bool b => exact agrees_one rfl (fun h => by cases h) (fun h => by cases h) rfl
      | int n => exact agrees_one rfl (fun h => by cases h) (fun h => by cases h) rfl
      | float x => exact agrees_one rfl (fun h => by cases h) (fun h => by cases h) rfl
      | str text =>
          rw [agrees_text_iff hunit hoverhead]
          have hlonger : limits.charOverhead ≤ (text.length : Int) + limits.charOverhead := by
            omega
          exact lt_of_lt_of_le hcoarse (mul_le_mul_of_nonneg_left hlonger (by norm_num))
      | arr items => exact absurd hfree id
      | obj entries =>
          apply agrees_object hformed.1
          intro entry hentry
          exact ih (hformed.value hentry) ((Json.entriesArrayFree_iff entries).mp hfree entry
            hentry)

/-- The total that the cost tree of a value shows is the estimate of its cost,
from a depth on. -/
def SameCost (limits : Limits) (depth : Int) (value : Json) : Prop :=
  ∃ tree n, ofJson limits (limits.levelsFrom depth) value = .ok tree ∧
    tree.toJson.member? "_total" = some (.int n) ∧
    Cost.estimate limits (limits.levelsFrom depth) value = .ok (.whole n)

theorem sameCost_iff (depth : Int) (value : Json) :
    SameCost limits depth value ↔ Agrees limits (limits.levelsFrom depth) value := by
  constructor
  · rintro ⟨tree, n, htree, htotal, hcost⟩
    rw [member?_total (unreserved_ofSamples htree)] at htotal
    obtain rfl := Json.int.inj (Option.some.inj htotal)
    exact ⟨tree, htree, hcost⟩
  · rintro ⟨tree, htree, hcost⟩
    exact ⟨tree, tree.total, htree, member?_total (unreserved_ofSamples htree), hcost⟩

/-- The total of the cost tree is the estimate of the cost, for every value
without arrays and every depth, as long as a unit is not so large that the
shortest text counts as nothing. With a larger unit they differ at the empty
text. -/
theorem total_eq_estimate_iff (hunit : 0 < limits.charsPerUnit)
    (hoverhead : 0 < limits.charOverhead) :
    (∀ depth value, value.WellFormed → value.ArrayFree → SameCost limits depth value) ↔
      limits.charsPerUnit < 2 ^ 1075 * limits.charOverhead := by
  constructor
  · intro h
    -- the empty text on the last level above the cap
    have hlevels : limits.levelsFrom (limits.maxDepth - 1) = 0 + 1 := by
      simp only [Limits.levelsFrom]
      omega
    have hempty := (sameCost_iff _ _).mp (h (limits.maxDepth - 1) (.str "") trivial trivial)
    have hlength : ("".length : Int) = 0 := rfl
    rwa [hlevels, agrees_text_iff hunit hoverhead, hlength, zero_add] at hempty
  · intro hcoarse depth value hformed hfree
    exact (sameCost_iff depth value).mpr (agrees_of_arrayFree hunit hoverhead hcoarse _
      hformed hfree)

/-- Objects with a key that the total of their nodes stands under, and a `null`. -/
def account : Json :=
  .obj [("_total", .obj [("_total", .str "abcdef"), ("n", .int 1)]), ("a", .null), ("b", .str "")]

theorem total_eq_estimate_iff_account :
    (0 < ({} : Limits).charsPerUnit ∧ 0 < ({} : Limits).charOverhead) ∧
    SameCost {} 0 account ∧
      ¬ ∀ depth value, value.WellFormed → value.ArrayFree →
        SameCost { charsPerUnit := 2 ^ 1079 } depth value := by
  have hpositive : 0 < ({} : Limits).charsPerUnit ∧ 0 < ({} : Limits).charOverhead := by decide
  refine ⟨hpositive, ?_, ?_⟩
  · refine (total_eq_estimate_iff hpositive.1 hpositive.2).mpr ?_ 0 account ?_ ?_
    · decide +kernel
    · simp [account, Json.WellFormed, Json.EntriesWellFormed, Entries.Distinct, Entries.keys]
    · simp [account, Json.ArrayFree, Json.EntriesArrayFree]
  · rw [total_eq_estimate_iff (by decide +kernel) (by decide)]
    decide +kernel

end CostNode

end JsonSelection
