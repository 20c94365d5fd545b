import JsonSelection.Cost.Tree
import JsonSelection.Proofs.Cost
import JsonSelection.Proofs.Entries

/-!
# Cost trees

With a unit of some characters every value has a cost tree
(`CostNode.ofSamples_succeeds`). The total of a node can be read off its JSON
object (`CostNode.member?_total`), because the keys of the children of an array
node keep away from the entries that describe it (`CostNode.Unreserved`), and
because the total of an object node is written last.

What the children of a node are is the subject of `Proofs/Cost/Mirroring`.
-/

set_option autoImplicit false

namespace JsonSelection

namespace CostNode

/-! ### Totals -/

/-- The keys of the children of an array node keep away from the entries that
describe it. -/
def Unreserved : CostNode → Prop
  | array children _ _ _ => ∀ child ∈ children, isReserved child.1 = false
  | _ => True

/-- The totals of some children together. An object node costs no less than
this, and one unit at least. -/
def totals (children : List (String × CostNode)) : Int :=
  (children.map fun child => child.2.total).foldr (· + ·) 0

theorem ofSamples_succ (limits : Limits) (levels : Nat) (samples : List Json) :
    ofSamples limits (levels + 1) samples =
      match Sample.dominant? (Sample.present samples) with
      | none => .ok (leaf 1)
      | some .object => do
          let nodes ← buildAll (ofSamples limits levels)
            (childSamples ((Sample.present samples).filterMap Json.entries?))
          return object nodes (max 1 (totals nodes))
      | some .array =>
          ofArrays limits levels (ofSamples limits levels)
            ((Sample.present samples).filterMap Json.items?)
      | some kind => do
          let mean ← Cost.mean (Cost.estimate limits (levels + 1))
            (Sample.ofKind (Sample.present samples) kind)
          return leaf (max 1 mean.ceil) :=
  rfl

theorem keys_childrenToJson (children : List (String × CostNode)) :
    Entries.keys (childrenToJson children) = children.map Prod.fst := by
  induction children with
  | nil => rfl
  | cons child rest ih => exact congrArg (child.1 :: ·) ih

/-- The total of a node can be read off its JSON object. -/
theorem member?_total {node : CostNode} (h : node.Unreserved) :
    node.toJson.member? "_total" = some (.int node.total) := by
  cases node with
  | leaf total => rfl
  | object children total =>
      exact Entries.find?_put_self (childrenToJson children) "_total" (.int total)
  | array children perItem meanTenths total =>
      -- the totals of an array are appended, so a child of that name would hide
      -- them
      have hnone : Entries.find? (childrenToJson children) "_total" = none := by
        rw [← Option.not_isSome_iff_eq_none]
        intro hsome
        have hmem := (Entries.has_iff_mem_keys (childrenToJson children) "_total").mp hsome
        rw [keys_childrenToJson] at hmem
        obtain ⟨child, hchild, hkey⟩ := List.mem_map.mp hmem
        have hreserved := h child hchild
        rw [hkey] at hreserved
        cases hreserved
      change Entries.find? (childrenToJson children ++ _) "_total" = _
      rw [Entries.find?_append, hnone]
      rfl

theorem unreserved_ofArrays {limits : Limits} {levels : Nat}
    {build : List Json → Except CostError CostNode} {arrays : List (List Json)} {node : CostNode}
    (h : ofArrays limits levels build arrays = .ok node) : node.Unreserved := by
  rw [ofArrays] at h
  split at h
  · cases h
    intro child hchild
    cases hchild
  · obtain ⟨cost, -, h⟩ := Outcome.bind_eq_ok_iff.mp h
    obtain ⟨inner, -, h⟩ := Outcome.bind_eq_ok_iff.mp h
    cases h
    intro child hchild
    simpa using (List.mem_filter.mp hchild).2

theorem unreserved_ofSamples {limits : Limits} {levels : Nat} {samples : List Json}
    {node : CostNode} (h : ofSamples limits levels samples = .ok node) : node.Unreserved := by
  cases levels with
  | zero =>
      cases h
      trivial
  | succ levels =>
      rw [ofSamples_succ] at h
      split at h
      · cases h
        trivial
      · obtain ⟨nodes, -, h⟩ := Outcome.bind_eq_ok_iff.mp h
        cases h
        trivial
      · exact unreserved_ofArrays h
      · obtain ⟨mean, -, h⟩ := Outcome.bind_eq_ok_iff.mp h
        cases h
        trivial

/-! ### Trees are given -/

section Build

variable {build : List Json → Except CostError CostNode}
  (hbuild : ∀ samples, ∃ node, build samples = .ok node)

include hbuild

theorem buildAll_succeeds (samples : List (String × List Json)) :
    ∃ nodes, buildAll build samples = .ok nodes := by
  induction samples with
  | nil => exact ⟨[], rfl⟩
  | cons sample rest ih =>
      obtain ⟨node, hnode⟩ := hbuild sample.2
      obtain ⟨nodes, hnodes⟩ := ih
      exact ⟨_, by rw [buildAll, hnode, Outcome.ok_bind, hnodes]; rfl⟩

theorem ofArrays_succeeds {limits : Limits} (hunit : limits.charsPerUnit ≠ 0) (levels : Nat)
    (arrays : List (List Json)) : ∃ node, ofArrays limits levels build arrays = .ok node := by
  rw [ofArrays]
  split
  · exact ⟨_, rfl⟩
  · obtain ⟨cost, hcost⟩ := Cost.ofItem_succeeds hunit levels (pooledItems limits arrays)
    obtain ⟨node, hnode⟩ := hbuild (pooledItems limits arrays)
    exact ⟨_, by rw [hcost, Outcome.ok_bind, hnode]; rfl⟩

end Build

/-- With a unit of some characters every value has a cost tree. -/
theorem ofSamples_succeeds {limits : Limits} (hunit : limits.charsPerUnit ≠ 0) (levels : Nat)
    (samples : List Json) : ∃ node, ofSamples limits levels samples = .ok node := by
  induction levels generalizing samples with
  | zero => exact ⟨.leaf 1, rfl⟩
  | succ levels ih =>
      rw [ofSamples_succ]
      split
      · exact ⟨.leaf 1, rfl⟩
      · obtain ⟨nodes, hnodes⟩ := buildAll_succeeds ih (childSamples _)
        exact ⟨_, by rw [hnodes]; rfl⟩
      · exact ofArrays_succeeds ih hunit levels _
      · obtain ⟨mean, hmean⟩ := Cost.mean_succeeds (Cost.estimate_succeeds hunit (levels + 1))
          _
        exact ⟨_, by rw [hmean]; rfl⟩

end CostNode

end JsonSelection
