import JsonSelection.Proofs.Cost.Tree
import JsonSelection.Proofs.Sample.Conflicts

/-!
# What a cost tree tells of its value

Every node of a cost tree is built from the samples at one place of the value
(`CostNode.Built`) and has a total of at least one.

## What this module delivers

- `CostNode.one_le_total`: no node is free.
- `CostNode.ofSamples_objects`: a node over objects has a child for every key of
  these, and its total is that of its children together.
- `CostNode.ofSamples_arrays`: a node over arrays shows those children of the
  node over the pooled elements whose keys are not reserved.
- `CostNode.mirrors_of_built`: what the tree, written as a JSON object, shows of
  the keys of the value.

A node is written as an object whose own entries share the space of keys with
its children. So a child under the key of the total gives way to it, though it
is counted (`member?_object_iff`), and element keys that start with an
underscore have no child at all (`member?_array_iff`).
-/

set_option autoImplicit false

namespace JsonSelection

open Sample (present dominant? keysSeen)

/-- Values of one kind are dominated by it. -/
theorem Sample.dominant?_of_all {values : List Json} {kind : Kind} (hne : values ≠ [])
    (h : ∀ value ∈ values, value.kind = kind) : dominant? values = some kind := by
  cases values with
  | nil => exact absurd rfl hne
  | cons value rest =>
      have hothers : (rest.map Json.kind).filter (fun other => !other == value.kind) = [] := by
        rw [List.filter_eq_nil_iff]
        intro other hother
        obtain ⟨item, hitem, rfl⟩ := List.mem_map.mp hother
        rw [h item (List.mem_cons_of_mem _ hitem), h value List.mem_cons_self]
        simp
      have hkinds : kindsSeen (value :: rest) = [kind] := by
        rw [kindsSeen, List.map_cons, List.eraseDups_cons, hothers, h value List.mem_cons_self,
          List.eraseDups_nil]
      rw [dominant?, hkinds]
      rfl

namespace CostNode

/-! ### Nodes as JSON objects

What is found under a key of a written node: the node's own entry, or the child,
or nothing. The two are told apart since a child is an object and an own entry a
number. -/

theorem find?_childrenToJson (children : Entries CostNode) (key : String) :
    Entries.find? (childrenToJson children) key = (Entries.find? children key).map toJson := by
  induction children with
  | nil => rfl
  | cons child rest ih =>
      obtain ⟨other, node⟩ := child
      rw [childrenToJson, Entries.find?, Entries.find?, ih]
      split <;> rfl

/-- A node is written as an object, which no number is. -/
theorem toJson_eq_obj (node : CostNode) : ∃ entries, node.toJson = .obj entries := by
  cases node <;> exact ⟨_, rfl⟩

/-- A child of a node over objects is shown, unless the total is written over it. -/
theorem member?_object_iff {children : Entries CostNode} {total : Int} {key : String}
    {child : CostNode} (h : Entries.find? children key = some child) :
    (object children total).toJson.member? key = some child.toJson ↔ key ≠ "_total" := by
  change Entries.find? (Entries.put (childrenToJson children) "_total" (.int total)) key = _ ↔ _
  by_cases hkey : key = "_total"
  · subst hkey
    -- a number is found, and every child is an object
    obtain ⟨entries, hentries⟩ := toJson_eq_obj child
    rw [Entries.find?_put_self, hentries]
    exact iff_of_false (fun heq => by cases Option.some.inj heq) (fun hne => hne rfl)
  · rw [Entries.find?_put_of_ne _ _ hkey, find?_childrenToJson, h]
    exact iff_of_true rfl hkey

/-- The entries that describe an array node. They stand behind those of its
children, under keys that begin with an underscore. -/
def remarks (perItem : Int) (meanTenths : Nat) (total : Int) : Entries Json :=
  [("_perItem", .int perItem), ("_avgLength", .float (Float.ofScientific meanTenths true 1)),
    ("_total", .int total)]

theorem find?_remarks_ne_obj (perItem : Int) (meanTenths : Nat) (total : Int) (key : String)
    (entries : Entries Json) : Entries.find? (remarks perItem meanTenths total) key ≠
      some (.obj entries) := by
  intro h
  have hmem := Entries.mem_of_find? h
  simp [remarks] at hmem

/-- Children are found after reserved keys are left out exactly if their key is
not reserved. -/
theorem find?_unreserved (children : Entries CostNode) (key : String) :
    Entries.find? (children.filter fun child => !isReserved child.1) key =
      if isReserved key then none else Entries.find? children key := by
  induction children with
  | nil => simp [Entries.find?]
  | cons child rest ih =>
      obtain ⟨other, node⟩ := child
      by_cases hother : isReserved other = true
      · rw [List.filter_cons_of_neg (by simp [hother]), ih, Entries.find?]
        by_cases hkey : other = key
        · rw [← hkey, if_pos hother, if_pos hother]
        · rw [if_neg hkey]
      · rw [List.filter_cons_of_pos (by simp [hother]), Entries.find?, Entries.find?, ih]
        by_cases hkey : other = key
        · rw [if_pos hkey, if_pos hkey, ← hkey, if_neg hother]
        · rw [if_neg hkey, if_neg hkey]

/-- A child of the elements is shown by the node over arrays, unless its key
starts with an underscore. -/
theorem member?_array_iff {children : Entries CostNode} {perItem total : Int} {meanTenths : Nat}
    {key : String} {child : CostNode} (h : Entries.find? children key = some child) :
    (array (children.filter fun child => !isReserved child.1) perItem meanTenths
      total).toJson.member? key =
      some child.toJson ↔ isReserved key = false := by
  change Entries.find? (childrenToJson _ ++ remarks perItem meanTenths total) key = _ ↔ _
  rw [Entries.find?_append, find?_childrenToJson, find?_unreserved, h]
  by_cases hkey : isReserved key = true
  · obtain ⟨entries, hentries⟩ := toJson_eq_obj child
    rw [if_pos hkey, hentries]
    -- only an entry of the node's own may be found under the key, and none of these is an object
    refine iff_of_false ?_ (by simp [hkey])
    exact find?_remarks_ne_obj perItem meanTenths total key entries
  · rw [if_neg hkey]
    exact iff_of_true rfl (by simpa using hkey)

/-! ### Totals -/

theorem total_ofArrays {limits : Limits} {levels : Nat}
    {build : List Json → Except CostError CostNode} {arrays : List (List Json)} {node : CostNode}
    (h : ofArrays limits levels build arrays = .ok node) :
    1 ≤ node.total := by
  rw [ofArrays] at h
  split at h
  · cases h
    exact Int.le_max_left _ _
  · obtain ⟨cost, -, h⟩ := Outcome.bind_eq_ok_iff.mp h
    obtain ⟨inner, -, h⟩ := Outcome.bind_eq_ok_iff.mp h
    cases h
    exact Int.le_max_left _ _

/-- Every node has a total of at least one. -/
theorem one_le_total {limits : Limits} {levels : Nat} {samples : List Json} {node : CostNode}
    (h : ofSamples limits levels samples = .ok node) : 1 ≤ node.total := by
  cases levels with
  | zero =>
      cases h
      exact Int.le_refl 1
  | succ levels =>
      rw [ofSamples_succ] at h
      split at h
      · cases h
        exact Int.le_refl 1
      · obtain ⟨nodes, -, h⟩ := Outcome.bind_eq_ok_iff.mp h
        cases h
        exact Int.le_max_left _ _
      · exact total_ofArrays h
      · obtain ⟨mean, -, h⟩ := Outcome.bind_eq_ok_iff.mp h
        cases h
        exact Int.le_max_left _ _

/-! ### Nodes over objects -/

/-- The objects among some samples. -/
def objectsIn (samples : List Json) : List (Entries Json) :=
  (present samples).filterMap Json.entries?

/-- The arrays among some samples. -/
def arraysIn (samples : List Json) : List (List Json) :=
  (present samples).filterMap Json.items?

/-- The values that some objects hold under a key, of the objects that have it.
A `null` counts as a value here. -/
def valuesUnder (objects : List (Entries Json)) (key : String) : List Json :=
  objects.filterMap fun entries => entries.find? key

theorem buildAll_eq_ok {build : List Json → Except CostError CostNode} {keys : List String}
    {values : String → List Json} {nodes : Entries CostNode}
    (h : buildAll build (keys.map fun key => (key, values key)) = .ok nodes) :
    Entries.keys nodes = keys ∧ ∀ node ∈ nodes, build (values node.1) = .ok node.2 := by
  induction keys generalizing nodes with
  | nil =>
      cases h
      exact ⟨rfl, fun node hnode => by cases hnode⟩
  | cons key rest ih =>
      rw [List.map_cons, buildAll] at h
      obtain ⟨node, hnode, h⟩ := Outcome.bind_eq_ok_iff.mp h
      obtain ⟨others, hothers, h⟩ := Outcome.bind_eq_ok_iff.mp h
      cases h
      obtain ⟨hkeys, hbuilt⟩ := ih hothers
      refine ⟨congrArg (key :: ·) hkeys, ?_⟩
      intro other hother
      rcases List.mem_cons.mp hother with rfl | hother
      · exact hnode
      · exact hbuilt other hother

/-- The children of a node over objects: one for each key, built from the values
under the key. -/
structure Children (limits : Limits) (levels : Nat) (objects : List (Entries Json))
    (children : Entries CostNode) : Prop where
  keys : Entries.keys children = keysSeen objects
  built : ∀ child ∈ children, ofSamples limits levels
    (valuesUnder objects child.1) = .ok child.2

theorem Children.find? {limits : Limits} {levels : Nat} {objects : List (Entries Json)}
    {children : Entries CostNode} (h : Children limits levels objects children)
    {child : String × CostNode} (hchild : child ∈ children) :
    Entries.find? children child.1 = some child.2 := by
  apply Entries.find?_of_mem _ hchild
  rw [Entries.Distinct, h.keys]
  exact Sample.nodup_eraseDups _

/-- Where objects dominate, the node is one over the objects. -/
theorem ofSamples_objects {limits : Limits} {levels : Nat} {samples : List Json} {node : CostNode}
    (hkind : dominant? (present samples) = some .object)
    (h : ofSamples limits (levels + 1) samples = .ok node) :
    ∃ children, Children limits levels (objectsIn samples) children ∧
      node = object children (max 1 (totals children)) := by
  rw [ofSamples_succ, hkind] at h
  obtain ⟨children, hchildren, h⟩ := Outcome.bind_eq_ok_iff.mp h
  cases h
  obtain ⟨hkeys, hbuilt⟩ := buildAll_eq_ok hchildren
  exact ⟨children, ⟨hkeys, hbuilt⟩, rfl⟩

/-! ### Nodes over arrays

All elements are pooled only if no array is longer than the samples that are
taken of it; without this a key of some element may be missing from the tree. -/

/-- Where no element is left out, all elements are pooled. -/
theorem pooledItems_eq {limits : Limits} {arrays : List (List Json)}
    (hshort : ∀ items ∈ arrays, (items.length : Int) ≤ limits.costSampleSize)
    (hfew : (arrays.flatten.length : Int) ≤ limits.sampleSize) :
    pooledItems limits arrays = arrays.flatten := by
  have hwhole : (arrays.flatMap fun items => Slice.before items limits.costSampleSize) =
      arrays.flatten := by
    rw [List.flatMap_def]
    congr 1
    conv => rhs; rw [← List.map_id arrays]
    exact List.map_congr_left fun items hitems => Slice.before_of_length_le (hshort items hitems)
  rw [pooledItems, hwhole]
  exact Slice.before_of_length_le hfew

/-- Where arrays dominate, the node shows those children of the node over the
pooled elements whose keys do not start with an underscore. -/
theorem ofSamples_arrays {limits : Limits} {levels : Nat} {samples : List Json} {node : CostNode}
    (hkind : dominant? (present samples) = some .array)
    (hitems : pooledItems limits (arraysIn samples) ≠ [])
    (h : ofSamples limits (levels + 1) samples = .ok node) :
    ∃ inner perItem meanTenths total,
      ofSamples limits levels (pooledItems limits (arraysIn samples)) = .ok inner ∧
        node = array (inner.children.filter fun child => !isReserved child.1) perItem
          meanTenths total := by
  rw [ofSamples_succ, hkind] at h
  change ofArrays limits levels (ofSamples limits levels) (arraysIn samples) = .ok node at h
  rw [ofArrays] at h
  split at h
  · next hempty => exact absurd (List.isEmpty_iff.mp hempty) hitems
  · obtain ⟨cost, -, h⟩ := Outcome.bind_eq_ok_iff.mp h
    obtain ⟨inner, hinner, h⟩ := Outcome.bind_eq_ok_iff.mp h
    cases h
    exact ⟨inner, _, _, _, hinner, rfl⟩

/-! ### Nodes and their samples

 -/

/-- A node over objects has the child that is built for a key, unless the key is
that of its own total. Its total is that of all children together, but at least
one. -/
def MirrorsObjects (limits : Limits) (levels : Nat) (objects : List (Entries Json))
    (node : CostNode) : Prop :=
  ∃ children, Children limits levels objects children ∧ node.total = max 1 (totals children) ∧
    ∀ child ∈ children, node.toJson.member? child.1 = some child.2.toJson ↔
    child.1 ≠ "_total"

/-- A node over arrays has the child that is built for a key of the objects in
them, unless the key starts with an underscore. -/
def MirrorsElements (limits : Limits) (levels : Nat) (objects : List (Entries Json))
    (node : CostNode) : Prop :=
  ∃ children, Children limits levels objects children ∧
    ∀ child ∈ children, node.toJson.member? child.1 = some child.2.toJson ↔
    isReserved child.1 = false

/-- What a node tells of the samples that it is built from. There is one
statement for each kind that can be the most frequent one among them. -/
structure Mirrors (limits : Limits) (levels : Nat) (samples : List Json)
    (node : CostNode) : Prop where
  one_le : 1 ≤ node.total
  shown : node.toJson.member? "_total" = some (.int node.total)
  objects : ∀ below, levels = below + 1 → dominant? (present samples) = some .object →
    MirrorsObjects limits below (objectsIn samples) node
  /-- The elements lie one level below the arrays, and the values in them
  another one. -/
  elements : ∀ below, levels = below + 2 → dominant? (present samples) = some .array →
    (∀ items ∈ arraysIn samples, (items.length : Int) ≤ limits.costSampleSize) →
    ((arraysIn samples).flatten.length : Int) ≤ limits.sampleSize →
    (∀ item ∈ (arraysIn samples).flatten, item.isNull = false → item.kind = .object) →
    MirrorsElements limits below (objectsIn (arraysIn samples).flatten) node

theorem mirrorsObjects_of_ok {limits : Limits} {below : Nat} {samples : List Json} {node : CostNode}
    (hkind : dominant? (present samples) = some .object)
    (h : ofSamples limits (below + 1) samples = .ok node) :
    MirrorsObjects limits below (objectsIn samples) node := by
  obtain ⟨children, hchildren, rfl⟩ := ofSamples_objects hkind h
  exact ⟨children, hchildren, rfl, fun child hchild =>
    member?_object_iff (hchildren.find? hchild)⟩

theorem mirrorsElements_of_ok {limits : Limits} {below : Nat} {samples : List Json}
    {node : CostNode} (hkind : dominant? (present samples) = some .array)
    (hshort : ∀ items ∈ arraysIn samples, (items.length : Int) ≤ limits.costSampleSize)
    (hfew : ((arraysIn samples).flatten.length : Int) ≤ limits.sampleSize)
    (hobjects : ∀ item ∈ (arraysIn samples).flatten, item.isNull = false →
      item.kind = .object)
    (h : ofSamples limits (below + 2) samples = .ok node) :
    MirrorsElements limits below (objectsIn (arraysIn samples).flatten) node := by
  have hpooled := pooledItems_eq hshort hfew
  by_cases hpresent : present (arraysIn samples).flatten = []
  · -- without objects there is no key
    have hnone : objectsIn (arraysIn samples).flatten = [] := by
      rw [objectsIn, hpresent, List.filterMap_nil]
    rw [hnone]
    exact ⟨[], ⟨rfl, fun child hchild => by cases hchild⟩,
      fun child hchild => by cases hchild⟩
  · have hitems : pooledItems limits (arraysIn samples) ≠ [] := by
      rw [hpooled]
      intro hnil
      rw [hnil] at hpresent
      exact hpresent rfl
    have hdominant : dominant? (present (arraysIn samples).flatten) = some .object := by
      apply Sample.dominant?_of_all hpresent
      intro item hitem
      obtain ⟨hmem, hnull⟩ := (Sample.mem_present_iff _ _).mp hitem
      exact hobjects item hmem hnull
    obtain ⟨inner, perItem, meanTenths, total, hinner, rfl⟩ := ofSamples_arrays hkind hitems h
    rw [hpooled] at hinner
    obtain ⟨children, hchildren, rfl⟩ := ofSamples_objects hdominant hinner
    exact ⟨children, hchildren, fun child hchild => member?_array_iff (hchildren.find? hchild)⟩

theorem mirrors_of_ok {limits : Limits} {levels : Nat} {samples : List Json} {node : CostNode}
    (h : ofSamples limits levels samples = .ok node) : Mirrors limits levels samples node where
  one_le := one_le_total h
  shown := member?_total (unreserved_ofSamples h)
  objects := by
    rintro below rfl hkind
    exact mirrorsObjects_of_ok hkind h
  elements := by
    rintro below rfl hkind hshort hfew hobjects
    exact mirrorsElements_of_ok hkind hshort hfew hobjects h

/-- The nodes that are built for the cost tree of a value, with the samples that
they are built from and the number of levels that are left there. The node over
the elements of arrays is built, too; the node over the arrays shows the
children of it. -/
inductive Built (limits : Limits) (depth : Int) (value : Json) : Nat → List Json →
    CostNode → Prop where
  | root {tree : CostNode} : ofJson limits (limits.levelsFrom depth) value = .ok tree →
      Built limits depth value (limits.levelsFrom depth) [value] tree
  | member {levels : Nat} {samples : List Json} {node : CostNode} {child : String × CostNode} :
      Built limits depth value (levels + 1) samples node →
      dominant? (present samples) = some .object →
        child ∈ node.children →
        Built limits depth value levels (valuesUnder (objectsIn samples) child.1) child.2
  | elements {levels : Nat} {samples : List Json} {node inner : CostNode} :
      Built limits depth value (levels + 1) samples node →
      dominant? (present samples) = some .array →
        ofSamples limits levels (pooledItems limits (arraysIn samples)) = .ok inner →
        Built limits depth value levels (pooledItems limits (arraysIn samples)) inner

theorem Built.ofSamples_eq {limits : Limits} {depth : Int} {value : Json} {levels : Nat}
    {samples : List Json} {node : CostNode} (h : Built limits depth value levels samples node) :
    ofSamples limits levels samples = .ok node := by
  induction h with
  | root htree => exact htree
  | @member levels samples node child _ hkind hchild ih =>
      obtain ⟨children, hchildren, rfl⟩ := ofSamples_objects hkind ih
      exact hchildren.built child hchild
  | elements _ _ hinner _ => exact hinner

/-- The cost tree of a value is given, and every node that is built for it
mirrors the samples that it is built from. It has a total of at least one. Over
objects the total is that of the children together, and every key has its child
except the one that the total stands under. Over arrays of objects every key of
the elements has its child except those that start with an underscore. -/
theorem mirrors_of_built {limits : Limits} (hunit : limits.charsPerUnit ≠ 0) (depth : Int)
    (value : Json) :
    (∃ tree, ofJson limits (limits.levelsFrom depth) value = .ok tree) ∧
      ∀ levels samples node, Built limits depth value levels samples node →
        Mirrors limits levels samples node := by
  constructor
  · exact ofSamples_succeeds hunit _ [value]
  · intro levels samples node hbuilt
    exact mirrors_of_ok hbuilt.ofSamples_eq

/-- A row with a key that starts with an underscore, after a `null`. -/
def rows : Json :=
  .arr [.null, .obj [("_id", .str "abcdef"), ("tag", .int 1)]]

theorem mirrors_of_built_rows : ∃ (tree : CostNode) (children : Entries CostNode),
    ofJson {} 8 rows = .ok tree ∧ 1 ≤ tree.total ∧ Entries.keys children = ["_id", "tag"] ∧
      ∀ child ∈ children, tree.toJson.member? child.1 = some child.2.toJson ↔
      child.1 = "tag" := by
  obtain ⟨⟨tree, htree⟩, hbuilt⟩ := @mirrors_of_built {} (by decide) 0 rows
  have hmirrors : Mirrors {} 8 [rows] tree := hbuilt 8 [rows] tree (.root htree)
  obtain ⟨children, ⟨hkeys, -⟩, hshown⟩ := hmirrors.elements 6 rfl (by decide +kernel)
    (by decide +kernel)
    (by decide +kernel) (by decide +kernel)
  have hseen : keysSeen (objectsIn (arraysIn [rows]).flatten) = ["_id", "tag"] := by
    decide +kernel
  rw [hseen] at hkeys
  refine ⟨tree, children, htree, hmirrors.one_le, hkeys, ?_⟩
  intro child hchild
  have hkey : child.1 ∈ ["_id", "tag"] := hkeys ▸ List.mem_map_of_mem hchild
  rw [hshown child hchild]
  simp only [List.mem_cons, List.not_mem_nil, or_false] at hkey
  rcases hkey with hkey | hkey <;> rw [hkey] <;> decide

end CostNode

end JsonSelection
