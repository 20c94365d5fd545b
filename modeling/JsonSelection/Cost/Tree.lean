import JsonSelection.Cost.Estimate

/-!
# Cost trees

A cost tree tells the cost of every field of a value. An object node costs as
much as its fields together; an array node has the fields of its elements as
children and tells the cost of one element and the mean length.

## What this module delivers

- `CostNode`: the tree, with its total at every node.
- `CostNode.ofSamples`: the node over all values seen at one place.
- `CostNode.ofJson`: the tree of a value.
- `CostNode.toJson`: the tree as it is shown.

The samples of a field are gathered from all objects at its place, so one node
stands for many values, and the most frequent kind among them decides what node
it is. Element fields whose key starts with an underscore have no node, since
the entries that describe an array node start so as well
(`CostNode.isReserved`).
-/

set_option autoImplicit false

namespace JsonSelection

/-- Costs of a value, field by field. A leaf has a total only; an array node
also tells the cost of an element and the mean length of the arrays that it
stands for. -/
inductive CostNode where
  | leaf (total : Int)
  | object (children : List (String × CostNode)) (total : Int)
  | array (children : List (String × CostNode)) (perItem : Int) (meanTenths : Nat) (total : Int)

namespace CostNode

/-- The cost of the whole value. -/
def total : CostNode → Int
  | leaf total => total
  | object _ total => total
  | array _ _ _ total => total

/-- The nodes of the fields. -/
def children : CostNode → List (String × CostNode)
  | leaf _ => []
  | object children _ => children
  | array children _ _ _ => children

/-- The cost of one element, for an array node. -/
def perItem? : CostNode → Option Int
  | array _ perItem _ _ => some perItem
  | _ => none

/-! ## Samples of fields and elements -/

/-- Whether a key starts with an underscore, as the entries that describe a node
itself do. -/
def isReserved (key : String) : Bool :=
  key.toList.head? == some '_'

/-- The keys of some objects in the order in which they first occur, each with
the values under it. -/
def childSamples (objects : List (Entries Json)) : List (String × List Json) :=
  (Sample.keysSeen objects).map fun key =>
    (key, objects.filterMap fun entries => entries.find? key)

/-- Costs of the children of an object node, in order. -/
def buildAll (build : List Json → Except CostError CostNode) :
    List (String × List Json) → Except CostError (List (String × CostNode))
  | [] => .ok []
  | (key, samples) :: rest => do
      let node ← build samples
      let nodes ← buildAll build rest
      return (key, node) :: nodes

/-- The elements of some arrays that are looked at: of each array no more than
costs are taken from, and no more than a sample together. -/
def pooledItems (limits : Limits) (arrays : List (List Json)) : List Json :=
  Slice.before (arrays.flatMap fun items => Slice.before items limits.costSampleSize)
    limits.sampleSize

/-- The mean length of some arrays. -/
def meanLength (arrays : List (List Json)) : Rat :=
  ((Amount.whole arrays.flatten.length).divide (.whole arrays.length)).toRat

/-- The array node over some arrays. `build` builds the node of their elements,
and `levels` counts from the elements down. -/
def ofArrays (limits : Limits) (levels : Nat) (build : List Json → Except CostError CostNode)
    (arrays : List (List Json)) : Except CostError CostNode := do
  let items := pooledItems limits arrays
  -- the mean counts all elements, also those that are not pooled
  let length := meanLength arrays
  let (perItem, children) ←
    if items.isEmpty then pure (1, [])
    else do
      let cost ← Cost.ofItem limits levels items
      let node ← build items
      pure (cost.ceil, node.children.filter fun child => !isReserved child.1)
  return array children perItem (Rounding.tenths length)
    (max 1 (Amount.scale perItem length).ceil)

/-! ## Trees of values -/

/-- The node over the values seen at one place. The most frequent kind among
them decides what node it is. -/
def ofSamples (limits : Limits) : Nat → List Json → Except CostError CostNode
  | 0, _ => .ok (leaf 1)
  | levels + 1, samples =>
      -- a `null` has no say in the kind, nor in the mean
      let values := Sample.present samples
      match Sample.dominant? values with
      | none => .ok (leaf 1)
      | some .object => do
          let objects := values.filterMap Json.entries?
          let nodes ← buildAll (ofSamples limits levels) (childSamples objects)
          return object nodes (max 1 (nodes.map fun node => node.2.total).sum)
      | some .array =>
          ofArrays limits levels (ofSamples limits levels) (values.filterMap Json.items?)
      | some kind => do
          let mean ← Cost.mean (Cost.estimate limits (levels + 1)) (Sample.ofKind values kind)
          return leaf (max 1 mean.ceil)

/-- The cost tree of a value, which is the tree of the value as the only one
that is seen at its place. -/
def ofJson (limits : Limits) (levels : Nat) (value : Json) : Except CostError CostNode :=
  ofSamples limits levels [value]

mutual

/-- A cost tree as a JSON object. The entries that describe a node follow those
of its children; a child of an object node whose key is that of the total gives
way to it. -/
def toJson : CostNode → Json
  | leaf total => .obj [("_total", .int total)]
  | object children total => .obj (Entries.put (childrenToJson children) "_total" (.int total))
  | array children perItem meanTenths total =>
      .obj (childrenToJson children ++
        [("_perItem", .int perItem),
          ("_avgLength", .float (Float.ofScientific meanTenths true 1)),
          ("_total", .int total)])

/-- The entries of some children. -/
def childrenToJson : List (String × CostNode) → List (String × Json)
  | [] => []
  | (key, node) :: rest => (key, node.toJson) :: childrenToJson rest

end

end CostNode

end JsonSelection
