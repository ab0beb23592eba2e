import Mathlib.Algebra.Order.Ring.Rat
import Mathlib.Algebra.BigOperators.Group.List.Basic

/-! # Editing a flex grid, and saving it

Two sides of one layout: `gridLayout.ts` splits, adds, closes and resizes panes in the tree the
client holds, and `view_layout.py` refuses a tree that breaks a rule. Sizes are exact rationals; a
size is there, because the server writes every one it answers. Of a container's settings only the
primitive is read, the numbers in refusals are left out, and what pydantic says of a field is one
text. -/

namespace Loregarden.GridLayout

abbrev NodeId := String
abbrev ContainerId := String

inductive SplitOrientation where
  | horizontal | vertical

inductive ContainerKind where
  | terminal | panel | webEmbed

/-- `ViewContainer`, with `settings.primitive_id` where that is a text. -/
structure Container where
  kind : ContainerKind
  primitiveId : Option String

structure GridLeaf where
  id : NodeId
  size : ℚ
  containerId : ContainerId

inductive Node where
  | leaf (leaf : GridLeaf)
  | split (id : NodeId) (size : ℚ) (orientation : SplitOrientation) (children : List Node)

structure Registry where
  entries : List (ContainerId × Container)
  nodup : (entries.map Prod.fst).Nodup

namespace Registry

def keys (r : Registry) : List ContainerId := r.entries.map Prod.fst

def get (r : Registry) (key : ContainerId) : Option Container :=
  (r.entries.find? fun entry => entry.1 = key).map Prod.snd

/-- The registry with `key` deleted. -/
def erase (r : Registry) (key : ContainerId) : Registry where
  entries := r.entries.filter fun entry => entry.1 ≠ key
  nodup := (List.filter_sublist.map Prod.fst).nodup r.nodup

/-- `{ ...containers, [key]: container }`; the order of the keys is nobody's. -/
def set (r : Registry) (key : ContainerId) (container : Container) : Registry where
  entries := (key, container) :: (r.erase key).entries
  nodup := by
    refine List.nodup_cons.mpr ⟨?_, (r.erase key).nodup⟩
    rintro hmem
    obtain ⟨entry, hentry, rfl⟩ := List.mem_map.mp hmem
    exact absurd rfl (of_decide_eq_true (List.mem_filter.mp hentry).2)

/-- `{ [key]: container }`. -/
def single (key : ContainerId) (container : Container) : Registry where
  entries := [(key, container)]
  nodup := List.pairwise_singleton _ key

end Registry

structure Layout where
  containers : Registry
  root : Node

def maxSplitDepth : Nat := 32
def maxContainers : Nat := 256
def maxLayoutNodes : Nat := 512

/-! ## What the server accepts -/

def sizeSumTolerance : ℚ := 1 / 1000000

def nodeSize (size : ℚ) : Bool := 0 < size ∧ size ≤ 1

namespace Node

def id : Node → NodeId
  | leaf l => l.id
  | split id _ _ _ => id

def size : Node → ℚ
  | leaf l => l.size
  | split _ size _ _ => size

mutual

def fieldsOk : Node → Bool
  | leaf l => l.id ≠ "" && nodeSize l.size && l.containerId ≠ ""
  | split id size _ children =>
    id ≠ "" && nodeSize size && !children.isEmpty && fieldsOkAll children

def fieldsOkAll : List Node → Bool
  | [] => true
  | child :: children => fieldsOk child && fieldsOkAll children

end

end Node

structure StructureWalk where
  known : List ContainerId
  nodeIds : List NodeId := []
  referenced : List ContainerId := []

namespace StructureWalk

def claimNode (walk : StructureWalk) (nodeId : NodeId) : Except String StructureWalk :=
  if nodeId ∈ walk.nodeIds then throw s!"Duplicate node id: {nodeId}"
  else if maxLayoutNodes ≤ walk.nodeIds.length then
    throw s!"Layout has more than {maxLayoutNodes} nodes"
  else pure { walk with nodeIds := walk.nodeIds ++ [nodeId] }

def claimDepth (depth : Nat) (nodeId : NodeId) : Except String Unit :=
  if maxSplitDepth ≤ depth then
    throw s!"Split nesting under node {nodeId} is deeper than {maxSplitDepth}"
  else pure ()

def claimContainer (walk : StructureWalk) (containerId : ContainerId) :
    Except String StructureWalk :=
  if containerId ∉ walk.known then throw s!"Node references unknown container: {containerId}"
  else if containerId ∈ walk.referenced then
    throw s!"Container placed more than once: {containerId}"
  else pure { walk with referenced := walk.referenced ++ [containerId] }

def finish (walk : StructureWalk) : Except String Unit :=
  if walk.known.all (· ∈ walk.referenced) then pure ()
  else throw "Container(s) no arrangement references"

end StructureWalk

open StructureWalk

def sumsToOne (children : List Node) : Bool :=
  |(children.map Node.size).sum - 1| ≤ sizeSumTolerance

mutual

def walkStructure (walk : StructureWalk) (depth : Nat) : Node → Except String StructureWalk
  | .leaf l => do
      let claimed ← walk.claimNode l.id
      claimed.claimContainer l.containerId
  | .split id _ _ children => do
      claimDepth depth id
      let claimed ← walk.claimNode id
      if sumsToOne children then walkChildren claimed (depth + 1) children
      else throw s!"Sibling sizes under node {id} do not sum to 1.0"

def walkChildren (walk : StructureWalk) (depth : Nat) : List Node → Except String StructureWalk
  | [] => pure walk
  | child :: children => do
      let walked ← walkStructure walk depth child
      walkChildren walked depth children

end

/-- `parse_view_layout`, of a flex grid. -/
def parseViewLayout (layout : Layout) : Except String Layout :=
  let keys := layout.containers.keys
  if "" ∈ keys ∨ maxContainers < keys.length ∨ !layout.root.fieldsOk then
    throw "The layout's fields are out of range"
  else if sizeSumTolerance < |layout.root.size - 1| then
    throw "The root node's size must be 1.0"
  else do
    let walked ← walkStructure { known := keys } 0 layout.root
    walked.finish
    pure layout

/-! ## The client's reading of the tree -/

def sizeOf (size : ℚ) (siblings : Nat) : ℚ := if size ≤ 0 then 1 / siblings else size

mutual

def parseNode (siblings : Nat) : Node → Option Node
  | .leaf l =>
    if l.id = "" then none
    else if l.containerId = "" then none
    else some (.leaf { l with size := sizeOf l.size siblings })
  | .split id size orientation children =>
    if id = "" then none
    else
      match parseNodes children.length children with
      | [] => none
      | parsed => some (.split id (sizeOf size siblings) orientation parsed)

def parseNodes (siblings : Nat) : List Node → List Node
  | [] => []
  | child :: children => (parseNode siblings child).toList ++ parseNodes siblings children

end

def readGridTree (layout : Layout) : Option Node := parseNode 1 layout.root

def requireTree (layout : Layout) : Except String Node :=
  match readGridTree layout with
  | none => throw "This view's layout could not be read, so it was left unchanged."
  | some tree => pure tree

namespace Node

def withSize (size : ℚ) : Node → Node
  | leaf l => leaf { l with size := size }
  | split id _ orientation children => split id size orientation children

mutual

def countNodes : Node → Nat
  | leaf _ => 1
  | split _ _ _ children => 1 + countAll children

def countAll : List Node → Nat
  | [] => 0
  | child :: children => countNodes child + countAll children

end

mutual

def findLeaf (nodeId : NodeId) : Node → Option GridLeaf
  | leaf l => if l.id = nodeId then some l else none
  | split _ _ _ children => findLeafIn nodeId children

def findLeafIn (nodeId : NodeId) : List Node → Option GridLeaf
  | [] => none
  | child :: children =>
    match findLeaf nodeId child with
    | some l => some l
    | none => findLeafIn nodeId children

end

end Node

def renormalized (nodes : List Node) : List Node :=
  let total := (nodes.map Node.size).sum
  if total ≤ 0 then nodes.map (Node.withSize (1 / nodes.length))
  else nodes.map fun node => node.withSize (node.size / total)

def storeTree (tree : Node) (containers : Registry) : Layout where
  containers := containers
  root := tree.withSize 1

def emptyContainer : Container := { kind := .panel, primitiveId := none }

/-- What `freshId` answers in one call: a container's id and two nodes'. -/
structure FreshIds where
  container : ContainerId
  split : NodeId
  leaf : NodeId

/-! ## The edits -/

mutual

def replaceLeaf (nodeId : NodeId) (make : GridLeaf → Nat → Except String Node) (depth : Nat) :
    Node → Except String (Option Node)
  | .leaf l => if l.id = nodeId then do return some (← make l depth) else pure none
  | .split id size orientation children => do
      return (← replaceLeafIn nodeId make (depth + 1) children).map (.split id size orientation)

def replaceLeafIn (nodeId : NodeId) (make : GridLeaf → Nat → Except String Node) (depth : Nat) :
    List Node → Except String (Option (List Node))
  | [] => pure none
  | child :: children => do
      match ← replaceLeaf nodeId make depth child with
      | some replaced => return some (replaced.withSize child.size :: children)
      | none => return (← replaceLeafIn nodeId make depth children).map (child :: ·)

end

mutual

/-- `mapSplit`; `make` is handed what a split holds. -/
def mapSplit (splitId : NodeId) (make : List Node → Except String (List Node)) :
    Node → Except String (Option Node)
  | .leaf _ => pure none
  | .split id size orientation children =>
    if id = splitId then do return some (.split id size orientation (← make children))
    else do return (← mapSplitIn splitId make children).map (.split id size orientation)

def mapSplitIn (splitId : NodeId) (make : List Node → Except String (List Node)) :
    List Node → Except String (Option (List Node))
  | [] => pure none
  | child :: children => do
      match ← mapSplit splitId make child with
      | some replaced => return some (replaced.withSize child.size :: children)
      | none => return (← mapSplitIn splitId make children).map (child :: ·)

end

def tooManyPanes : String := s!"A view cannot hold more than {maxContainers} panes."
def tooManyNodes : String := s!"A view cannot hold more than {maxLayoutNodes} layout nodes."

def splitLeaf (layout : Layout) (fresh : FreshIds) (nodeId : NodeId)
    (orientation : SplitOrientation) : Except String Layout := do
  let tree ← requireTree layout
  let replaced ← replaceLeaf nodeId (fun leaf depth =>
    if maxSplitDepth ≤ depth then
      throw s!"A pane cannot be split more than {maxSplitDepth} levels deep."
    else if maxContainers < layout.containers.entries.length + 1 then throw tooManyPanes
    else if maxLayoutNodes < tree.countNodes + 2 then throw tooManyNodes
    else
      pure (.split fresh.split leaf.size orientation
        [.leaf { leaf with size := 1 / 2 }, .leaf ⟨fresh.leaf, 1 / 2, fresh.container⟩])) 0 tree
  match replaced with
  | none => throw "The pane that was split is no longer in this view."
  | some root => pure (storeTree root (layout.containers.set fresh.container emptyContainer))

/-- `isUnconfigured`, also of a container that is not there. -/
def isUnconfigured (container : Option Container) : Bool :=
  (container.bind Container.primitiveId).isNone

/-- A view whose layout is one pane, and that pane is empty. -/
def fillsPane (containers : Registry) : Node → Bool
  | .leaf l => isUnconfigured (containers.get l.containerId)
  | .split .. => false

def appendPane (layout : Layout) (fresh : FreshIds) (container : Container) :
    Except String Layout := do
  let tree ← requireTree layout
  let wrapped : Except String Layout :=
    if maxContainers < layout.containers.entries.length + 1 then throw tooManyPanes
    else if maxLayoutNodes < tree.countNodes + 2 then throw tooManyNodes
    else
      pure (storeTree
        (.split fresh.split tree.size .horizontal
          [tree.withSize (1 / 2), .leaf ⟨fresh.leaf, 1 / 2, fresh.container⟩])
        (layout.containers.set fresh.container container))
  match tree with
  | .leaf l =>
    if isUnconfigured (layout.containers.get l.containerId) then
      pure (storeTree (.leaf l) (layout.containers.set l.containerId container))
    else wrapped
  | .split .. => wrapped

mutual

/-- `withoutLeaf`; a leaf is removed whole. -/
def withoutLeaf (nodeId : NodeId) : Node → Option Node
  | .leaf _ => none
  | .split id size orientation children =>
    match withoutLeafIn nodeId children with
    | none => some (.split id size orientation children)
    | some [] => none
    | some [only] => some (only.withSize size)
    | some rest => some (.split id size orientation (renormalized rest))

/-- The children of a split without the leaf, where one of them holds it. -/
def withoutLeafIn (nodeId : NodeId) : List Node → Option (List Node)
  | [] => none
  | child :: children =>
    if (child.findLeaf nodeId).isSome then
      match withoutLeaf nodeId child with
      | none => some children
      | some replaced => some (replaced.withSize child.size :: children)
    else (withoutLeafIn nodeId children).map (child :: ·)

end

def closeLeaf (layout : Layout) (nodeId : NodeId) : Except String Layout := do
  let tree ← requireTree layout
  match tree.findLeaf nodeId with
  | none => throw "The pane that was closed is no longer in this view."
  | some leaf =>
    match withoutLeaf nodeId tree with
    | none => pure (storeTree (.leaf leaf) (.single leaf.containerId emptyContainer))
    | some remaining => pure (storeTree remaining (layout.containers.erase leaf.containerId))

def resizeSplit (layout : Layout) (splitId : NodeId) (sizes : List ℚ) : Except String Layout := do
  let tree ← requireTree layout
  let replaced ← mapSplit splitId (fun children =>
    if sizes.length ≠ children.length then
      throw "This split changed while it was being resized, so it was left alone."
    else pure (List.zipWith Node.withSize sizes children)) tree
  match replaced with
  | none => throw "The divider that moved is no longer in this view."
  | some root => pure (storeTree root layout.containers)

inductive Edit where
  | splitLeaf (nodeId : NodeId) (orientation : SplitOrientation)
  | appendPane (container : Container)
  | closeLeaf (nodeId : NodeId)
  | resizeSplit (splitId : NodeId) (sizes : List ℚ)

def Edit.apply (layout : Layout) (fresh : FreshIds) : Edit → Except String Layout
  | .splitLeaf nodeId orientation => GridLayout.splitLeaf layout fresh nodeId orientation
  | .appendPane container => GridLayout.appendPane layout fresh container
  | .closeLeaf nodeId => GridLayout.closeLeaf layout nodeId
  | .resizeSplit splitId sizes => GridLayout.resizeSplit layout splitId sizes

end Loregarden.GridLayout
