import Mathlib.Algebra.Order.BigOperators.Group.List
import Mathlib.Algebra.Order.Field.Basic
import Mathlib.Tactic.Linarith
import Mathlib.Tactic.FieldSimp
import Loregarden.GridLayoutModel

/-! # What an edited grid is saved as

The server's walk accepts a tree by what can be read off it: its node ids, the containers it places,
how deep its splits nest and how its siblings' sizes add up (`parseViewLayout_iff`). Of the client's
rewrites two put one part in the place of another (`Swap`) and one takes a leaf out
(`withoutLeaf_spec`); each is followed through those four. Every edit of every accepted layout is
accepted, except one: a pane appended to a tree that nests as deep as it may (`edits_saved_iff`). -/

namespace Loregarden.GridLayout

open List Nat
open Bool hiding and_assoc

variable {n n' part made : Node} {children : List Node} {depth : Nat} {nodeId : NodeId}
variable {id : NodeId} {size : ℚ} {orientation : SplitOrientation} {rest : List Node}
variable {containers : Registry}

/-! ## Reading a tree -/

namespace Node

theorem induct {P : Node → Prop} (leaf : ∀ l, P (.leaf l))
    (split : ∀ id size orientation children, (∀ c ∈ children, P c) →
      P (.split id size orientation children)) (n : Node) : P n := by
  refine Node.rec (motive_1 := P) (motive_2 := fun children => ∀ c ∈ children, P c) leaf split
    (forall_mem_nil _) ?_ n
  intro child children hchild hchildren
  exact forall_mem_cons.mpr ⟨hchild, hchildren⟩

mutual

/-- The ids of a tree's nodes, in the order the server claims them. -/
def ids : Node → List NodeId
  | leaf l => [l.id]
  | split id _ _ children => id :: idsAll children

def idsAll : List Node → List NodeId
  | [] => []
  | child :: children => ids child ++ idsAll children

end

mutual

/-- The panes, left to right, each with its container. -/
def panes : Node → List (NodeId × ContainerId)
  | leaf l => [(l.id, l.containerId)]
  | split _ _ _ children => panesAll children

def panesAll : List Node → List (NodeId × ContainerId)
  | [] => []
  | child :: children => panes child ++ panesAll children

end

mutual

/-- Placed at this depth, no split of the tree is too deep. -/
def fitsAt (depth : Nat) : Node → Bool
  | leaf _ => true
  | split _ _ _ children => depth < maxSplitDepth && fitsAllAt (depth + 1) children

def fitsAllAt (depth : Nat) : List Node → Bool
  | [] => true
  | child :: children => fitsAt depth child && fitsAllAt depth children

end

mutual

def sumsOk : Node → Bool
  | leaf _ => true
  | split _ _ _ children => sumsToOne children && sumsOkAll children

def sumsOkAll : List Node → Bool
  | [] => true
  | child :: children => sumsOk child && sumsOkAll children

end

def refs (n : Node) : List ContainerId := n.panes.map Prod.snd

theorem idsAll_eq (children : List Node) : idsAll children = children.flatMap ids := by
  induction children with
  | nil => rfl
  | cons child children ih => rw [idsAll, ih, flatMap_cons]

theorem panesAll_eq (children : List Node) : panesAll children = children.flatMap panes := by
  induction children with
  | nil => rfl
  | cons child children ih => rw [panesAll, ih, flatMap_cons]

theorem fieldsOkAll_iff : fieldsOkAll children = true ↔ ∀ c ∈ children, c.fieldsOk = true := by
  induction children with
  | nil => simp [fieldsOkAll]
  | cons child children ih => rw [fieldsOkAll, and_eq_true, ih, forall_mem_cons]

theorem fitsAllAt_iff :
    fitsAllAt depth children = true ↔ ∀ c ∈ children, c.fitsAt depth = true := by
  induction children with
  | nil => simp [fitsAllAt]
  | cons child children ih => rw [fitsAllAt, and_eq_true, ih, forall_mem_cons]

theorem sumsOkAll_iff : sumsOkAll children = true ↔ ∀ c ∈ children, c.sumsOk = true := by
  induction children with
  | nil => simp [sumsOkAll]
  | cons child children ih => rw [sumsOkAll, and_eq_true, ih, forall_mem_cons]

variable {id : NodeId} {size : ℚ} {orientation : SplitOrientation}

@[simp] theorem ids_split :
    (split id size orientation children).ids = id :: children.flatMap ids := by
  rw [ids, idsAll_eq]

@[simp] theorem panes_split :
    (split id size orientation children).panes = children.flatMap panes := by
  rw [panes, panesAll_eq]

theorem fieldsOk_split : (split id size orientation children).fieldsOk = true ↔
    id ≠ "" ∧ nodeSize size = true ∧ children ≠ [] ∧ ∀ c ∈ children, c.fieldsOk = true := by
  rw [fieldsOk, and_eq_true, and_eq_true, and_eq_true, fieldsOkAll_iff]
  simp [and_assoc]

theorem fitsAt_split : (split id size orientation children).fitsAt depth = true ↔
    depth < maxSplitDepth ∧ ∀ c ∈ children, c.fitsAt (depth + 1) = true := by
  rw [fitsAt, and_eq_true, fitsAllAt_iff, decide_eq_true_iff]

theorem sumsOk_split : (split id size orientation children).sumsOk = true ↔
    sumsToOne children = true ∧ ∀ c ∈ children, c.sumsOk = true := by
  rw [sumsOk, and_eq_true, sumsOkAll_iff]

theorem countAll_eq (hchildren : ∀ c ∈ children, c.countNodes = c.ids.length) :
    countAll children = (children.flatMap ids).length := by
  induction children with
  | nil => rfl
  | cons child children ih =>
    rw [countAll, hchildren child mem_cons_self,
      ih fun c hc => hchildren c (mem_cons_of_mem _ hc), flatMap_cons,
      length_append]

theorem countNodes_eq (n : Node) : n.countNodes = n.ids.length := by
  induction n using Node.induct with
  | leaf l => rfl
  | split id size orientation children ih =>
    rw [countNodes, countAll_eq ih, ids_split, length_cons, add_comm]

theorem fitsAt_mono {deeper : Nat} (n : Node) (hle : depth ≤ deeper)
    (h : n.fitsAt deeper = true) : n.fitsAt depth = true := by
  induction n using Node.induct generalizing depth deeper with
  | leaf l => rfl
  | split id size orientation children ih =>
    obtain ⟨hdepth, hchildren⟩ := fitsAt_split.mp h
    refine fitsAt_split.mpr ⟨by omega, fun c hc => ?_⟩
    exact ih c hc (succ_le_succ hle) (hchildren c hc)

variable {size' : ℚ}

@[simp] theorem size_withSize (n : Node) : (n.withSize size').size = size' := by
  cases n <;> rfl

@[simp] theorem ids_withSize (n : Node) : (n.withSize size').ids = n.ids := by
  cases n with
  | leaf l => rfl
  | split id size orientation children => rw [withSize, ids_split, ids_split]

@[simp] theorem panes_withSize (n : Node) : (n.withSize size').panes = n.panes := by
  cases n with
  | leaf l => rfl
  | split id size orientation children => rw [withSize, panes_split, panes_split]

@[simp] theorem fitsAt_withSize (n : Node) : (n.withSize size').fitsAt depth = n.fitsAt depth := by
  cases n <;> rfl

@[simp] theorem sumsOk_withSize (n : Node) : (n.withSize size').sumsOk = n.sumsOk := by
  cases n <;> rfl

theorem nodeSize_of_fieldsOk (h : n.fieldsOk = true) : 0 < n.size ∧ n.size ≤ 1 := by
  cases n with
  | leaf l =>
    rw [fieldsOk, and_eq_true, and_eq_true] at h
    exact of_decide_eq_true h.1.2
  | split id size orientation children => exact of_decide_eq_true (fieldsOk_split.mp h).2.1

theorem fieldsOk_withSize (h : n.fieldsOk = true) (hpos : 0 < size') (hle : size' ≤ 1) :
    (n.withSize size').fieldsOk = true := by
  have hsize : nodeSize size' = true := decide_eq_true ⟨hpos, hle⟩
  cases n with
  | leaf l =>
    rw [fieldsOk, and_eq_true, and_eq_true] at h
    rw [withSize, fieldsOk, and_eq_true, and_eq_true]
    exact ⟨⟨h.1.1, hsize⟩, h.2⟩
  | split id size orientation children =>
    obtain ⟨hid, -, hne, hchildren⟩ := fieldsOk_split.mp h
    exact fieldsOk_split.mpr ⟨hid, hsize, hne, hchildren⟩

end Node

open Node

/-! ## What the server's walk accepts -/

namespace StructureWalk

/-- The walk once it has claimed these nodes and these containers. -/
def extend (walk : StructureWalk) (ids : List NodeId) (refs : List ContainerId) : StructureWalk :=
  { walk with nodeIds := walk.nodeIds ++ ids, referenced := walk.referenced ++ refs }

structure Admits (walk : StructureWalk) (ids : List NodeId) (refs : List ContainerId) : Prop where
  distinct : (walk.nodeIds ++ ids).Nodup
  nodes : (walk.nodeIds ++ ids).length ≤ maxLayoutNodes
  known : ∀ c ∈ refs, c ∈ walk.known
  placed : (walk.referenced ++ refs).Nodup

variable {walk walk' : StructureWalk} {ids ids' : List NodeId} {refs refs' : List ContainerId}

theorem extend_extend : (walk.extend ids refs).extend ids' refs'
    = walk.extend (ids ++ ids') (refs ++ refs') := by
  rw [extend, extend, extend, append_assoc, append_assoc]

theorem admits_append : walk.Admits (ids ++ ids') (refs ++ refs') ↔
    walk.Admits ids refs ∧ (walk.extend ids refs).Admits ids' refs' := by
  constructor
  · rintro ⟨hids, hnodes, hknown, hrefs⟩
    rw [← append_assoc] at hids hnodes hrefs
    refine ⟨⟨(nodup_append.mp hids).1, ?_,
      fun c hc => hknown c (mem_append_left _ hc), (nodup_append.mp hrefs).1⟩, hids,
      hnodes, fun c hc => hknown c (mem_append_right _ hc), hrefs⟩
    rw [length_append] at hnodes
    omega
  · rintro ⟨⟨-, -, hknown, -⟩, hids, hnodes, hknown', hrefs⟩
    rw [extend, append_assoc] at hids hnodes hrefs
    refine ⟨hids, hnodes, fun c hc => ?_, hrefs⟩
    rcases mem_append.mp hc with hc | hc
    · exact hknown c hc
    · exact hknown' c hc

theorem claimNode_iff (h : walk.Admits [] []) : walk.claimNode nodeId = .ok walk' ↔
    walk.Admits [nodeId] [] ∧ walk' = walk.extend [nodeId] [] := by
  obtain ⟨hids, hnodes, -, hrefs⟩ := h
  rw [append_nil] at hids hnodes hrefs
  rw [claimNode]
  split
  · rename_i hmem
    refine iff_of_false nofun fun hadmits => ?_
    have hdisjoint := (nodup_append.mp hadmits.1.distinct).2.2
    exact hdisjoint _ hmem _ (mem_singleton_self _) rfl
  · rename_i hmem
    split
    · refine iff_of_false nofun fun hadmits => ?_
      have hlength := hadmits.1.nodes
      rw [length_append, length_singleton] at hlength
      omega
    · have hadmits : walk.Admits [nodeId] [] := by
        refine ⟨?_, ?_, forall_mem_nil _, by simpa using hrefs⟩
        · refine nodup_append.mpr ⟨hids, pairwise_singleton _ _, ?_⟩
          rintro a ha b hb rfl
          exact hmem (mem_singleton.mp hb ▸ ha)
        · rw [length_append, length_singleton]
          omega
      constructor
      · intro heq
        cases heq
        refine ⟨hadmits, ?_⟩
        rw [extend, append_nil]
      · rintro ⟨-, rfl⟩
        rw [extend, append_nil]
        rfl

theorem claimContainer_iff {c : ContainerId} (h : walk.Admits [] []) :
    walk.claimContainer c = .ok walk' ↔ walk.Admits [] [c] ∧ walk' = walk.extend [] [c] := by
  obtain ⟨hids, hnodes, -, hrefs⟩ := h
  rw [append_nil] at hrefs
  rw [claimContainer]
  split
  · rename_i hunknown
    refine iff_of_false nofun fun hadmits => ?_
    exact hunknown (hadmits.1.known c (mem_singleton_self _))
  · rename_i hknown
    split
    · rename_i hmem
      refine iff_of_false nofun fun hadmits => ?_
      have hdisjoint := (nodup_append.mp hadmits.1.placed).2.2
      exact hdisjoint _ hmem _ (mem_singleton_self _) rfl
    · rename_i hmem
      have hadmits : walk.Admits [] [c] := by
        refine ⟨hids, hnodes, ?_, ?_⟩
        · intro d hd
          rw [mem_singleton.mp hd]
          exact not_not.mp hknown
        · refine nodup_append.mpr ⟨hrefs, pairwise_singleton _ _, ?_⟩
          rintro a ha b hb rfl
          exact hmem (mem_singleton.mp hb ▸ ha)
      constructor
      · intro heq
        cases heq
        refine ⟨hadmits, ?_⟩
        rw [extend, append_nil]
      · rintro ⟨-, rfl⟩
        rw [extend, append_nil]
        rfl

end StructureWalk

open StructureWalk

theorem claimDepth_iff : claimDepth depth nodeId = .ok () ↔ depth < maxSplitDepth := by
  rw [claimDepth]
  split
  · rename_i hdeep
    exact iff_of_false nofun (by omega)
  · exact iff_of_true rfl (by omega)

theorem bind_eq_ok {α β : Type} {x : Except String α} {f : α → Except String β} {b : β} :
    (x >>= f) = .ok b ↔ ∃ a, x = .ok a ∧ f a = .ok b := by
  cases x with
  | error e => exact iff_of_false nofun fun ⟨_, h, _⟩ => nomatch h
  | ok a =>
    constructor
    · intro h
      exact ⟨a, rfl, h⟩
    · rintro ⟨_, heq, h⟩
      cases heq
      exact h

def WalkSpec (n : Node) : Prop :=
  ∀ (walk : StructureWalk) (depth : Nat) (walk' : StructureWalk), walk.Admits [] [] →
    (walkStructure walk depth n = .ok walk' ↔
      (n.fitsAt depth = true ∧ n.sumsOk = true) ∧ walk.Admits n.ids n.refs ∧
        walk' = walk.extend n.ids n.refs)

theorem admits_nil_of {walk : StructureWalk} {ids : List NodeId} {refs : List ContainerId}
    (h : walk.Admits ids refs) : (walk.extend ids refs).Admits [] [] := by
  refine (admits_append.mp ?_).2
  rw [append_nil, append_nil]
  exact h

theorem walkChildren_spec (hchildren : ∀ c ∈ children, WalkSpec c) (walk : StructureWalk)
    (depth : Nat) (walk' : StructureWalk) (h : walk.Admits [] []) :
    walkChildren walk depth children = .ok walk' ↔
      ((∀ c ∈ children, c.fitsAt depth = true) ∧ ∀ c ∈ children, c.sumsOk = true) ∧
        walk.Admits (children.flatMap Node.ids) (children.flatMap Node.refs) ∧
        walk' = walk.extend (children.flatMap Node.ids) (children.flatMap Node.refs) := by
  induction children generalizing walk with
  | nil =>
    have hself : walk.extend [] [] = walk := by rw [extend, append_nil, append_nil]
    constructor
    · intro heq
      cases heq
      exact ⟨⟨forall_mem_nil _, forall_mem_nil _⟩, h, hself.symm⟩
    · rintro ⟨-, -, rfl⟩
      exact congrArg Except.ok hself.symm
  | cons child children ih =>
    have hrest := ih fun c hc => hchildren c (mem_cons_of_mem _ hc)
    rw [walkChildren, bind_eq_ok, flatMap_cons, flatMap_cons, forall_mem_cons,
      forall_mem_cons, admits_append]
    constructor
    · rintro ⟨walked, hwalked, hwalk'⟩
      obtain ⟨⟨hfits, hsums⟩, hadmits, rfl⟩ :=
        (hchildren child mem_cons_self walk depth walked h).mp hwalked
      obtain ⟨⟨hfits', hsums'⟩, hadmits', rfl⟩ := (hrest _ (admits_nil_of hadmits)).mp hwalk'
      exact ⟨⟨⟨hfits, hfits'⟩, hsums, hsums'⟩, ⟨hadmits, hadmits'⟩, extend_extend⟩
    · rintro ⟨⟨⟨hfits, hfits'⟩, hsums, hsums'⟩, ⟨hadmits, hadmits'⟩, rfl⟩
      refine ⟨walk.extend child.ids child.refs, ?_, ?_⟩
      · exact (hchildren child mem_cons_self walk depth _ h).mpr
          ⟨⟨hfits, hsums⟩, hadmits, rfl⟩
      · exact (hrest _ (admits_nil_of hadmits)).mpr
          ⟨⟨hfits', hsums'⟩, hadmits', extend_extend.symm⟩

theorem refs_split :
    (Node.split id size orientation children).refs = children.flatMap Node.refs := by
  rw [Node.refs, panes_split, map_flatMap]
  rfl

/-- **The walk accepts what it can claim**, and claims a tree's ids and containers in order. -/
theorem walkStructure_spec (n : Node) : WalkSpec n := by
  induction n using Node.induct with
  | leaf l =>
    intro walk depth walk' h
    have hsplit : walk.Admits [l.id] [l.containerId] ↔
        walk.Admits [l.id] [] ∧ (walk.extend [l.id] []).Admits [] [l.containerId] :=
      @admits_append walk [l.id] [] [] [l.containerId]
    have hextend : (walk.extend [l.id] []).extend [] [l.containerId]
        = walk.extend [l.id] [l.containerId] := extend_extend
    rw [walkStructure, bind_eq_ok]
    show _ ↔ _ ∧ walk.Admits [l.id] [l.containerId] ∧ walk' = walk.extend [l.id] [l.containerId]
    rw [hsplit, ← hextend]
    constructor
    · rintro ⟨claimed, hclaimed, hwalk'⟩
      obtain ⟨hadmits, rfl⟩ := (claimNode_iff h).mp hclaimed
      obtain ⟨hadmits', rfl⟩ := (claimContainer_iff (admits_nil_of hadmits)).mp hwalk'
      exact ⟨⟨rfl, rfl⟩, ⟨hadmits, hadmits'⟩, rfl⟩
    · rintro ⟨-, ⟨hadmits, hadmits'⟩, rfl⟩
      exact ⟨_, (claimNode_iff h).mpr ⟨hadmits, rfl⟩,
        (claimContainer_iff (admits_nil_of hadmits)).mpr ⟨hadmits', rfl⟩⟩
  | split id size orientation children ih =>
    intro walk depth walk' h
    have hsplit : walk.Admits (id :: children.flatMap Node.ids) (children.flatMap Node.refs) ↔
        walk.Admits [id] [] ∧ (walk.extend [id] []).Admits (children.flatMap Node.ids)
          (children.flatMap Node.refs) :=
      @admits_append walk [id] (children.flatMap Node.ids) [] (children.flatMap Node.refs)
    have hextend : (walk.extend [id] []).extend (children.flatMap Node.ids)
        (children.flatMap Node.refs)
        = walk.extend (id :: children.flatMap Node.ids) (children.flatMap Node.refs) :=
      extend_extend
    rw [walkStructure, bind_eq_ok, fitsAt_split, sumsOk_split, ids_split, refs_split, hsplit,
      ← hextend]
    constructor
    · rintro ⟨⟨⟩, hdepth, hrest⟩
      obtain ⟨claimed, hclaimed, hrest⟩ := bind_eq_ok.mp hrest
      obtain ⟨hadmits, rfl⟩ := (claimNode_iff h).mp hclaimed
      split at hrest
      · rename_i hsum
        obtain ⟨⟨hfits, hsums⟩, hadmits', rfl⟩ :=
          (walkChildren_spec ih _ _ _ (admits_nil_of hadmits)).mp hrest
        exact ⟨⟨⟨claimDepth_iff.mp hdepth, hfits⟩, hsum, hsums⟩, ⟨hadmits, hadmits'⟩, rfl⟩
      · cases hrest
    · rintro ⟨⟨⟨hdepth, hfits⟩, hsum, hsums⟩, ⟨hadmits, hadmits'⟩, rfl⟩
      refine ⟨(), claimDepth_iff.mpr hdepth, bind_eq_ok.mpr ⟨_, (claimNode_iff h).mpr
        ⟨hadmits, rfl⟩, ?_⟩⟩
      rw [if_pos hsum]
      exact (walkChildren_spec ih _ _ _ (admits_nil_of hadmits)).mpr
        ⟨⟨hfits, hsums⟩, hadmits', rfl⟩

/-- A layout the server accepts, by what can be read off it. -/
structure Accepted (layout : Layout) : Prop where
  fields : layout.root.fieldsOk = true
  rootSize : |layout.root.size - 1| ≤ sizeSumTolerance
  fits : layout.root.fitsAt 0 = true
  sums : layout.root.sumsOk = true
  distinct : layout.root.ids.Nodup
  nodes : layout.root.ids.length ≤ maxLayoutNodes
  placed : layout.root.refs.Nodup
  panes : layout.root.refs.length ≤ maxContainers
  known : ∀ c, c ∈ layout.containers.keys ↔ c ∈ layout.root.refs
  named : "" ∉ layout.root.refs

theorem length_eq_of_mem {α : Type*} {l m : List α} (hl : l.Nodup) (hm : m.Nodup)
    (h : ∀ x, x ∈ l ↔ x ∈ m) : l.length = m.length :=
  ((perm_ext_iff_of_nodup hl hm).mpr h).length_eq

theorem parseViewLayout_iff {layout : Layout} :
    parseViewLayout layout = .ok layout ↔ Accepted layout := by
  have hbase : ({ known := layout.containers.keys } : StructureWalk).Admits [] [] :=
    ⟨nodup_nil, zero_le _, forall_mem_nil _, nodup_nil⟩
  rw [parseViewLayout]
  constructor
  · intro h
    split at h
    · cases h
    rename_i hfields
    split at h
    · cases h
    rename_i hroot
    obtain ⟨walked, hwalked, h⟩ := bind_eq_ok.mp h
    obtain ⟨⟨⟩, hfinish, -⟩ := bind_eq_ok.mp h
    obtain ⟨⟨hfits, hsums⟩, hadmits, rfl⟩ := (walkStructure_spec _ _ _ _ hbase).mp hwalked
    have hknown : ∀ c, c ∈ layout.containers.keys ↔ c ∈ layout.root.refs := by
      intro c
      constructor
      · intro hc
        rw [StructureWalk.finish] at hfinish
        split at hfinish
        · rename_i hall
          exact of_decide_eq_true (all_eq_true.mp hall c hc)
        · cases hfinish
      · exact hadmits.known c
    have hplaced : layout.root.refs.Nodup := hadmits.placed
    have hlength := length_eq_of_mem layout.containers.nodup hplaced hknown
    have hcount : ¬maxContainers < layout.containers.keys.length :=
      fun hlt => hfields (.inr (.inl hlt))
    refine ⟨?_, not_lt.mp hroot, hfits, hsums, hadmits.distinct, hadmits.nodes, hplaced, ?_,
      hknown, fun hmem => hfields (.inl ((hknown _).mpr hmem))⟩
    · by_contra hnot
      exact hfields (.inr (.inr (by simpa using hnot)))
    · rw [← hlength]
      exact Nat.le_of_not_lt hcount
  · intro h
    have hlength : layout.containers.keys.length = layout.root.refs.length :=
      length_eq_of_mem layout.containers.nodup h.placed h.known
    rw [if_neg, if_neg (not_lt.mpr h.rootSize)]
    · have hadmits : ({ known := layout.containers.keys } : StructureWalk).Admits
          layout.root.ids layout.root.refs :=
        ⟨h.distinct, h.nodes, fun c hc => (h.known c).mpr hc, h.placed⟩
      refine bind_eq_ok.mpr ⟨_, (walkStructure_spec _ _ _ _ hbase).mpr
        ⟨⟨h.fits, h.sums⟩, hadmits, rfl⟩, bind_eq_ok.mpr ⟨(), ?_, rfl⟩⟩
      exact if_pos (all_eq_true.mpr fun c hc => decide_eq_true ((h.known c).mp hc))
    · rintro (hempty | hcount | hfields)
      · exact h.named ((h.known _).mp hempty)
      · rw [hlength] at hcount
        exact Nat.not_lt_of_le h.panes hcount
      · rw [h.fields] at hfields
        cases hfields

theorem sizeOf_eq {siblings : Nat} (h : 0 < size) : sizeOf size siblings = size :=
  if_neg (not_le.mpr h)

theorem parseNode_eq (n : Node) (siblings : Nat) (h : n.fieldsOk = true) :
    parseNode siblings n = some n := by
  induction n using Node.induct generalizing siblings with
  | leaf l =>
    rw [fieldsOk, and_eq_true, and_eq_true] at h
    obtain ⟨⟨hid, hsize⟩, hcontainer⟩ := h
    rw [parseNode, if_neg (by simpa using hid), if_neg (by simpa using hcontainer),
      sizeOf_eq (of_decide_eq_true hsize).1]
  | split id size orientation children ih =>
    obtain ⟨hid, hsize, hne, hchildren⟩ := fieldsOk_split.mp h
    have hparsed : ∀ (siblings : Nat) (l : List Node), (∀ c ∈ l, c ∈ children) →
        parseNodes siblings l = l := by
      intro siblings l hl
      induction l with
      | nil => rfl
      | cons child l ihl =>
        have hchild := hl child mem_cons_self
        rw [parseNodes, ih child hchild siblings (hchildren child hchild),
          ihl fun c hc => hl c (mem_cons_of_mem _ hc)]
        rfl
    rw [parseNode, if_neg hid, hparsed _ children fun c hc => hc,
      sizeOf_eq (of_decide_eq_true hsize).1]
    cases children with
    | nil => exact absurd rfl hne
    | cons child children => rfl

theorem requireTree_eq {layout : Layout} (h : Accepted layout) :
    requireTree layout = .ok layout.root := by
  rw [requireTree, readGridTree, parseNode_eq layout.root 1 h.fields]
  rfl

/-- `n'` is `n` at this depth with `made` standing for `part`, `k` levels down from the root, in
    the slot that `part` had. -/
inductive Swap (k : Nat) (part made : Node) : Nat → Node → Node → Prop where
  | here : Swap k part made k part made
  | child {depth : Nat} {id : NodeId} {size : ℚ} {orientation : SplitOrientation}
      {before after : List Node} {c r : Node} (swapped : Swap k part made (depth + 1) c r) :
      Swap k part made depth (.split id size orientation (before ++ c :: after))
        (.split id size orientation (before ++ r.withSize c.size :: after))

namespace Swap

variable {k : Nat}

section

variable (h : Swap k part made depth n n')
include h

theorem ids_eq :
    ∃ before after, n.ids = before ++ part.ids ++ after ∧ n'.ids = before ++ made.ids ++ after := by
  induction h with
  | here => exact ⟨[], [], by simp, by simp⟩
  | @child depth id size orientation left right c r _ ih =>
    obtain ⟨before, after, hn, hn'⟩ := ih
    refine ⟨id :: left.flatMap Node.ids ++ before, after ++ right.flatMap Node.ids, ?_, ?_⟩
    · simp [hn]
    · simp [hn']

theorem panes_eq : ∃ before after, n.panes = before ++ part.panes ++ after ∧
      n'.panes = before ++ made.panes ++ after := by
  induction h with
  | here => exact ⟨[], [], by simp, by simp⟩
  | @child depth id size orientation left right c r _ ih =>
    obtain ⟨before, after, hn, hn'⟩ := ih
    refine ⟨left.flatMap Node.panes ++ before, after ++ right.flatMap Node.panes, ?_, ?_⟩
    · simp [hn]
    · simp [hn']

theorem fieldsOk (hmade : part.fieldsOk = true → made.fieldsOk = true) (hn : n.fieldsOk = true) :
    n'.fieldsOk = true := by
  induction h with
  | here => exact hmade hn
  | @child depth id size orientation left right c r _ ih =>
    obtain ⟨hid, hsize, -, hchildren⟩ := fieldsOk_split.mp hn
    have hc := hchildren c (mem_append_right _ mem_cons_self)
    obtain ⟨hpos, hle⟩ := nodeSize_of_fieldsOk hc
    refine fieldsOk_split.mpr ⟨hid, hsize, by simp, fun d hd => ?_⟩
    rcases mem_append.mp hd with hd | hd
    · exact hchildren d (mem_append_left _ hd)
    · rcases mem_cons.mp hd with rfl | hd
      · exact fieldsOk_withSize (ih hc) hpos hle
      · exact hchildren d (mem_append_right _ (mem_cons_of_mem _ hd))

theorem fitsAt (hmade : part.fitsAt k = true → made.fitsAt k = true) (hn : n.fitsAt depth = true) :
    n'.fitsAt depth = true := by
  induction h with
  | here => exact hmade hn
  | @child depth id size orientation left right c r _ ih =>
    obtain ⟨hdepth, hchildren⟩ := fitsAt_split.mp hn
    refine fitsAt_split.mpr ⟨hdepth, fun d hd => ?_⟩
    rcases mem_append.mp hd with hd | hd
    · exact hchildren d (mem_append_left _ hd)
    · rcases mem_cons.mp hd with rfl | hd
      · rw [fitsAt_withSize]
        exact ih (hchildren c (mem_append_right _ mem_cons_self))
      · exact hchildren d (mem_append_right _ (mem_cons_of_mem _ hd))

theorem sumsOk (hmade : part.sumsOk = true → made.sumsOk = true) (hn : n.sumsOk = true) :
    n'.sumsOk = true := by
  induction h with
  | here => exact hmade hn
  | @child depth id size orientation left right c r _ ih =>
    obtain ⟨hsum, hchildren⟩ := sumsOk_split.mp hn
    -- what is put in the slot takes the slot's size
    have hsizes : (left ++ r.withSize c.size :: right).map Node.size
        = (left ++ c :: right).map Node.size := by simp
    refine sumsOk_split.mpr ⟨?_, fun d hd => ?_⟩
    · rw [sumsToOne, hsizes]
      exact hsum
    · rcases mem_append.mp hd with hd | hd
      · exact hchildren d (mem_append_left _ hd)
      · rcases mem_cons.mp hd with rfl | hd
        · rw [sumsOk_withSize]
          exact ih (hchildren c (mem_append_right _ mem_cons_self))
        · exact hchildren d (mem_append_right _ (mem_cons_of_mem _ hd))

end

end Swap

variable {make : GridLeaf → Nat → Except String Node}

/-- The first child for which `replace` has an answer, replaced by it. -/
def replacedIn (replace : Node → Except String (Option Node)) :
    List Node → Except String (Option (List Node))
  | [] => pure none
  | child :: children => do
      match ← replace child with
      | some replaced => return some (replaced.withSize child.size :: children)
      | none => return (← replacedIn replace children).map (child :: ·)

theorem replaceLeafIn_eq : replaceLeafIn nodeId make depth children =
    replacedIn (replaceLeaf nodeId make depth) children := by
  induction children with
  | nil => rfl
  | cons child children ih =>
    rewrite [replaceLeafIn, replacedIn, ih]
    rfl

theorem mapSplitIn_eq : mapSplitIn nodeId makeChildren children =
    replacedIn (mapSplit nodeId makeChildren) children := by
  induction children with
  | nil => rfl
  | cons child children ih =>
    rewrite [mapSplitIn, replacedIn, ih]
    rfl

theorem replacedIn_ok {replace : Node → Except String (Option Node)} {children' : List Node}
    (h : replacedIn replace children = .ok (some children')) :
    ∃ before c after r, children = before ++ c :: after ∧
      children' = before ++ r.withSize c.size :: after ∧ replace c = .ok (some r) := by
  induction children generalizing children' with
  | nil => cases h
  | cons child children ih =>
    obtain ⟨answer, hchild, h⟩ := bind_eq_ok.mp h
    cases answer with
    | some r =>
      cases h
      exact ⟨[], child, children, r, rfl, rfl, hchild⟩
    | none =>
      obtain ⟨answer, hrest, h⟩ := bind_eq_ok.mp h
      cases answer with
      | none => cases h
      | some rest =>
        cases h
        obtain ⟨before, c, after, r, hchildren, hrest', hc⟩ := ih hrest
        refine ⟨child :: before, c, after, r, ?_, ?_, hc⟩
        · rw [hchildren, cons_append]
        · rw [hrest', cons_append]

theorem replaceLeaf_ok (n : Node) (h : replaceLeaf nodeId make depth n = .ok (some n')) :
    ∃ leaf k made, leaf.id = nodeId ∧ make leaf k = .ok made ∧
      Swap k (.leaf leaf) made depth n n' := by
  induction n using Node.induct generalizing depth n' with
  | leaf l =>
    rw [replaceLeaf] at h
    split at h
    · rename_i hid
      obtain ⟨made, hmade, h⟩ := bind_eq_ok.mp h
      cases h
      exact ⟨l, depth, n', hid, hmade, .here⟩
    · cases h
  | split id size orientation children ih =>
    obtain ⟨answer, hchildren, h⟩ := bind_eq_ok.mp h
    cases answer with
    | none => cases h
    | some children' =>
      cases h
      obtain ⟨before, c, after, r, rfl, rfl, hc⟩ := replacedIn_ok (replaceLeafIn_eq ▸ hchildren)
      obtain ⟨leaf, k, made, hid, hmade, hswap⟩ := ih c (mem_append_right _ mem_cons_self) hc
      exact ⟨leaf, k, made, hid, hmade, .child hswap⟩

variable {makeChildren : List Node → Except String (List Node)}

theorem mapSplit_ok (n : Node) (depth : Nat) (h : mapSplit nodeId makeChildren n = .ok (some n')) :
    ∃ k size orientation children children', makeChildren children = .ok children' ∧
      Swap k (.split nodeId size orientation children) (.split nodeId size orientation children')
        depth n n' := by
  induction n using Node.induct generalizing depth n' with
  | leaf l => cases h
  | split id size orientation children ih =>
    rw [mapSplit] at h
    split at h
    · rename_i hid
      obtain ⟨children', hmade, h⟩ := bind_eq_ok.mp h
      cases h
      subst hid
      exact ⟨depth, size, orientation, children, children', hmade, .here⟩
    · obtain ⟨answer, hchildren, h⟩ := bind_eq_ok.mp h
      cases answer with
      | none => cases h
      | some children' =>
        cases h
        obtain ⟨before, c, after, r, rfl, rfl, hc⟩ := replacedIn_ok (mapSplitIn_eq ▸ hchildren)
        obtain ⟨k, size', orientation', part, made, hmade, hswap⟩ :=
          ih c (mem_append_right _ mem_cons_self) (depth + 1) hc
        exact ⟨k, size', orientation', part, made, hmade, .child hswap⟩

/-! ## Taking a leaf out -/

theorem sum_map_div (l : List ℚ) (t : ℚ) : (l.map (· / t)).sum = l.sum / t := by
  induction l with
  | nil => simp
  | cons x l ih => rw [map_cons, sum_cons, ih, sum_cons, add_div]

theorem renormalized_eq_map (children : List Node) :
    ∃ f : Node → ℚ, renormalized children = children.map fun c => c.withSize (f c) := by
  rw [renormalized]
  split
  · exact ⟨_, rfl⟩
  · exact ⟨_, rfl⟩

theorem renormalized_spec (hfields : ∀ c ∈ children, c.fieldsOk = true) (hne : children ≠ []) :
    sumsToOne (renormalized children) = true ∧ ∀ c ∈ renormalized children, c.fieldsOk = true := by
  have hpos : ∀ x ∈ children.map Node.size, 0 < x := by
    intro x hx
    obtain ⟨c, hc, rfl⟩ := mem_map.mp hx
    exact (nodeSize_of_fieldsOk (hfields c hc)).1
  have htotal : 0 < (children.map Node.size).sum := sum_pos _ hpos (by simpa using hne)
  have hscaled : renormalized children
      = children.map fun c => c.withSize (c.size / (children.map Node.size).sum) :=
    if_neg (not_le.mpr htotal)
  constructor
  · have hsizes : (renormalized children).map Node.size
        = (children.map Node.size).map (· / (children.map Node.size).sum) := by
      rw [hscaled, map_map, map_map]
      exact map_congr_left fun c _ => size_withSize c
    rw [sumsToOne, hsizes, sum_map_div, div_self (ne_of_gt htotal)]
    decide +kernel
  · intro c hc
    rw [hscaled] at hc
    obtain ⟨d, hd, rfl⟩ := mem_map.mp hc
    have hsize := (nodeSize_of_fieldsOk (hfields d hd)).1
    refine fieldsOk_withSize (hfields d hd) (div_pos hsize htotal) ((div_le_one htotal).mpr ?_)
    exact single_le_sum (fun x hx => (hpos x hx).le) _ (mem_map_of_mem hd)

/-- What is left of some trees once the pane of a leaf is out of them. -/
structure Remains (leaf : GridLeaf) (whole rest : List Node) : Prop where
  panes : ∃ before after, whole.flatMap Node.panes
      = before ++ (leaf.id, leaf.containerId) :: after ∧
    rest.flatMap Node.panes = before ++ after
  ids : (rest.flatMap Node.ids).Sublist (whole.flatMap Node.ids)
  fits : ∀ depth, (∀ c ∈ whole, c.fitsAt depth = true) → ∀ c ∈ rest, c.fitsAt depth = true
  sound : (∀ c ∈ whole, c.fieldsOk = true ∧ c.sumsOk = true) →
    ∀ c ∈ rest, c.fieldsOk = true ∧ c.sumsOk = true

theorem Remains.among {leaf : GridLeaf} {whole : List Node} (before after : List Node)
    (h : Remains leaf whole rest) :
    Remains leaf (before ++ whole ++ after) (before ++ rest ++ after) := by
  obtain ⟨left, right, hwhole, hrest⟩ := h.panes
  have hwithout : ∀ {P : Node → Prop}, ((∀ d ∈ whole, P d) → ∀ d ∈ rest, P d) →
      (∀ d ∈ before ++ whole ++ after, P d) → ∀ d ∈ before ++ rest ++ after, P d := by
    intro P hP hall d hd
    rw [append_assoc] at hd hall
    rcases mem_append.mp hd with hd | hd
    · exact hall d (mem_append_left _ hd)
    · rcases mem_append.mp hd with hd | hd
      · refine hP (fun c hc => hall c ?_) d hd
        exact mem_append_right _ (mem_append_left _ hc)
      · exact hall d (mem_append_right _ (mem_append_right _ hd))
  refine ⟨⟨before.flatMap Node.panes ++ left, right ++ after.flatMap Node.panes, ?_, ?_⟩, ?_,
    fun depth => hwithout (h.fits depth), hwithout h.sound⟩
  · simp [hwhole]
  · simp [hrest]
  · rw [flatMap_append, flatMap_append, flatMap_append, flatMap_append]
    exact ((List.Sublist.refl _).append h.ids).append (List.Sublist.refl _)

theorem Remains.withSize {leaf : GridLeaf} {whole : List Node} {r : Node}
    (h : Remains leaf whole [r]) (hsize : (∀ c ∈ whole, c.fieldsOk = true) → 0 < size ∧ size ≤ 1) :
    Remains leaf whole [r.withSize size] := by
  refine ⟨by simpa using h.panes, by simpa using h.ids, fun depth hwhole c hc => ?_,
    fun hwhole c hc => ?_⟩
  · rw [mem_singleton.mp hc, fitsAt_withSize]
    exact h.fits depth hwhole r (mem_singleton_self r)
  · obtain ⟨hpos, hle⟩ := hsize fun d hd => (hwhole d hd).1
    obtain ⟨hfields, hsums⟩ := h.sound hwhole r (mem_singleton_self r)
    rw [mem_singleton.mp hc, sumsOk_withSize]
    exact ⟨fieldsOk_withSize hfields hpos hle, hsums⟩

theorem Remains.promoted {leaf : GridLeaf} (h : Remains leaf children rest) :
    Remains leaf [.split id size orientation children] rest := by
  obtain ⟨hpanes, hids, hfits, hsound⟩ := h
  refine ⟨by simpa using hpanes, ?_, fun depth hwhole c hc => ?_, fun hwhole => ?_⟩
  · rw [flatMap_singleton, ids_split]
    exact hids.cons id
  · have hwhole := hwhole _ (mem_singleton_self _)
    exact fitsAt_mono c (le_succ depth) (hfits _ (fitsAt_split.mp hwhole).2 c hc)
  · obtain ⟨hfields, hsums⟩ := hwhole _ (mem_singleton_self _)
    exact hsound fun c hc => ⟨(fieldsOk_split.mp hfields).2.2.2 c hc,
      (sumsOk_split.mp hsums).2 c hc⟩

theorem Remains.scaled {leaf : GridLeaf} (h : Remains leaf children rest) (hne : rest ≠ []) :
    Remains leaf [.split id size orientation children]
      [.split id size orientation (renormalized rest)] := by
  obtain ⟨hpanes, hids, hfits, hsound⟩ := h
  obtain ⟨f, hf⟩ := renormalized_eq_map rest
  have hsamePanes : (renormalized rest).flatMap Node.panes = rest.flatMap Node.panes := by
    rw [hf, flatMap_map]
    exact flatMap_congr fun c _ => panes_withSize c
  have hsameIds : (renormalized rest).flatMap Node.ids = rest.flatMap Node.ids := by
    rw [hf, flatMap_map]
    exact flatMap_congr fun c _ => ids_withSize c
  refine ⟨?_, ?_, fun depth hwhole c hc => ?_, fun hwhole c hc => ?_⟩
  · rw [flatMap_singleton, flatMap_singleton, panes_split, panes_split, hsamePanes]
    exact hpanes
  · rw [flatMap_singleton, flatMap_singleton, ids_split, ids_split, hsameIds]
    exact hids.cons_cons id
  · obtain ⟨hdepth, hchildren⟩ := fitsAt_split.mp (hwhole _ (mem_singleton_self _))
    rw [mem_singleton.mp hc]
    refine fitsAt_split.mpr ⟨hdepth, fun d hd => ?_⟩
    rw [hf] at hd
    obtain ⟨e, he, rfl⟩ := mem_map.mp hd
    rw [fitsAt_withSize]
    exact hfits _ hchildren e he
  · obtain ⟨hfields, hsums⟩ := hwhole _ (mem_singleton_self _)
    obtain ⟨hid, hsize, -, hchildren⟩ := fieldsOk_split.mp hfields
    have hrest := hsound fun d hd => ⟨hchildren d hd, (sumsOk_split.mp hsums).2 d hd⟩
    obtain ⟨hsum, hscaled⟩ := renormalized_spec (fun d hd => (hrest d hd).1) hne
    rw [mem_singleton.mp hc]
    refine ⟨fieldsOk_split.mpr ⟨hid, hsize, ?_, hscaled⟩, sumsOk_split.mpr ⟨hsum, ?_⟩⟩
    · rw [hf]
      simpa using hne
    · intro d hd
      rw [hf] at hd
      obtain ⟨e, he, rfl⟩ := mem_map.mp hd
      rw [sumsOk_withSize]
      exact (hrest e he).2

/-- What `withoutLeaf` leaves of a tree that holds the leaf. -/
def WithoutSpec (nodeId : NodeId) (n : Node) : Prop :=
  ∀ leaf, n.findLeaf nodeId = some leaf → Remains leaf [n] (withoutLeaf nodeId n).toList

theorem withoutLeafIn_spec {leaf : GridLeaf} (hchildren : ∀ c ∈ children, WithoutSpec nodeId c)
    (h : findLeafIn nodeId children = some leaf) :
    ∃ rest, withoutLeafIn nodeId children = some rest ∧ Remains leaf children rest := by
  induction children with
  | nil => cases h
  | cons child children ih =>
    rw [findLeafIn] at h
    rw [withoutLeafIn]
    cases hfound : child.findLeaf nodeId with
    | some found =>
      rw [hfound] at h
      cases h
      have hremains := hchildren child mem_cons_self leaf hfound
      cases hwithout : withoutLeaf nodeId child with
      | none =>
        rw [hwithout] at hremains
        exact ⟨children, rfl, hremains.among [] children⟩
      | some replaced =>
        rw [hwithout] at hremains
        refine ⟨_, rfl, (hremains.withSize ?_).among [] children⟩
        intro hfields
        exact nodeSize_of_fieldsOk (hfields child (mem_singleton_self child))
    | none =>
      rw [hfound] at h
      obtain ⟨rest, hrest, hremains⟩ := ih
        (fun c hc => hchildren c (mem_cons_of_mem _ hc)) h
      rw [if_neg (show ¬(none : Option GridLeaf).isSome = true from false_ne_true), hrest]
      refine ⟨child :: rest, rfl, ?_⟩
      have hamong := hremains.among [child] []
      rw [append_nil, append_nil] at hamong
      exact hamong

theorem withoutLeaf_spec (n : Node) : WithoutSpec nodeId n := by
  induction n using Node.induct with
  | leaf l =>
    intro leaf h
    rw [findLeaf] at h
    split at h
    · cases h
      exact ⟨⟨[], [], rfl, rfl⟩, nil_sublist _, fun _ _ => forall_mem_nil _,
        fun _ => forall_mem_nil _⟩
    · cases h
  | split id size orientation children ih =>
    intro leaf h
    obtain ⟨rest, hrest, hremains⟩ := withoutLeafIn_spec ih h
    rw [withoutLeaf, hrest]
    cases rest with
    | nil => exact hremains.promoted
    | cons only others =>
      cases others with
      | nil =>
        have hup : Remains leaf [.split id size orientation children] [only] := hremains.promoted
        refine hup.withSize fun hfields => ?_
        exact nodeSize_of_fieldsOk (hfields _ (mem_singleton_self _))
      | cons other others => exact hremains.scaled (cons_ne_nil _ _)

variable {layout after : Layout} {fresh : FreshIds} {container : Container} {c d : ContainerId}

theorem mem_keys_erase {r : Registry} : d ∈ (r.erase c).keys ↔ d ∈ r.keys ∧ d ≠ c := by
  constructor
  · intro h
    obtain ⟨entry, hentry, rfl⟩ := mem_map.mp h
    obtain ⟨hmem, hne⟩ := mem_filter.mp hentry
    exact ⟨mem_map_of_mem hmem, of_decide_eq_true hne⟩
  · rintro ⟨h, hne⟩
    obtain ⟨entry, hentry, rfl⟩ := mem_map.mp h
    exact mem_map_of_mem (mem_filter.mpr ⟨hentry, decide_eq_true hne⟩)

theorem mem_keys_set {r : Registry} : d ∈ (r.set c container).keys ↔ d = c ∨ d ∈ r.keys := by
  have hcons : (r.set c container).keys = c :: (r.erase c).keys := rfl
  rw [hcons, mem_cons, mem_keys_erase]
  constructor
  · rintro (h | ⟨h, -⟩)
    · exact .inl h
    · exact .inr h
  · intro h
    by_cases hdc : d = c
    · exact .inl hdc
    · exact .inr ⟨h.resolve_left hdc, hdc⟩

theorem Accepted.keys_length (h : Accepted layout) :
    layout.containers.entries.length = layout.root.refs.length := by
  rw [← length_eq_of_mem layout.containers.nodup h.placed h.known, length_map]

/-! ## Each edit -/

/-- What one call may be handed: new ids, and sizes that fill a split. -/
structure Admissible (layout : Layout) (fresh : FreshIds) (edit : Edit) : Prop where
  container : fresh.container ∉ layout.containers.keys ∧ fresh.container ≠ ""
  split : fresh.split ∉ layout.root.ids ∧ fresh.split ≠ ""
  leaf : fresh.leaf ∉ layout.root.ids ∧ fresh.leaf ≠ "" ∧ fresh.leaf ≠ fresh.split
  sizes : ∀ splitId sizes, edit = .resizeSplit splitId sizes →
    (∀ size ∈ sizes, 0 < size) ∧ sizes.sum = 1

theorem rootSize_storeTree {tree : Node} :
    |(storeTree tree containers).root.size - 1| ≤ sizeSumTolerance := by
  rw [storeTree, size_withSize, sub_self, abs_zero]
  decide +kernel

theorem accepted_storeTree {tree : Node} (hfields : tree.fieldsOk = true)
    (hfits : tree.fitsAt 0 = true) (hsums : tree.sumsOk = true) (hids : tree.ids.Nodup)
    (hnodes : tree.ids.length ≤ maxLayoutNodes) (hplaced : tree.refs.Nodup)
    (hpanes : tree.refs.length ≤ maxContainers) (hknown : ∀ c, c ∈ containers.keys ↔ c ∈ tree.refs)
    (hnamed : "" ∉ tree.refs) : Accepted (storeTree tree containers) := by
  have hrefs : (tree.withSize 1).refs = tree.refs := by rw [refs, panes_withSize, refs]
  refine ⟨fieldsOk_withSize hfields one_pos le_rfl, rootSize_storeTree, ?_, ?_, ?_, ?_, ?_, ?_, ?_,
    ?_⟩
  · exact (fitsAt_withSize tree).trans hfits
  · exact (sumsOk_withSize tree).trans hsums
  · exact (ids_withSize tree).symm ▸ hids
  · exact (congrArg List.length (ids_withSize tree)).trans_le hnodes
  · exact hrefs.symm ▸ hplaced
  · exact (congrArg List.length hrefs).trans_le hpanes
  · exact fun c => hrefs.symm ▸ hknown c
  · exact hrefs.symm ▸ hnamed

theorem refs_storeTree {tree : Node} :
    (storeTree tree containers).root.panes = tree.panes := panes_withSize tree

/-- How each edit may change the panes: a split adds one behind the pane that is split, an
    appended pane comes last unless it fills the only one, a closed pane goes unless it is the
    only one, and a resize changes none. -/
def Edit.Keeps (before after : List (NodeId × ContainerId)) : Edit → Prop
  | .splitLeaf nodeId _ => ∃ left c right added, before = left ++ (nodeId, c) :: right ∧
      after = left ++ (nodeId, c) :: added :: right
  | .appendPane _ => (∃ added, after = before ++ [added]) ∨ (before.length = 1 ∧ after = before)
  | .closeLeaf nodeId => ∃ left c right, before = left ++ (nodeId, c) :: right ∧
      (after = left ++ right ∨ (left = [] ∧ right = [] ∧ after = before))
  | .resizeSplit _ _ => after = before

theorem requireTree_bind {α : Type} {f : Node → Except String α} {a : α} (h : Accepted layout)
    (heq : (requireTree layout >>= f) = .ok a) : f layout.root = .ok a := by
  rw [requireTree_eq h] at heq
  exact heq

theorem perm_insert_two {α : Type*} [DecidableEq α] (l r : List α) (x a b : α) :
    (l ++ [a, x, b] ++ r).Perm (a :: b :: (l ++ [x] ++ r)) := by
  refine perm_iff_count.mpr fun y => ?_
  simp only [count_append, count_cons, count_nil]
  omega

theorem perm_insert_behind {α : Type*} (l r : List α) (x a : α) :
    (l ++ [x, a] ++ r).Perm (a :: (l ++ [x] ++ r)) := by
  have hleft : l ++ [x, a] ++ r = (l ++ [x]) ++ a :: r := by simp
  rw [hleft]
  exact perm_middle

theorem halves_sumToOne {c d : Node} (hc : c.size = 1 / 2) (hd : d.size = 1 / 2) :
    sumsToOne [c, d] = true := by
  rw [sumsToOne, map_cons, map_cons, map_nil, hc, hd]
  decide +kernel

theorem fieldsOk_leaf {l : GridLeaf} : (Node.leaf l).fieldsOk = true ↔
    l.id ≠ "" ∧ nodeSize l.size = true ∧ l.containerId ≠ "" := by
  rw [fieldsOk, and_eq_true, and_eq_true]
  simp [and_assoc]

theorem half_ok : nodeSize (1 / 2) = true := by decide +kernel

section

variable (h : Accepted layout)
include h

theorem accepted_grown {edit : Edit} {tree : Node} (hadmissible : Admissible layout fresh edit)
    (hpanes : ¬maxContainers < layout.containers.entries.length + 1)
    (hnodes : ¬maxLayoutNodes < layout.root.countNodes + 2) (hfields : tree.fieldsOk = true)
    (hfits : tree.fitsAt 0 = true) (hsums : tree.sumsOk = true)
    (hids : tree.ids.Perm (fresh.split :: fresh.leaf :: layout.root.ids))
    (hrefs : tree.refs.Perm (fresh.container :: layout.root.refs)) :
    Accepted (storeTree tree (layout.containers.set fresh.container container)) := by
  obtain ⟨⟨hnewContainer, hcontainer⟩, ⟨hnewSplit, -⟩, ⟨hnewLeaf, -, hne⟩, -⟩ := hadmissible
  rw [h.keys_length] at hpanes
  rw [countNodes_eq] at hnodes
  refine accepted_storeTree hfields hfits hsums ?_ ?_ ?_ ?_ ?_ ?_
  · rw [hids.nodup_iff, nodup_cons, nodup_cons, mem_cons]
    refine ⟨?_, hnewLeaf, h.distinct⟩
    rintro (hsame | hmem)
    · exact hne hsame.symm
    · exact hnewSplit hmem
  · rw [hids.length_eq, length_cons, length_cons]
    omega
  · rw [hrefs.nodup_iff, nodup_cons]
    exact ⟨fun hmem => hnewContainer ((h.known _).mpr hmem), h.placed⟩
  · rw [hrefs.length_eq, length_cons]
    omega
  · intro c
    rw [mem_keys_set, hrefs.mem_iff, mem_cons, h.known]
  · rw [hrefs.mem_iff, mem_cons]
    rintro (hempty | hmem)
    · exact hcontainer hempty.symm
    · exact h.named hmem

theorem splitLeaf_accepted (hadmissible : Admissible layout fresh (.splitLeaf nodeId orientation))
    (hafter : splitLeaf layout fresh nodeId orientation = .ok after) :
    Accepted after ∧
      (Edit.splitLeaf nodeId orientation).Keeps layout.root.panes after.root.panes := by
  obtain ⟨answer, hreplaced, hafter⟩ := bind_eq_ok.mp (requireTree_bind h hafter)
  cases answer with
  | none => cases hafter
  | some root =>
    cases hafter
    obtain ⟨leaf, k, made, rfl, hmade, hswap⟩ := replaceLeaf_ok layout.root hreplaced
    split at hmade
    · cases hmade
    split at hmade
    · cases hmade
    rename_i hpanes
    split at hmade
    · cases hmade
    rename_i hnodes
    cases hmade
    obtain ⟨left, right, hbefore, hafter⟩ := hswap.panes_eq
    obtain ⟨leftIds, rightIds, hids, hids'⟩ := hswap.ids_eq
    refine ⟨accepted_grown h hadmissible hpanes hnodes ?_ ?_ ?_ ?_ ?_, ?_⟩
    · refine hswap.fieldsOk (fun hpart => ?_) h.fields
      obtain ⟨hid, hsize, hplaced⟩ := fieldsOk_leaf.mp hpart
      refine fieldsOk_split.mpr ⟨hadmissible.split.2, hsize, cons_ne_nil _ _, ?_⟩
      refine forall_mem_cons.mpr ⟨fieldsOk_leaf.mpr ⟨hid, half_ok, hplaced⟩, ?_⟩
      exact forall_mem_singleton.mpr
        (fieldsOk_leaf.mpr ⟨hadmissible.leaf.2.1, half_ok, hadmissible.container.2⟩)
    · refine hswap.fitsAt (fun _ => fitsAt_split.mpr ⟨by omega, ?_⟩) h.fits
      exact forall_mem_cons.mpr ⟨rfl, forall_mem_singleton.mpr rfl⟩
    · refine hswap.sumsOk (fun _ => sumsOk_split.mpr ⟨halves_sumToOne rfl rfl, ?_⟩) h.sums
      exact forall_mem_cons.mpr ⟨rfl, forall_mem_singleton.mpr rfl⟩
    · rw [hids, hids']
      exact perm_insert_two leftIds rightIds leaf.id _ _
    · rw [refs, refs, hbefore, hafter, map_append, map_append, map_append, map_append]
      exact perm_insert_behind _ _ leaf.containerId _
    · refine ⟨left, leaf.containerId, right, (fresh.leaf, fresh.container), ?_, ?_⟩
      · rw [hbefore, append_assoc]
        rfl
      · rw [refs_storeTree, hafter, append_assoc]
        rfl

def fills (layout : Layout) : Bool := fillsPane layout.containers layout.root

theorem appendPane_fills (hfills : fills layout = true)
    (hafter : appendPane layout fresh container = .ok after) :
    Accepted after ∧ (Edit.appendPane container).Keeps layout.root.panes after.root.panes := by
  obtain ⟨registry, root⟩ := layout
  have hafter := requireTree_bind h hafter
  cases root with
  | split id size orientation children => cases hfills
  | leaf l =>
    have hempty : isUnconfigured (registry.get l.containerId) = true := hfills
    dsimp only at hafter
    rw [if_pos hempty] at hafter
    cases hafter
    refine ⟨accepted_storeTree h.fields rfl rfl h.distinct h.nodes h.placed h.panes ?_ h.named,
      .inr ⟨rfl, rfl⟩⟩
    intro c
    rw [mem_keys_set, h.known]
    constructor
    · rintro (rfl | hc)
      · exact mem_singleton_self _
      · exact hc
    · exact .inr

theorem appendPane_wraps (hfills : fills layout = false) : appendPane layout fresh container =
      if maxContainers < layout.containers.entries.length + 1 then throw tooManyPanes
      else if maxLayoutNodes < layout.root.countNodes + 2 then throw tooManyNodes
      else pure (storeTree
        (.split fresh.split layout.root.size .horizontal
          [layout.root.withSize (1 / 2), .leaf ⟨fresh.leaf, 1 / 2, fresh.container⟩])
        (layout.containers.set fresh.container container)) := by
  obtain ⟨registry, root⟩ := layout
  rw [appendPane, requireTree_eq h]
  cases root with
  | split id size orientation children => rfl
  | leaf l => exact if_neg fun hempty => absurd (hfills.symm.trans hempty) false_ne_true

/-- **A pane can be appended and saved exactly when the tree nests less than it may.** -/
theorem appendPane_accepted_iff (hfills : fills layout = false)
    (hadmissible : Admissible layout fresh (.appendPane container))
    (hafter : appendPane layout fresh container = .ok after) :
    (Accepted after ↔ layout.root.fitsAt 1 = true) ∧
      (Edit.appendPane container).Keeps layout.root.panes after.root.panes := by
  rw [appendPane_wraps h hfills] at hafter
  split at hafter
  · cases hafter
  rename_i hpanes
  split at hafter
  · cases hafter
  rename_i hnodes
  cases hafter
  constructor
  · constructor
    · intro haccepted
      have hchildren := (fitsAt_split.mp haccepted.fits).2
      have hfits := hchildren _ mem_cons_self
      rw [fitsAt_withSize] at hfits
      exact hfits
    · intro hfits
      obtain ⟨hpos, hle⟩ := nodeSize_of_fieldsOk h.fields
      refine accepted_grown h hadmissible hpanes hnodes ?_ ?_ ?_ ?_ ?_
      · refine fieldsOk_split.mpr ⟨hadmissible.split.2, decide_eq_true ⟨hpos, hle⟩,
          cons_ne_nil _ _, ?_⟩
        refine forall_mem_cons.mpr ⟨?_, forall_mem_singleton.mpr
          (fieldsOk_leaf.mpr ⟨hadmissible.leaf.2.1, half_ok, hadmissible.container.2⟩)⟩
        obtain ⟨hhalf, hhalf'⟩ := of_decide_eq_true half_ok
        exact fieldsOk_withSize h.fields hhalf hhalf'
      · refine fitsAt_split.mpr ⟨by decide, forall_mem_cons.mpr ⟨?_, forall_mem_singleton.mpr rfl⟩⟩
        rw [fitsAt_withSize]
        exact hfits
      · refine sumsOk_split.mpr ⟨halves_sumToOne (size_withSize _) rfl,
          forall_mem_cons.mpr ⟨?_, forall_mem_singleton.mpr rfl⟩⟩
        rw [sumsOk_withSize]
        exact h.sums
      · simp only [ids_split, flatMap_cons, flatMap_nil, ids_withSize, append_nil]
        exact List.Perm.cons _ (perm_append_singleton _ _)
      · rw [refs, panes_split]
        simp only [flatMap_cons, flatMap_nil, panes_withSize, append_nil, map_append]
        exact perm_append_singleton _ _
  · left
    refine ⟨(fresh.leaf, fresh.container), ?_⟩
    rw [refs_storeTree]
    simp only [panes_split, flatMap_cons, flatMap_nil, panes_withSize, append_nil]
    rfl

omit h in
theorem findLeaf_spec (n : Node) {leaf : GridLeaf} (h : n.findLeaf nodeId = some leaf) :
    leaf.id = nodeId ∧ (n.fieldsOk = true → (Node.leaf leaf).fieldsOk = true) := by
  induction n using Node.induct with
  | leaf l =>
    rw [findLeaf] at h
    split at h
    · rename_i hid
      cases h
      exact ⟨hid, fun hfields => hfields⟩
    · cases h
  | split id size orientation children ih =>
    have hin : ∀ l : List Node, (∀ c ∈ l, c ∈ children) → findLeafIn nodeId l = some leaf →
        ∃ c ∈ children, c.findLeaf nodeId = some leaf := by
      intro l hl hfound
      induction l with
      | nil => cases hfound
      | cons c l ihl =>
        rw [findLeafIn] at hfound
        cases hc : c.findLeaf nodeId with
        | some found =>
          rw [hc] at hfound
          cases hfound
          exact ⟨c, hl c mem_cons_self, hc⟩
        | none =>
          rw [hc] at hfound
          exact ihl (fun d hd => hl d (mem_cons_of_mem _ hd)) hfound
    obtain ⟨c, hc, hfound⟩ := hin children (fun c hc => hc) h
    obtain ⟨hid, hfields⟩ := ih c hc hfound
    exact ⟨hid, fun hsplit => hfields ((fieldsOk_split.mp hsplit).2.2.2 c hc)⟩

theorem closeLeaf_accepted (hafter : closeLeaf layout nodeId = .ok after) :
    Accepted after ∧ (Edit.closeLeaf nodeId).Keeps layout.root.panes after.root.panes := by
  have hafter := requireTree_bind h hafter
  cases hfound : layout.root.findLeaf nodeId with
  | none =>
    rw [hfound] at hafter
    cases hafter
  | some leaf =>
    rw [hfound] at hafter
    obtain ⟨rfl, hleaf⟩ := findLeaf_spec layout.root hfound
    obtain ⟨⟨left, right, hpanes, hrest⟩, hids, hfits, hsound⟩ :=
      withoutLeaf_spec layout.root leaf hfound
    rw [flatMap_singleton] at hpanes
    cases hwithout : withoutLeaf leaf.id layout.root with
    | none =>
      -- the last pane stays, and its container is emptied
      rw [hwithout] at hafter hrest
      cases hafter
      obtain ⟨rfl, rfl⟩ := append_eq_nil_iff.mp hrest.symm
      have hone := hleaf h.fields
      refine ⟨accepted_storeTree hone rfl rfl (pairwise_singleton _ _)
        (le_of_ble_eq_true rfl) (pairwise_singleton _ _) (le_of_ble_eq_true rfl)
        (fun c => Iff.rfl) ?_, [], leaf.containerId, [], hpanes, .inr ⟨rfl, rfl, ?_⟩⟩
      · intro hempty
        exact (fieldsOk_leaf.mp hone).2.2 (mem_singleton.mp hempty).symm
      · rw [hpanes]
        rfl
    | some remaining =>
      rw [hwithout] at hafter hrest hids hfits hsound
      cases hafter
      rw [Option.toList_some, flatMap_singleton] at hrest hids
      rw [flatMap_singleton] at hids
      have hremaining := mem_singleton_self remaining
      obtain ⟨hfields, hsums⟩ := hsound
        (forall_mem_singleton.mpr ⟨h.fields, h.sums⟩) remaining hremaining
      have hbefore : layout.root.refs
          = left.map Prod.snd ++ leaf.containerId :: right.map Prod.snd := by
        rw [refs, hpanes, map_append]
        rfl
      have hrefs : remaining.refs = left.map Prod.snd ++ right.map Prod.snd := by
        rw [refs, hrest, map_append]
      have hplaced := h.placed
      rw [hbefore, perm_middle.nodup_iff, nodup_cons] at hplaced
      have hsublist : remaining.refs.Sublist layout.root.refs := by
        rw [hbefore, hrefs]
        exact (List.Sublist.refl _).append (sublist_cons_self _ _)
      refine ⟨accepted_storeTree hfields
        (hfits 0 (forall_mem_singleton.mpr h.fits) remaining hremaining) hsums
        (hids.nodup h.distinct) (hids.length_le.trans h.nodes) (hsublist.nodup h.placed)
        (hsublist.length_le.trans h.panes) ?_ (fun hempty => h.named (hsublist.subset hempty)),
        left, leaf.containerId, right, hpanes, .inl ?_⟩
      · intro c
        rw [mem_keys_erase, h.known, hbefore, hrefs, mem_append, mem_cons, mem_append]
        constructor
        · rintro ⟨hc | hc | hc, hne⟩
          · exact .inl hc
          · exact absurd hc hne
          · exact .inr hc
        · intro hc
          refine ⟨?_, fun heq => hplaced.1 (heq ▸ mem_append.mpr hc)⟩
          rcases hc with hc | hc
          · exact .inl hc
          · exact .inr (.inr hc)
      · rw [refs_storeTree, hrest]

omit h in
theorem resized_spec {sizes : List ℚ} (hlength : sizes.length = children.length) :
    (zipWith Node.withSize sizes children).map Node.size = sizes ∧
      (zipWith Node.withSize sizes children).flatMap Node.ids = children.flatMap Node.ids ∧
      (zipWith Node.withSize sizes children).flatMap Node.panes
        = children.flatMap Node.panes ∧
      ∀ r ∈ zipWith Node.withSize sizes children, ∃ c ∈ children, ∃ size ∈ sizes,
        r = c.withSize size := by
  induction children generalizing sizes with
  | nil =>
    obtain rfl := length_eq_zero_iff.mp hlength
    exact ⟨rfl, rfl, rfl, forall_mem_nil _⟩
  | cons c children ih =>
    cases sizes with
    | nil => cases hlength
    | cons size sizes =>
      obtain ⟨hsizes, hids, hpanes, hmem⟩ := ih (succ.inj hlength)
      refine ⟨?_, ?_, ?_, ?_⟩
      · rw [zipWith_cons_cons, map_cons, hsizes, size_withSize]
      · rw [zipWith_cons_cons, flatMap_cons, hids, ids_withSize, flatMap_cons]
      · rw [zipWith_cons_cons, flatMap_cons, hpanes, panes_withSize, flatMap_cons]
      · intro r hr
        rcases mem_cons.mp hr with rfl | hr
        · exact ⟨c, mem_cons_self, size, mem_cons_self, rfl⟩
        · obtain ⟨d, hd, s, hs, rfl⟩ := hmem r hr
          exact ⟨d, mem_cons_of_mem _ hd, s, mem_cons_of_mem _ hs, rfl⟩

theorem resizeSplit_accepted {sizes : List ℚ} (hpos : ∀ size ∈ sizes, 0 < size)
    (hsum : sizes.sum = 1) (hafter : resizeSplit layout nodeId sizes = .ok after) :
    Accepted after ∧ (Edit.resizeSplit nodeId sizes).Keeps layout.root.panes after.root.panes := by
  obtain ⟨answer, hreplaced, hafter⟩ := bind_eq_ok.mp (requireTree_bind h hafter)
  cases answer with
  | none => cases hafter
  | some root =>
    cases hafter
    obtain ⟨k, size, orientation, part, made, hmade, hswap⟩ := mapSplit_ok layout.root 0 hreplaced
    split at hmade
    · cases hmade
    rename_i hlength
    cases hmade
    obtain ⟨hsizes, hids, hpanes, hmem⟩ := resized_spec (not_not.mp hlength)
    obtain ⟨left, right, hbefore, hafter⟩ := hswap.panes_eq
    obtain ⟨leftIds, rightIds, hids₁, hids₂⟩ := hswap.ids_eq
    have hsamePanes : root.panes = layout.root.panes := by
      rw [hbefore, hafter, panes_split, panes_split, hpanes]
    have hsameIds : root.ids = layout.root.ids := by
      rw [hids₁, hids₂, ids_split, ids_split, hids]
    have hsameRefs : root.refs = layout.root.refs := congrArg (List.map Prod.snd) hsamePanes
    have hle : ∀ s ∈ sizes, s ≤ 1 := fun s hs =>
      hsum ▸ single_le_sum (fun x hx => (hpos x hx).le) s hs
    refine ⟨accepted_storeTree ?_ ?_ ?_ (hsameIds ▸ h.distinct) (hsameIds ▸ h.nodes)
      (hsameRefs ▸ h.placed) (hsameRefs ▸ h.panes) (fun c => hsameRefs ▸ h.known c)
      (hsameRefs ▸ h.named), ?_⟩
    · refine hswap.fieldsOk (fun hpart => ?_) h.fields
      obtain ⟨hid, hsize, hne, hchildren⟩ := fieldsOk_split.mp hpart
      refine fieldsOk_split.mpr ⟨hid, hsize, fun hnil => ?_, fun r hr => ?_⟩
      · rw [hnil] at hsizes
        rw [← hsizes] at hsum
        cases hsum
      · obtain ⟨c, hc, s, hs, rfl⟩ := hmem r hr
        exact fieldsOk_withSize (hchildren c hc) (hpos s hs) (hle s hs)
    · refine hswap.fitsAt (fun hpart => ?_) h.fits
      obtain ⟨hdepth, hchildren⟩ := fitsAt_split.mp hpart
      refine fitsAt_split.mpr ⟨hdepth, fun r hr => ?_⟩
      obtain ⟨c, hc, s, -, rfl⟩ := hmem r hr
      rw [fitsAt_withSize]
      exact hchildren c hc
    · refine hswap.sumsOk (fun hpart => ?_) h.sums
      refine sumsOk_split.mpr ⟨?_, fun r hr => ?_⟩
      · rw [sumsToOne, hsizes, hsum]
        decide +kernel
      · obtain ⟨c, hc, s, -, rfl⟩ := hmem r hr
        rw [sumsOk_withSize]
        exact (sumsOk_split.mp hpart).2 c hc
    · exact refs_storeTree.trans hsamePanes

/-! ## Every edit -/

/-- The call answers with a layout the server accepts, whose panes are those there were with the
    call's one pane added or taken out; or it throws. -/
def Saved (layout : Layout) (call : FreshIds × Edit) : Prop :=
  ∀ after, call.2.apply layout call.1 = .ok after → parseViewLayout after = .ok after ∧
    call.2.Keeps layout.root.panes after.root.panes

/-- A pane appended, under both ceilings, to a tree that nests as deep as it may. -/
def Overdeep (layout : Layout) (call : FreshIds × Edit) : Prop :=
  (∃ container, call.2 = .appendPane container) ∧ fills layout = false ∧
    layout.containers.entries.length + 1 ≤ maxContainers ∧
    layout.root.countNodes + 2 ≤ maxLayoutNodes ∧ layout.root.fitsAt 1 = false

theorem saved_iff {call : FreshIds × Edit} (hadmissible : Admissible layout call.1 call.2) :
    Saved layout call ↔ ¬Overdeep layout call := by
  obtain ⟨fresh, edit⟩ := call
  cases edit with
  | splitLeaf nodeId orientation =>
    refine iff_of_true (fun after hafter => ?_) (fun hdeep => nomatch hdeep.1)
    obtain ⟨haccepted, hkeeps⟩ := splitLeaf_accepted h hadmissible hafter
    exact ⟨parseViewLayout_iff.mpr haccepted, hkeeps⟩
  | closeLeaf nodeId =>
    refine iff_of_true (fun after hafter => ?_) (fun hdeep => nomatch hdeep.1)
    obtain ⟨haccepted, hkeeps⟩ := closeLeaf_accepted h hafter
    exact ⟨parseViewLayout_iff.mpr haccepted, hkeeps⟩
  | resizeSplit splitId sizes =>
    refine iff_of_true (fun after hafter => ?_) (fun hdeep => nomatch hdeep.1)
    obtain ⟨hpos, hsum⟩ := hadmissible.sizes splitId sizes rfl
    obtain ⟨haccepted, hkeeps⟩ := resizeSplit_accepted h hpos hsum hafter
    exact ⟨parseViewLayout_iff.mpr haccepted, hkeeps⟩
  | appendPane container =>
    by_cases hfills : fills layout = true
    · refine iff_of_true (fun after hafter => ?_) fun hdeep => ?_
      · obtain ⟨haccepted, hkeeps⟩ := appendPane_fills h hfills hafter
        exact ⟨parseViewLayout_iff.mpr haccepted, hkeeps⟩
      · exact absurd (hdeep.2.1.symm.trans hfills) false_ne_true
    · have hfills := eq_false_iff.mpr hfills
      constructor
      · rintro hsaved ⟨-, -, hpanes, hnodes, hdeep⟩
        have hafter := @appendPane_wraps layout fresh container h hfills
        rw [if_neg (Nat.not_lt_of_le hpanes), if_neg (Nat.not_lt_of_le hnodes)] at hafter
        obtain ⟨hparse, -⟩ := hsaved _ hafter
        have hfits := (appendPane_accepted_iff h hfills hadmissible hafter).1.mp
          (parseViewLayout_iff.mp hparse)
        exact absurd (hdeep.symm.trans hfits) false_ne_true
      · intro hdeep after hafter
        obtain ⟨hiff, hkeeps⟩ := appendPane_accepted_iff h hfills hadmissible hafter
        refine ⟨parseViewLayout_iff.mpr (hiff.mpr ?_), hkeeps⟩
        by_contra hnot
        refine hdeep ⟨⟨container, rfl⟩, hfills, ?_, ?_, eq_false_iff.mpr hnot⟩
        · by_contra hpanes
          have hafter : appendPane layout fresh container = .ok after := hafter
          rw [appendPane_wraps h hfills, if_pos (Nat.lt_of_not_le hpanes)] at hafter
          cases hafter
        · by_contra hnodes
          have hafter : appendPane layout fresh container = .ok after := hafter
          rw [appendPane_wraps h hfills, if_pos (Nat.lt_of_not_le hnodes)] at hafter
          split at hafter <;> cases hafter

/-- The layout behind one call: a call that throws leaves it. -/
def afterCall (layout : Layout) (call : FreshIds × Edit) : Layout :=
  match call.2.apply layout call.1 with
  | .ok after => after
  | .error _ => layout

/-- Every call of a sequence has `P`, at the layout it is made on. -/
def EveryCall (P : Layout → FreshIds × Edit → Prop) : Layout → List (FreshIds × Edit) → Prop
  | _, [] => True
  | layout, call :: calls => P layout call ∧ EveryCall P (afterCall layout call) calls

theorem accepted_afterCall {call : FreshIds × Edit}
    (hsaved : Saved layout call) : Accepted (afterCall layout call) := by
  rw [afterCall]
  cases hafter : call.2.apply layout call.1 with
  | ok after => exact parseViewLayout_iff.mp (hsaved after hafter).1
  | error e => exact h

end

/-- **Every edit of a run is saved exactly when none of them appends to a tree that nests as
    deep as it may.** -/
theorem edits_saved_iff (h : parseViewLayout layout = .ok layout) (calls : List (FreshIds × Edit))
    (hcalls : EveryCall (fun layout call => Admissible layout call.1 call.2) layout calls) :
    EveryCall Saved layout calls ↔
      EveryCall (fun layout call => ¬Overdeep layout call) layout calls := by
  have haccepted := parseViewLayout_iff.mp h
  clear h
  induction calls generalizing layout with
  | nil => exact Iff.rfl
  | cons call calls ih =>
    obtain ⟨hadmissible, hcalls⟩ := hcalls
    have hiff := saved_iff haccepted hadmissible
    constructor
    · rintro ⟨hsaved, hrest⟩
      exact ⟨hiff.mp hsaved, (ih hcalls (accepted_afterCall haccepted hsaved)).mp hrest⟩
    · rintro ⟨hshallow, hrest⟩
      have hsaved := hiff.mpr hshallow
      exact ⟨hsaved, (ih hcalls (accepted_afterCall haccepted hsaved)).mpr hrest⟩

/-- A pane under splits of one child each, all as many as given. -/
def chain : Nat → Node
  | 0 => .leaf ⟨"pane", 1, "shown"⟩
  | depth + 1 => .split (toString depth) 1 .horizontal [chain depth]

def chainLayout (depth : Nat) : Layout where
  containers := .single "shown" { kind := .panel, primitiveId := some "board" }
  root := chain depth

def chainCalls : List (FreshIds × Edit) :=
  [(⟨"c", "s", "n"⟩, .appendPane emptyContainer), (⟨"c2", "s2", "n2"⟩, .closeLeaf "pane")]

theorem chainCalls_saved : EveryCall Saved (chainLayout 2) chainCalls := by
  have haccepted : Accepted (chainLayout 2) :=
    ⟨by decide +kernel, by decide +kernel, by decide +kernel, by decide +kernel,
      by decide +kernel, by decide +kernel, by decide +kernel, by decide +kernel,
      fun c => Iff.rfl, by decide +kernel⟩
  refine (edits_saved_iff (parseViewLayout_iff.mpr haccepted) chainCalls
    ⟨⟨?_, ?_, ?_, ?_⟩, ⟨?_, ?_, ?_, ?_⟩, trivial⟩).mpr ⟨?_, ?_, trivial⟩
  · decide +kernel
  · decide +kernel
  · decide +kernel
  · intro splitId sizes h
    cases h
  · decide +kernel
  · decide +kernel
  · decide +kernel
  · intro splitId sizes h
    cases h
  · intro h
    exact absurd h.2.2.2.2 (by decide +kernel)
  · intro h
    obtain ⟨⟨container, hedit⟩, -⟩ := h
    cases hedit

/-- Under 32 splits an appended pane is a layout the server refuses. -/
theorem appended_too_deep : (parseViewLayout (chainLayout 32)).isOk = true ∧
    (appendPane (chainLayout 32) ⟨"c", "s", "n"⟩ emptyContainer).isOk = true ∧
    (appendPane (chainLayout 32) ⟨"c", "s", "n"⟩ emptyContainer >>= parseViewLayout).isOk
      = false := by
  decide +kernel

end Loregarden.GridLayout
