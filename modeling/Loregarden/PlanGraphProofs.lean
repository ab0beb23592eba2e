import Mathlib.Data.Fintype.Pigeonhole
import Loregarden.PlanGraphModel

/-! # What a plan can date

    The nodes `_ranks_and_steps` takes stand after their prerequisites; the others are
    those from which a cycle can be reached. `_priceable` keeps an open node when it is
    priced and each prerequisite is done or kept.

    * `topo_topological`, `mem_cyclic_iff`: the nodes in order, and the cycles;
    * `mem_priceable_iff`: what is kept;
    * `priceable_of_closed`: whatever can be dated is kept. -/

namespace Loregarden.Plan

open Kahn List

variable {g : PlanGraph} {id d c : Nat} {ids : List Nat} {n : PlanNode}

theorem mem_deps : d ∈ g.deps id ↔ (id, d) ∈ g.edges := by
  rw [PlanGraph.deps, mem_map]
  constructor
  · rintro ⟨⟨a, e⟩, h, rfl⟩
    obtain ⟨hmem, hid⟩ := mem_filter.mp h
    exact (of_decide_eq_true hid : a = id) ▸ hmem
  · exact fun h => ⟨(id, d), mem_filter.mpr ⟨h, decide_eq_true rfl⟩, rfl⟩

theorem mem_dependents : c ∈ g.dependents id ↔ (c, id) ∈ g.edges := by
  rw [PlanGraph.dependents, mem_map]
  constructor
  · rintro ⟨⟨a, e⟩, h, rfl⟩
    obtain ⟨hmem, hid⟩ := mem_filter.mp h
    exact (of_decide_eq_true hid : e = id) ▸ hmem
  · exact fun h => ⟨(c, id), mem_filter.mpr ⟨h, decide_eq_true rfl⟩, rfl⟩

theorem deps_mem (h : d ∈ g.deps id) : d ∈ g.ids := (g.closed _ (mem_deps.mp h)).2

theorem count_edges : (g.dependents id).count c = (g.deps c).count id := by
  rw [PlanGraph.dependents, PlanGraph.deps, List.count, List.count, countP_map,
    countP_map, countP_filter, countP_filter]
  refine countP_congr fun e _ => ?_
  simp [and_comm]

theorem linked (g : PlanGraph) : Linked g.ids g.deps g.dependents where
  nodup := g.nodup
  prerequisite := fun _ _ _ hd => deps_mem hd
  waiter := fun _ _ _ hc => (g.closed _ (mem_dependents.mp hc)).1
  agree := fun _ _ _ _ => count_edges

theorem linked_among (g : PlanGraph) (hnodup : ids.Nodup) :
    Linked ids (fun id => (g.deps id).filter (· ∈ ids))
      fun id => (g.dependents id).filter (· ∈ ids) where
  nodup := hnodup
  prerequisite := fun _ _ _ hd => of_decide_eq_true (mem_filter.mp hd).2
  waiter := fun _ _ _ hc => of_decide_eq_true (mem_filter.mp hc).2
  agree := fun n hn c hc => by
    have hkeep : ∀ (l : List Nat) x, x ∈ ids → (l.filter (· ∈ ids)).count x = l.count x :=
      fun l x hx => count_filter (decide_eq_true hx)
    rw [hkeep _ c hc, hkeep _ n hn]
    exact count_edges

/-! ## The order of the nodes, and the cycles -/

theorem topo_topological (g : PlanGraph) : Topological g.ids g.deps (topo g) := by
  refine order_topological (linked g) ?_ fun n => ?_
  · exact nodup_reverse.mpr (g.nodup.filter _)
  · rw [mem_reverse, mem_filter, decide_eq_true_iff]

theorem mem_cyclic : id ∈ cyclic g ↔ id ∈ g.ids ∧ id ∉ topo g := by
  rw [cyclic, mem_filter, decide_eq_true_iff]

theorem deps_topo (h : id ∈ topo g) (hd : d ∈ g.deps id) : d ∈ topo g := by
  obtain ⟨l₁, l₂, hsplit⟩ := append_of_mem h
  have hbefore := (topo_topological g).before l₁ id l₂ hsplit d hd
  rw [hsplit]
  exact mem_append_left _ hbefore

theorem exists_first {P : Nat → Prop} (h : ∃ id ∈ topo g, P id) :
    ∃ id, P id ∧ id ∈ topo g ∧ ∀ d ∈ g.deps id, ¬ P d := by
  classical
  obtain ⟨id, hid, hP⟩ := h
  cases hfind : (topo g).find? (fun x => decide (P x)) with
  | none => exact absurd (decide_eq_true hP) (List.find?_eq_none.mp hfind id hid)
  | some first =>
    obtain ⟨hfirst, l₁, l₂, hsplit, hbefore⟩ := List.find?_eq_some_iff_append.mp hfind
    refine ⟨first, of_decide_eq_true hfirst, mem_of_find?_eq_some hfind, fun d hd hPd => ?_⟩
    have hnot := hbefore d ((topo_topological g).before l₁ first l₂ hsplit d hd)
    rw [decide_eq_true hPd] at hnot
    cases hnot

/-- `id` waits for `d`. -/
def Waits (g : PlanGraph) (id d : Nat) : Prop := d ∈ g.deps id

theorem exists_cycle (f : Nat → Nat) (hf : ∀ k, f k ∈ g.ids)
    (hstep : ∀ k, Waits g (f k) (f (k + 1))) :
    ∃ k, Relation.TransGen (Waits g) (f k) (f k) := by
  have hchain : ∀ k j, Relation.TransGen (Waits g) (f k) (f (k + j + 1)) := by
    intro k j
    induction j with
    | zero => exact .single (hstep k)
    | succ j ih => exact ih.tail (hstep (k + j + 1))
  obtain ⟨a, b, hne, heq⟩ := Finite.exists_ne_map_eq_of_infinite
    fun k => (⟨f k, mem_toFinset.mpr (hf k)⟩ : g.ids.toFinset)
  have hsame : f a = f b := congrArg Subtype.val heq
  rcases Nat.lt_or_gt_of_ne hne with hlt | hlt
  · obtain ⟨j, rfl⟩ := Nat.exists_eq_add_of_lt hlt
    have hround := hchain a j
    rw [← hsame] at hround
    exact ⟨a, hround⟩
  · obtain ⟨j, rfl⟩ := Nat.exists_eq_add_of_lt hlt
    have hround := hchain b j
    rw [hsame] at hround
    exact ⟨b, hround⟩

/-- **The cycles**: the nodes that are not taken are those from which a cycle is reached. -/
theorem mem_cyclic_iff : id ∈ cyclic g ↔ id ∈ g.ids ∧
    ∃ c, Relation.ReflTransGen (Waits g) id c ∧ Relation.TransGen (Waits g) c c := by
  rw [mem_cyclic]
  refine and_congr_right fun hid => ?_
  constructor
  · intro hnot
    -- a node that is not taken waits for another
    have hnext : ∀ x : {x // x ∈ g.ids ∧ x ∉ topo g}, ∃ y : {x // x ∈ g.ids ∧ x ∉ topo g},
        Waits g x.1 y.1 := by
      rintro ⟨x, hx, hxt⟩
      obtain ⟨d, hd, hdt⟩ := (topo_topological g).stuck x hx hxt
      exact ⟨⟨d, deps_mem hd, hdt⟩, hd⟩
    choose next hwaits using hnext
    let chain : Nat → {x // x ∈ g.ids ∧ x ∉ topo g} := fun k => next^[k] ⟨id, hid, hnot⟩
    have hstep : ∀ k, Waits g (chain k).1 (chain (k + 1)).1 := by
      intro k
      show Waits g (chain k).1 (next^[k + 1] ⟨id, hid, hnot⟩).1
      rw [Function.iterate_succ_apply']
      exact hwaits (chain k)
    have hreach : ∀ k, Relation.ReflTransGen (Waits g) id (chain k).1 := by
      intro k
      induction k with
      | zero => exact .refl
      | succ k ih => exact ih.tail (hstep k)
    obtain ⟨k, hk⟩ := exists_cycle (fun k => (chain k).1) (fun k => (chain k).2.1) hstep
    exact ⟨_, hreach k, hk⟩
  · rintro ⟨c, hreach, hround⟩ htopo
    have hc : c ∈ topo g := by
      clear hround
      induction hreach with
      | refl => exact htopo
      | tail _ hd ih => exact deps_topo ih hd
    obtain ⟨x, hx, -, hfirst⟩ := exists_first (P := fun x => Relation.TransGen (Waits g) x x)
      ⟨c, hc, hround⟩
    obtain ⟨d, hd, hback⟩ := Relation.TransGen.head'_iff.mp hx
    exact hfirst d hd (Relation.TransGen.tail' hback hd)

theorem mem_unpriced {unknown : List Nat} : d ∈ unpriced g unknown id ↔ d ∈ unknown ∨ d = id ∧
      (((g.node id).bind (·.durationDays)) = none ∨ ∃ e ∈ g.deps id, e ∈ unknown) := by
  rw [unpriced]
  have hany : ((g.deps id).any (· ∈ unknown)) = true ↔ ∃ e ∈ g.deps id, e ∈ unknown := by
    rw [any_eq_true]
    exact exists_congr fun e => and_congr_right fun _ => decide_eq_true_iff
  rw [← hany]
  split
  · rename_i h
    rw [mem_cons, and_iff_left h, or_comm]
  · rename_i h
    exact ⟨.inl, fun hd => hd.resolve_right fun hd => h hd.2⟩

theorem mem_foldl_unpriced {order unknown : List Nat} (h : d ∈ order.foldl (unpriced g) unknown) :
    d ∈ unknown ∨ d ∈ order := by
  induction order generalizing unknown with
  | nil => exact .inl h
  | cons id order ih =>
    rcases ih h with hd | hd
    · rcases mem_unpriced.mp hd with hd | ⟨rfl, -⟩
      · exact .inl hd
      · exact .inr mem_cons_self
    · exact .inr (mem_cons_of_mem id hd)

theorem foldl_unpriced_mono {order unknown : List Nat} (h : d ∈ unknown) :
    d ∈ order.foldl (unpriced g) unknown := by
  induction order generalizing unknown with
  | nil => exact h
  | cons id order ih => exact ih (mem_unpriced.mpr (.inl h))

/-- A node tested after its prerequisites is unknown when it has no price, or one of them
    is unknown. -/
theorem foldl_unpriced_iff {order unknown : List Nat} (hnodup : order.Nodup)
    (hbefore : ∀ l₁ x l₂, order = l₁ ++ x :: l₂ → ∀ d ∈ g.deps x, d ∈ order → d ∈ l₁)
    (hid : id ∈ order) : id ∈ order.foldl (unpriced g) unknown ↔
      id ∈ unknown ∨ ((g.node id).bind (·.durationDays)) = none ∨
        ∃ d ∈ g.deps id, d ∈ order.foldl (unpriced g) unknown := by
  obtain ⟨l₁, l₂, rfl⟩ := append_of_mem hid
  have hnot₂ := (nodup_cons.mp (nodup_append'.mp hnodup).2.1).1
  have hnot₁ : id ∉ l₁ := fun h => (nodup_append'.mp hnodup).2.2 h mem_cons_self
  -- nothing a node waits for is tested after it
  have hdeps : ∀ d ∈ g.deps id, d ∈ (l₁ ++ id :: l₂).foldl (unpriced g) unknown ↔
      d ∈ l₁.foldl (unpriced g) unknown := by
    intro d hd
    rw [foldl_append]
    refine ⟨fun h => ?_, foldl_unpriced_mono⟩
    rcases mem_foldl_unpriced h with h | hlater
    · exact h
    · have hin := hbefore l₁ id l₂ rfl d hd (mem_append_right l₁ hlater)
      exact absurd hlater fun h => (nodup_append'.mp hnodup).2.2 hin h
  rw [foldl_append, foldl_cons]
  constructor
  · intro h
    rcases mem_foldl_unpriced h with h | h
    · rcases mem_unpriced.mp h with hold | ⟨-, hprice | ⟨d, hd, hdu⟩⟩
      · exact .inl ((mem_foldl_unpriced hold).resolve_right hnot₁)
      · exact .inr (.inl hprice)
      · refine .inr (.inr ⟨d, hd, ?_⟩)
        have hall := (hdeps d hd).mpr hdu
        rwa [foldl_append, foldl_cons] at hall
    · exact absurd h hnot₂
  · intro h
    refine foldl_unpriced_mono (mem_unpriced.mpr ?_)
    rcases h with h | h | ⟨d, hd, hdu⟩
    · exact .inl (foldl_unpriced_mono h)
    · exact .inr ⟨rfl, .inl h⟩
    · refine .inr ⟨rfl, .inr ⟨d, hd, (hdeps d hd).mp ?_⟩⟩
      rwa [foldl_append, foldl_cons]

/-! ## `_topological` and `_priceable` -/

theorem node_of_mem (h : n ∈ g.nodes) : g.node n.id = some n := by
  cases hf : g.node n.id with
  | none => exact absurd (decide_eq_true rfl) (List.find?_eq_none.mp hf n h)
  | some m =>
    have hid := List.find?_some hf
    have hm := mem_of_find?_eq_some hf
    exact congrArg some (inj_on_of_nodup_map g.nodup hm h (of_decide_eq_true hid))

theorem isOpen_of_mem (h : n ∈ g.nodes) : g.isOpen n.id = true ↔ n.status ≠ .done := by
  rw [PlanGraph.isOpen, node_of_mem h, Option.any_some, decide_eq_true_iff]

theorem topological_topological (hnodup : ids.Nodup) :
    Topological ids (fun id => (g.deps id).filter (· ∈ ids)) (topological g ids) := by
  refine order_topological (linked_among g hnodup) ?_ fun n => ?_
  · rw [nodup_reverse]
    exact (perm_insertionSort _ _).nodup_iff.mpr (hnodup.filter _)
  · rw [mem_reverse, mem_insertionSort, mem_filter, decide_eq_true_iff]

/-- Nodes that `_ranks_and_steps` took are all taken again. -/
theorem topological_complete (hnodup : ids.Nodup) (htopo : ∀ id ∈ ids, id ∈ topo g)
    (hid : id ∈ ids) : id ∈ topological g ids := by
  by_contra hnot
  obtain ⟨x, ⟨hx, hxt⟩, -, hfirst⟩ :=
    exists_first (P := fun x => x ∈ ids ∧ x ∉ topological g ids) ⟨id, htopo id hid, hid, hnot⟩
  obtain ⟨d, hd, hdt⟩ := (topological_topological hnodup).stuck x hx hxt
  obtain ⟨hdeps, hin⟩ := mem_filter.mp hd
  exact hfirst d hdeps ⟨of_decide_eq_true hin, hdt⟩

theorem mem_openNodes : n ∈ openNodes g (cyclic g) ↔
    n ∈ g.nodes ∧ n.status ≠ .done ∧ n.id ∈ topo g := by
  rw [openNodes, mem_filter, decide_eq_true_iff, mem_cyclic, not_and, not_not]
  refine and_congr_right fun hn => and_congr_right fun _ => ?_
  exact ⟨fun h => h (mem_map_of_mem hn), fun h _ => h⟩

theorem openNodes_nodup (g : PlanGraph) : ((openNodes g (cyclic g)).map (·.id)).Nodup :=
  g.nodup.sublist (filter_sublist.map _)

/-- **What can be dated**: an open node that is taken, priced, and waits only for nodes
    that are done or can be dated themselves. -/
theorem mem_priceable_iff : n ∈ priceable g (cyclic g) ↔
    n ∈ g.nodes ∧ n.status ≠ .done ∧ n.id ∈ topo g ∧ n.durationDays ≠ none ∧
      ∀ d ∈ g.deps n.id, g.isOpen d = false ∨ ∃ m ∈ priceable g (cyclic g), m.id = d := by
  have htopo : ∀ id ∈ (openNodes g (cyclic g)).map (·.id), id ∈ topo g := by
    intro id hid
    obtain ⟨m, hm, rfl⟩ := mem_map.mp hid
    exact (mem_openNodes.mp hm).2.2
  have htop := topological_topological (g := g) (openNodes_nodup g)
  set order := topological g ((openNodes g (cyclic g)).map (·.id)) with horder
  have hkept : ∀ m, m ∈ priceable g (cyclic g) ↔ m ∈ openNodes g (cyclic g) ∧
      m.id ∉ order.foldl (unpriced g) (cyclic g) := fun m => by
    rw [priceable, mem_filter, decide_eq_true_iff]
  have hunknown : ∀ m ∈ openNodes g (cyclic g),
      (m.id ∉ order.foldl (unpriced g) (cyclic g) ↔ m.durationDays ≠ none ∧
        ∀ d ∈ g.deps m.id, d ∉ order.foldl (unpriced g) (cyclic g)) := by
    intro m hm
    obtain ⟨hnode, -, hmtopo⟩ := mem_openNodes.mp hm
    have hin := topological_complete (openNodes_nodup g) htopo (mem_map_of_mem hm)
    rw [foldl_unpriced_iff htop.nodup (fun l₁ x l₂ hsplit d hd hdorder =>
        htop.before l₁ x l₂ hsplit d (mem_filter.mpr
          ⟨hd, decide_eq_true (htop.subset d hdorder)⟩)) hin,
      node_of_mem hnode, not_or, not_or, and_iff_right fun h => (mem_cyclic.mp h).2 hmtopo]
    push Not
    rfl
  rw [hkept, mem_openNodes, and_assoc, and_assoc]
  refine and_congr_right fun hn => and_congr_right fun hopen => and_congr_right fun hntopo => ?_
  rw [hunknown n (mem_openNodes.mpr ⟨hn, hopen, hntopo⟩)]
  refine and_congr_right fun _ => forall₂_congr fun d hd => ?_
  obtain ⟨m, hm, rfl⟩ := mem_map.mp (deps_mem hd)
  have hmtopo := deps_topo hntopo hd
  cases hmo : g.isOpen m.id with
  | false =>
    -- a done node is not tested
    refine iff_of_true (fun h => ?_) (.inl rfl)
    rcases mem_foldl_unpriced h with h | h
    · exact (mem_cyclic.mp h).2 hmtopo
    · obtain ⟨x, hx, hid⟩ := mem_map.mp (htop.subset _ h)
      obtain ⟨hxn, hxo, -⟩ := mem_openNodes.mp hx
      rw [← hid, (isOpen_of_mem hxn).mpr hxo] at hmo
      cases hmo
  | true =>
    have hmopen := mem_openNodes.mpr ⟨hm, (isOpen_of_mem hm).mp hmo, hmtopo⟩
    rw [or_iff_right (by simp)]
    constructor
    · exact fun h => ⟨m, (hkept m).mpr ⟨hmopen, h⟩, rfl⟩
    · rintro ⟨x, hx, hid⟩
      exact hid ▸ ((hkept x).mp hx).2

/-- Whatever could be dated is kept: nodes that are open, priced, on no cycle, and wait
    only for done nodes and each other. -/
theorem priceable_of_closed {S : Nat → Prop}
    (hS : ∀ id, S id → ∃ n ∈ g.nodes, n.id = id ∧ n.status ≠ .done ∧ n.durationDays ≠ none ∧
      id ∉ cyclic g ∧ ∀ d ∈ g.deps id, g.isOpen d = false ∨ S d) (hid : S id) :
    ∃ n ∈ priceable g (cyclic g), n.id = id := by
  by_contra hnot
  have htopo : ∀ x, S x → x ∈ topo g := by
    intro x hx
    obtain ⟨n, hn, rfl, -, -, hcyclic, -⟩ := hS x hx
    by_contra hxt
    exact hcyclic (mem_cyclic.mpr ⟨mem_map_of_mem hn, hxt⟩)
  obtain ⟨x, ⟨hx, hxnot⟩, hxtopo, hfirst⟩ := exists_first
    (P := fun x => S x ∧ ¬ ∃ n ∈ priceable g (cyclic g), n.id = x) ⟨id, htopo id hid, hid, hnot⟩
  obtain ⟨n, hn, rfl, hopen, hprice, -, hdeps⟩ := hS x hx
  refine hxnot ⟨n, mem_priceable_iff.mpr ⟨hn, hopen, hxtopo, hprice, fun d hd => ?_⟩, rfl⟩
  refine (hdeps d hd).imp_right fun hSd => ?_
  by_contra hdnot
  exact hfirst d hd ⟨hSd, hdnot⟩

end Loregarden.Plan
