import Loregarden.CriticalPathProofs
import Loregarden.LongestChainProofs

/-! # Ranks and steps

`_ranks_and_steps` walks the nodes twice: forwards for the depth of each below its open
prerequisites, backwards for the work that waits behind it. -/

namespace Loregarden.Plan

open Chains List

variable {g : PlanGraph} {id : Nat}

def PlanGraph.openDeps (g : PlanGraph) (id : Nat) : List Nat := (g.deps id).filter g.isOpen

/-- The dependents that are in no cycle and behind none. -/
def PlanGraph.waiters (g : PlanGraph) (id : Nat) : List Nat :=
  (g.dependents id).filter (· ∉ cyclic g)

def PlanGraph.openWork (g : PlanGraph) (id : Nat) : ℚ :=
  if g.isOpen id then (g.node id).elim 0 PlanNode.work else 0

theorem waiters_after {l r : List Nat} (hsplit : topo g = l ++ id :: r) :
    g.waiters id ⊆ r := by
  intro c hc
  obtain ⟨hc, hnot⟩ := mem_filter.mp hc
  have hedge := mem_dependents.mp hc
  have hctopo : c ∈ topo g := by
    by_contra hout
    exact of_decide_eq_true hnot (mem_cyclic.mpr ⟨(g.closed _ hedge).1, hout⟩)
  obtain ⟨before, after, hctopo⟩ := append_of_mem hctopo
  have hid := (topo_topological g).before before c after hctopo id (mem_deps.mpr hedge)
  obtain ⟨front, between, rfl⟩ := append_of_mem hid
  -- the node is listed once
  have hnot : id ∉ l ++ r := (nodup_middle.mp (hsplit ▸ (topo_topological g).nodup)).notMem
  rw [mem_append, not_or] at hnot
  rw [hctopo, append_assoc, cons_append] at hsplit
  obtain ⟨-, -, rfl⟩ := (append_cons_inj_of_notMem hnot.1 hnot.2).mp hsplit.symm
  exact mem_append_cons_self

theorem steps_isGreatest (hid : id ∈ topo g) :
    IsGreatest (weights (fun _ => 1) g.openDeps id) (steps g id) :=
  longest (fun _ => Nat.zero_le 1) (fun l₁ n l₂ hsplit d hd =>
    (topo_topological g).before l₁ n l₂ hsplit d (mem_filter.mp hd).1) (fun _ => 1) hid

theorem ranks_isGreatest (hid : id ∈ topo g) :
    IsGreatest (weights g.openWork g.waiters id) (ranks g id) := by
  refine longest (fun id => ?_) (fun l₁ n l₂ hsplit c hc => ?_) (fun _ => 0) (mem_reverse.mpr hid)
  · rw [PlanGraph.openWork]
    split
    · cases g.node id with
      | none => exact le_rfl
      | some n => exact n.work_nonneg
    · exact le_rfl
  · refine mem_reverse.mp (waiters_after (l := l₂.reverse) ?_ hc)
    rw [← reverse_reverse (topo g), hsplit, reverse_append, reverse_cons, append_assoc,
      singleton_append]

/-- The node waits, at some remove, for one that waits for itself. -/
def BehindCycle (g : PlanGraph) (id : Nat) : Prop :=
  ∃ c, Relation.ReflTransGen (Waits g) id c ∧ Relation.TransGen (Waits g) c c

/-- **A ticket's step is the longest line of open prerequisites it ends, its rank the most work on a
    line of dependents it begins**; a ticket on a cycle, or behind one, keeps both. -/
theorem ranks_and_steps_longest (g : PlanGraph) :
    (∀ n ∈ (ranksAndSteps g).1.nodes, ¬ BehindCycle g n.id →
      IsGreatest (weights (fun _ => 1) g.openDeps n.id) n.step ∧
        IsGreatest (weights g.openWork g.waiters n.id) n.rank) ∧
    ∀ n ∈ (ranksAndSteps g).1.nodes, BehindCycle g n.id → n ∈ g.nodes := by
  refine ⟨fun n hn hdated => ?_, fun n hn hcyclic => ?_⟩
  all_goals
    obtain ⟨m, hm, rfl⟩ := mem_map.mp hn
    by_cases htopo : m.id ∈ topo g
  · rw [if_pos htopo]
    exact ⟨steps_isGreatest htopo, ranks_isGreatest htopo⟩
  · rw [if_neg htopo] at hdated
    exact absurd (mem_cyclic_iff.mp (mem_cyclic.mpr ⟨mem_map_of_mem hm, htopo⟩)).2 hdated
  · rw [if_pos htopo] at hcyclic
    exact absurd htopo (mem_cyclic.mp (mem_cyclic_iff.mpr ⟨mem_map_of_mem hm, hcyclic⟩)).2
  · rwa [if_neg htopo]

end Loregarden.Plan
