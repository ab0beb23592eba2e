import Loregarden.CoverageProofs
import Loregarden.PlanStatusModel

/-! # When a ready node has nothing of its own under way

    Marking rewrites each node by itself, and what it says of one is which nodes that hold their
    lane have seen it. A loop sees the nodes above its own as long as the tickets between are nodes
    too, and coverage makes no node of a root that has items.

    * `mem_seenFrom`: what a loop sees;
    * `foldl_markFrom`: what all of them leave;
    * `ready_idle_iff`: when no ready node has a ticket of the plan under way below it. -/

namespace Loregarden.PlanStatus

open Coverage (Ticket TicketId InitiativeCoverage Below planCoverage nestedMember)
open GraphSearch Relation List
open Plan (NodeStatus)
open Lanes (TicketState)

variable {s : Session} {nodes : List PlanNode} {node held n m : PlanNode} {id : TicketId}
  {activity : TicketId → TicketActivity} {coverage : InitiativeCoverage} {ticket : Ticket}

theorem lookup_some (h : lookup nodes id = some n) : n ∈ nodes ∧ n.id = id :=
  ⟨mem_of_find?_eq_some h, by simpa using List.find?_some h⟩

theorem exists_lookup (h : id ∈ nodes.map (·.id)) : ∃ n, lookup nodes id = some n := by
  refine Option.isSome_iff_exists.mp (List.find?_isSome.mpr ?_)
  obtain ⟨n, hn, rfl⟩ := mem_map.mp h
  exact ⟨n, hn, decide_eq_true rfl⟩

theorem put_nodup (h : (nodes.map (·.id)).Nodup) : ((put nodes node).map (·.id)).Nodup := by
  rw [put]
  split
  · rw [List.map_map]
    refine (map_congr_left fun n _ => ?_) ▸ h
    show n.id = (if n.id = node.id then node else n).id
    split
    · assumption
    · rfl
  · rename_i hnew
    rw [map_append]
    refine List.Nodup.append h (nodup_singleton _) ?_
    rw [map_singleton, disjoint_singleton]
    exact hnew

theorem planNodes_nodup (coverage : InitiativeCoverage) :
    ((planNodes coverage).map (·.id)).Nodup := by
  have hphase : ∀ milestone (items : List Ticket) (nodes : List PlanNode),
      (nodes.map (·.id)).Nodup → ((items.foldl (fun nodes ticket =>
          put nodes { ticket := ticket, milestoneId := milestone }) nodes).map (·.id)).Nodup := by
    intro milestone items
    induction items with
    | nil => exact fun _ h => h
    | cons ticket items ih => exact fun nodes h => ih _ (put_nodup h)
  have hall : ∀ (roots : List Ticket) (nodes : List PlanNode), (nodes.map (·.id)).Nodup →
      ((roots.foldl (fun nodes milestone =>
        (phaseItems coverage milestone).foldl (fun nodes ticket =>
          put nodes { ticket := ticket, milestoneId := some milestone.id }) nodes) nodes).map
            (·.id)).Nodup := by
    intro roots
    induction roots with
    | nil => exact fun _ h => h
    | cons milestone roots ih => exact fun nodes h => ih _ (hphase _ _ nodes h)
  exact hall coverage.roots [] nodup_nil

theorem graphNodes_nodup (s : Session) (coverage : InitiativeCoverage) :
    ((graphNodes s coverage).map (·.id)).Nodup := by
  rw [graphNodes, withEdges, List.map_map]
  show ((planNodes coverage ++ outsideNodes s (planNodes coverage)).map (·.id)).Nodup
  rw [List.map_append]
  refine List.Nodup.append (planNodes_nodup coverage) ?_ ?_
  · rw [outsideNodes, List.map_map]
    exact Coverage.filter_ids_nodup _
  · intro id hplan houtside
    obtain ⟨node, hnode, rfl⟩ := mem_map.mp houtside
    obtain ⟨ticket, hticket, rfl⟩ := mem_map.mp hnode
    rw [(s.rowOrder_perm _).mem_iff, mem_filter] at hticket
    exact (of_decide_eq_true hticket.2).1 hplan

theorem deps_mem (hn : n ∈ graphNodes s coverage) {d : TicketId} (hd : d ∈ n.deps) :
    d ∈ (graphNodes s coverage).map (·.id) := by
  rw [graphNodes, withEdges] at hn ⊢
  obtain ⟨node, -, rfl⟩ := List.mem_map.mp hn
  rw [List.map_map]
  exact of_decide_eq_true (mem_filter.mp hd).2

/-! ## Rewriting each node by itself -/

/-- A rewriting of statuses: the ticket and its dependencies stay. -/
def Restates (f : PlanNode → PlanNode) : Prop := ∀ n, (f n).ticket = n.ticket ∧ (f n).deps = n.deps

section

variable {f : PlanNode → PlanNode} (hf : Restates f)
include hf

theorem Restates.id_eq (n : PlanNode) : (f n).id = n.id := congrArg Coverage.Ticket.id (hf n).1

theorem Restates.ids : (nodes.map f).map (·.id) = nodes.map (·.id) := by
  rw [List.map_map]
  exact List.map_congr_left fun n _ => hf.id_eq n

theorem Restates.lookup (id : TicketId) : lookup (nodes.map f) id = (lookup nodes id).map f := by
  rw [PlanStatus.lookup, PlanStatus.lookup, List.find?_map]
  congr 2
  funext n
  show decide ((f n).id = id) = decide (n.id = id)
  rw [hf.id_eq]

theorem Restates.nodeParent : nodeParent (nodes.map f) = nodeParent nodes := by
  funext id
  rw [PlanStatus.nodeParent, PlanStatus.nodeParent, hf.lookup, hf.ids]
  cases PlanStatus.lookup nodes id with
  | none => rfl
  | some n =>
    show ((f n).ticket.parentTicketId.filter _) = _
    rw [(hf n).1]
    rfl

theorem Restates.seenFrom (held : PlanNode) :
    seenFrom (nodes.map f) held = seenFrom nodes held := by
  rw [PlanStatus.seenFrom, PlanStatus.seenFrom, hf.nodeParent, length_map]

end

theorem mem_seenFrom : id ∈ seenFrom nodes held ↔
    id = held.id ∨ TransGen (Up (nodeParent nodes)) held.id id := by
  have hdom : ∀ x y, nodeParent nodes x = some y → x ∈ nodes.map (·.id) := by
    intro x y hxy
    obtain ⟨node, hnode, -⟩ := Option.bind_eq_some_iff.mp hxy
    obtain ⟨hmem, rfl⟩ := lookup_some hnode
    exact mem_map_of_mem hmem
  constructor
  · intro hid
    rcases climb_sound _ _ _ _ id hid with hself | habove
    · exact .inl (mem_singleton.mp hself)
    · exact .inr habove
  · have hfuel : ((nodes.map (·.id)).filter (· ∉ [held.id])).length + 1 ≤ nodes.length + 1 := by
      have hle := length_filter_le (· ∉ [held.id]) (nodes.map (·.id))
      rw [length_map] at hle
      exact Nat.succ_le_succ hle
    obtain ⟨hfirst, hclosed⟩ := climb_closed (nodeParent nodes) (nodes.map (·.id)) hdom
      (nodes.length + 1) held.id [held.id]
      (fun x hx hne => absurd (mem_singleton.mp hx) hne) hfuel
    rintro (rfl | habove)
    · exact subset_climb _ _ _ _ (mem_singleton_self _)
    · induction habove with
      | single hup => exact hfirst _ hup
      | tail _ hup ih => exact hclosed _ ih _ hup

/-- What some loops make of a node: only its status, which is ready if it was and none of them has
    seen it, and done if it was. -/
structure Marks (nodes held : List PlanNode) (n m : PlanNode) : Prop where
  ticket : m.ticket = n.ticket
  deps : m.deps = n.deps
  ready : m.status = .ready ↔ n.status = .ready ∧ ∀ h ∈ held, n.id ∉ seenFrom nodes h
  done : m.status = .done ↔ n.status = .done

theorem markFrom_eq (hready : held.status ≠ .ready) (hdone : held.status ≠ .done) :
    ∃ f, markFrom nodes held = nodes.map f ∧ ∀ n, Marks nodes [held] n (f n) := by
  refine ⟨_, rfl, fun n => ?_⟩
  split
  · rename_i hmarked
    refine ⟨rfl, rfl, iff_of_false hready ?_, iff_of_false hdone ?_⟩
    · rintro ⟨-, hunseen⟩
      exact hunseen held (mem_singleton_self _) hmarked.1
    · rw [hmarked.2]
      exact NodeStatus.noConfusion
  · rename_i hkept
    refine ⟨rfl, rfl, ?_, Iff.rfl⟩
    constructor
    · intro h
      refine ⟨h, fun other hother hseen => ?_⟩
      rw [mem_singleton.mp hother] at hseen
      exact hkept ⟨hseen, h⟩
    · exact fun h => h.1

theorem Marks.restates {f : PlanNode → PlanNode} {hs : List PlanNode}
    (h : ∀ n, Marks nodes hs n (f n)) : Restates f := fun n => ⟨(h n).ticket, (h n).deps⟩

/-- **What all the loops leave.** -/
theorem foldl_markFrom (hs : List PlanNode) (hhs : ∀ h ∈ hs, h.status ≠ .ready ∧ h.status ≠ .done) :
    ∃ f, hs.foldl markFrom nodes = nodes.map f ∧ ∀ n, Marks nodes hs n (f n) := by
  induction hs generalizing nodes with
  | nil =>
    refine ⟨id, (map_id nodes).symm, fun n => ⟨rfl, rfl, ?_, Iff.rfl⟩⟩
    exact (and_iff_left fun h hh => absurd hh not_mem_nil).symm
  | cons held hs ih =>
    obtain ⟨hready, hdone⟩ := hhs held mem_cons_self
    obtain ⟨f, hf, hmarks⟩ := @markFrom_eq nodes held hready hdone
    obtain ⟨g, hg, hrest⟩ := @ih (nodes.map f) fun h hh => hhs h (mem_cons_of_mem _ hh)
    have hrestates := Marks.restates hmarks
    refine ⟨g ∘ f, ?_, fun n => ⟨?_, ?_, ?_, ?_⟩⟩
    · rw [List.foldl_cons, hf, hg, List.map_map]
    · exact (hrest (f n)).ticket.trans (hmarks n).ticket
    · exact (hrest (f n)).deps.trans (hmarks n).deps
    · show (g (f n)).status = .ready ↔ _
      rw [(hrest (f n)).ready, (hmarks n).ready, hrestates.id_eq]
      simp only [hrestates.seenFrom, forall_mem_cons, not_mem_nil, false_implies,
        implies_true, and_true, and_assoc]
    · exact (hrest (f n)).done.trans (hmarks n).done

/-- The status of a node before its dependencies are considered. -/
def ownStatus (activity : TicketId → TicketActivity) (n : PlanNode) : NodeStatus :=
  (statusOf n.ticket (activity n.id)).1

/-- An open ticket that is running, queued, or waiting at a gate. -/
structure Underway (activity : TicketId → TicketActivity) (ticket : Ticket) : Prop where
  unsettled : ticket.state ≠ .done ∧ ticket.state ≠ .wontDo
  goes : activity ticket.id ≠ .idle ∨ ticket.workflowStageStatus = .awaiting

/-- It is under way where the plan has it hold its lane. -/
theorem underway_iff :
    Underway activity ticket ↔ (statusOf ticket (activity ticket.id)).2 = true := by
  have hgoes : activity ticket.id ≠ .idle ↔
      activity ticket.id = .awaiting ∨ activity ticket.id ∈ [TicketActivity.running, .queued] := by
    cases activity ticket.id <;> simp
  have hunder : Underway activity ticket ↔ ticket.state ∉ [TicketState.done, .wontDo] ∧
      ((activity ticket.id = .awaiting ∨ ticket.workflowStageStatus = .awaiting) ∨
        activity ticket.id ∈ [TicketActivity.running, .queued]) := by
    rw [or_right_comm, ← hgoes]
    constructor
    · rintro ⟨⟨hdone, hwontDo⟩, hgoes⟩
      exact ⟨by simp [hdone, hwontDo], hgoes⟩
    · rintro ⟨hopen, hgoes⟩
      exact ⟨by simpa using hopen, hgoes⟩
  rw [hunder, statusOf]
  by_cases hsettled : ticket.state ∈ [TicketState.done, .wontDo]
  · rw [if_pos hsettled]
    exact iff_of_false (fun h => h.1 hsettled) Bool.false_ne_true
  rw [if_neg hsettled, and_iff_right hsettled]
  by_cases hgate : activity ticket.id = .awaiting ∨ ticket.workflowStageStatus = .awaiting
  · rw [if_pos hgate]
    exact iff_of_true (.inl hgate) rfl
  rw [if_neg hgate, or_iff_right hgate]
  by_cases hrun : activity ticket.id ∈ [TicketActivity.running, .queued]
  · rw [if_pos hrun]
    exact iff_of_true hrun rfl
  · rw [if_neg hrun]
    refine iff_of_false hrun ?_
    split
    · exact Bool.false_ne_true
    · split <;> exact Bool.false_ne_true

theorem Underway.status (h : Underway activity ticket) :
    (statusOf ticket (activity ticket.id)).1 ≠ .ready ∧
      (statusOf ticket (activity ticket.id)).1 ≠ .done := by
  rw [underway_iff, statusOf] at h
  rw [statusOf]
  split at h
  · cases h
  · rename_i hopen
    rw [if_neg hopen]
    split at h
    · rename_i hgate
      rw [if_pos hgate]
      exact ⟨NodeStatus.noConfusion, NodeStatus.noConfusion⟩
    · rename_i hgate
      rw [if_neg hgate]
      split at h
      · rename_i hrun
        rw [if_pos hrun]
        exact ⟨NodeStatus.noConfusion, NodeStatus.noConfusion⟩
      · split at h
        · cases h
        · split at h
          · cases h
          · cases h

/-- What `_statuses` makes of a node. -/
structure Settles (activity : TicketId → TicketActivity) (nodes : List PlanNode)
    (n m : PlanNode) : Prop where
  ticket : m.ticket = n.ticket
  deps : m.deps = n.deps
  ready : m.status = .ready ↔ ownStatus activity n = .ready ∧
    (∀ h ∈ nodes, Underway activity h.ticket → n.id ∉ seenFrom nodes h) ∧
      ∀ d ∈ n.deps, ∀ p, lookup nodes d = some p → ownStatus activity p = .done
  done : m.status = .done ↔ ownStatus activity n = .done

theorem statuses_spec (activity : TicketId → TicketActivity) (nodes : List PlanNode) :
    ∃ f, statuses activity nodes = nodes.map f ∧ ∀ n, Settles activity nodes n (f n) := by
  let own : PlanNode → PlanNode := fun node =>
    { node with
      status := (statusOf node.ticket (activity node.id)).1
      holdsLane := (statusOf node.ticket (activity node.id)).2 }
  have hown : Restates own := fun n => ⟨rfl, rfl⟩
  have hheld : ∀ h ∈ (nodes.map own).filter (·.holdsLane),
      h.status ≠ .ready ∧ h.status ≠ .done := by
    intro h hh
    obtain ⟨hmem, hholds⟩ := mem_filter.mp hh
    obtain ⟨node, -, rfl⟩ := mem_map.mp hmem
    exact (underway_iff.mpr hholds).status
  obtain ⟨f, hf, hmarks⟩ := @foldl_markFrom (nodes.map own) _ hheld
  have hrestates := Marks.restates hmarks
  have hmarked : markAncestorsUnderway (ownStatuses activity nodes) = (nodes.map own).map f := hf
  have hlookup : ∀ d, lookup ((nodes.map own).map f) d =
      (lookup nodes d).map fun p => f (own p) := by
    intro d
    rw [hrestates.lookup, hown.lookup, Option.map_map]
    rfl
  have hseen : ∀ n : PlanNode, (∀ h ∈ (nodes.map own).filter (·.holdsLane),
      n.id ∉ seenFrom (nodes.map own) h) ↔
        ∀ h ∈ nodes, Underway activity h.ticket → n.id ∉ seenFrom nodes h := by
    intro n
    constructor
    · intro hall h hh hunder
      have hmem : own h ∈ (nodes.map own).filter (·.holdsLane) :=
        mem_filter.mpr ⟨mem_map_of_mem hh, underway_iff.mp hunder⟩
      have hnot := hall (own h) hmem
      rw [hown.seenFrom] at hnot
      exact hnot
    · intro hall h hh
      obtain ⟨hmem, hholds⟩ := mem_filter.mp hh
      obtain ⟨node, hnode, rfl⟩ := mem_map.mp hmem
      rw [hown.seenFrom]
      exact hall node hnode (underway_iff.mpr hholds)
  have hwaits : ∀ n : PlanNode, (f (own n)).deps.filter (fun d =>
      (lookup ((nodes.map own).map f) d).any (·.status ≠ .done)) = [] ↔
        ∀ d ∈ n.deps, ∀ p, lookup nodes d = some p → ownStatus activity p = .done := by
    intro n
    rw [filter_eq_nil_iff, (hmarks (own n)).deps]
    refine forall₂_congr fun d _ => ?_
    rw [hlookup, Option.any_map]
    cases lookup nodes d with
    | none => simp
    | some p =>
      have hdone : (f (own p)).status = .done ↔ ownStatus activity p = .done :=
        (hmarks (own p)).done
      simp [hdone]
  rw [statuses, hmarked]
  refine ⟨_, by rw [List.map_map, List.map_map], fun n => ⟨?_, ?_, ?_, ?_⟩⟩
  · exact (hmarks (own n)).ticket
  · exact (hmarks (own n)).deps
  · show (if _ ∧ _ then _ else (f (own n)).status) = .ready ↔ _
    rw [← hseen n, ← hwaits n, ← and_assoc]
    have hready : (f (own n)).status = .ready ↔ _ := (hmarks (own n)).ready
    split
    · rename_i hwaiting
      refine iff_of_false NodeStatus.noConfusion ?_
      exact fun h => hwaiting.2 h.2
    · rename_i hfree
      rw [not_and, not_not] at hfree
      constructor
      · intro h
        exact ⟨hready.mp h, hfree h⟩
      · intro h
        exact hready.mpr h.1
  · show (if _ ∧ _ then _ else (f (own n)).status) = .done ↔ _
    have hdone : (f (own n)).status = .done ↔ ownStatus activity n = .done := (hmarks (own n)).done
    split
    · rename_i hwaiting
      refine iff_of_false NodeStatus.noConfusion fun h => ?_
      exact NodeStatus.noConfusion (hwaiting.1.symm.trans (hdone.mpr h))
    · exact hdone

/-- A ticket of the plan: one it covers, or one of its nodes. -/
def InPlan (s : Session) (coverage : InitiativeCoverage) (ticket : Ticket) : Prop :=
  ticket ∈ coverage.tickets ∨ ticket.id ∈ (graphNodes s coverage).map (·.id)

/-- No ready node has a ticket of the plan under way below it, and each of its prerequisites is
    done. -/
def ReadyIsIdle (s : Session) (coverage : InitiativeCoverage)
    (activity : TicketId → TicketActivity) : Prop :=
  ∀ n ∈ statuses activity (graphNodes s coverage), n.status = .ready →
    (∀ ticket ∈ s.tickets, InPlan s coverage ticket → Below s.toSession ticket.id n.id →
      ¬ Underway activity ticket) ∧
    ∀ d ∈ n.deps, ∃ m ∈ statuses activity (graphNodes s coverage), m.id = d ∧ m.status = .done

/-- Every node that would be ready by itself, and has a ticket of the plan under way below it, has a
    node under way whose parents, nodes all of them, lead to it. -/
def NodesBetween (s : Session) (coverage : InitiativeCoverage)
    (activity : TicketId → TicketActivity) : Prop :=
  ∀ n ∈ graphNodes s coverage, ownStatus activity n = .ready →
    (∀ d ∈ n.deps, ∃ m ∈ graphNodes s coverage, m.id = d ∧ ownStatus activity m = .done) →
    (∃ ticket ∈ s.tickets, InPlan s coverage ticket ∧ Below s.toSession ticket.id n.id ∧
      Underway activity ticket) →
    ∃ h ∈ graphNodes s coverage, Underway activity h.ticket ∧
      TransGen (Up (nodeParent (graphNodes s coverage))) h.id n.id

/-- **A ready node has nothing of its own under way**, exactly where the nodes between are there. -/
theorem ready_idle_iff (s : Session) (root : Ticket) (activity : TicketId → TicketActivity) :
    ReadyIsIdle s (planCoverage s.toSession root) activity ↔
      NodesBetween s (planCoverage s.toSession root) activity := by
  generalize planCoverage s.toSession root = coverage
  have hnodup := graphNodes_nodup s coverage
  obtain ⟨f, hf, hsettles⟩ := statuses_spec activity (graphNodes s coverage)
  have hid : ∀ n, (f n).id = n.id := fun n => congrArg Coverage.Ticket.id (hsettles n).ticket
  -- the prerequisites of a node, by its dictionary
  have hdeps : ∀ n ∈ graphNodes s coverage, (∀ d ∈ n.deps, ∀ p,
      lookup (graphNodes s coverage) d = some p → ownStatus activity p = .done) ↔
        ∀ d ∈ n.deps, ∃ m ∈ graphNodes s coverage, m.id = d ∧ ownStatus activity m = .done := by
    intro n hn
    refine forall₂_congr fun d hd => ?_
    obtain ⟨p, hp⟩ := exists_lookup (deps_mem hn hd)
    obtain ⟨hmem, hpid⟩ := lookup_some hp
    constructor
    · intro h
      exact ⟨p, hmem, hpid, h p hp⟩
    · rintro ⟨m, hm, hmid, hdone⟩ p' hp'
      cases hp.symm.trans hp'
      rw [inj_on_of_nodup_map hnodup hmem hm (hpid.trans hmid.symm)]
      exact hdone
  -- a node that is ready by itself is marked by one above which it stands
  have hmarked : ∀ n ∈ graphNodes s coverage, ownStatus activity n = .ready →
      ((∃ h ∈ graphNodes s coverage, Underway activity h.ticket ∧
        n.id ∈ seenFrom (graphNodes s coverage) h) ↔
          ∃ h ∈ graphNodes s coverage, Underway activity h.ticket ∧
            TransGen (Up (nodeParent (graphNodes s coverage))) h.id n.id) := by
    intro n hn hready
    refine exists_congr fun h => and_congr_right fun hh => and_congr_right fun hunder => ?_
    rw [mem_seenFrom]
    refine or_iff_right fun heq => ?_
    rw [inj_on_of_nodup_map hnodup hn hh heq] at hready
    exact hunder.status.1 hready
  constructor
  · intro hidle n hn hready hdone ⟨ticket, hticket, hplan, hbelow, hunder⟩
    refine (hmarked n hn hready).mp ?_
    by_contra hunseen
    have hstatus : (f n).status = .ready := by
      refine (hsettles n).ready.mpr ⟨hready, fun h hh hunder hseen => ?_, (hdeps n hn).mpr hdone⟩
      exact hunseen ⟨h, hh, hunder, hseen⟩
    have hmem : f n ∈ statuses activity (graphNodes s coverage) := by
      rw [hf]
      exact mem_map_of_mem hn
    exact (hidle (f n) hmem hstatus).1 ticket hticket hplan ((hid n).symm ▸ hbelow) hunder
  · intro hbetween m hm hstatus
    rw [hf] at hm
    obtain ⟨n, hn, rfl⟩ := mem_map.mp hm
    obtain ⟨hready, hunseen, hall⟩ := (hsettles n).ready.mp hstatus
    have hdone := (hdeps n hn).mp hall
    constructor
    · intro ticket hticket hplan hbelow hunder
      rw [hid] at hbelow
      have hspoken := hbetween n hn hready hdone ⟨ticket, hticket, hplan, hbelow, hunder⟩
      obtain ⟨h, hh, hholds, hseen⟩ := (hmarked n hn hready).mpr hspoken
      exact hunseen h hh hholds hseen
    · intro d hd
      rw [(hsettles n).deps] at hd
      obtain ⟨p, hp, hpid, hpdone⟩ := hdone d hd
      refine ⟨f p, ?_, (hid p).trans hpid, (hsettles p).done.mpr hpdone⟩
      rw [hf]
      exact mem_map_of_mem hp

def nestedPlan : Session where
  toSession := nestedMember

def taskRuns (id : TicketId) : TicketActivity := if id = 5 then .running else .idle

/-- The task under the tracked capability runs, and the feature above both is ready. -/
theorem ready_above_running :
    ¬ ReadyIsIdle nestedPlan (planCoverage nestedMember { id := 1, workItemType := .initiative })
      taskRuns := by
  intro hidle
  have hready : ∃ n ∈ statuses taskRuns (graphNodes nestedPlan
      (planCoverage nestedMember { id := 1, workItemType := .initiative })),
        n.id = 3 ∧ n.status = .ready := by decide +kernel
  obtain ⟨n, hn, hid, hstatus⟩ := hready
  let task : Ticket := { id := 5, parentTicketId := some 4, workItemType := .task }
  have hbelow : Below nestedPlan.toSession task.id n.id := by
    rw [hid]
    exact .tail (.single (show Coverage.parentOf nestedMember 5 = some 4 by decide))
      (show Coverage.parentOf nestedMember 4 = some 3 by decide)
  exact (hidle n hn hstatus).1 task (by decide) (.inr (by decide +kernel)) hbelow
    ⟨by decide, .inl (by decide)⟩

end Loregarden.PlanStatus
