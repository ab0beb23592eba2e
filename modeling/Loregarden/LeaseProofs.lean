import Loregarden.LeaseModel
import Loregarden.StampedRowProofs
import Loregarden.TicketWaitProofs

/-! # Which working orchestrations the lease spares

    An orchestration is at work while an agent run of its subtree is live, or when,
    within the lease, one finished or the orchestration or an active one beneath it
    was started or renewed. The lease predicate sees the agent runs and one stamp,
    the orchestration's own: **`lease_tells_working`** is that it answers rightly
    unless the only sign of work is one it does not look at, the stamps of an active
    orchestration beneath or a start that came after a renewal.

    * `World.Stamped`: what every history keeps of the stamp columns;
    * `orchestrationLeaseExpired_eq_false`: what the predicate reads. -/

namespace Loregarden.Orchestrations

open Relation GraphSearch Ranked Runs List OrchestrationRun World
open Lanes (Instant RunStatus OrchestrationRunStatus)
open TicketWait (Database TicketId subtreeIds mem_subtreeIds)

variable {w w' : World} {now : Instant} {lease : Int} {run r : OrchestrationRun} {id : Nat}

/-! ## Stamps -/

/-- Start of an orchestration, as the columns have it: its start, or its creation. -/
def OrchestrationRun.beganAt (r : OrchestrationRun) : Option Instant :=
  r.startedAt.or (some r.createdAt)

/-- Every stamp column holds the newest of what happened. -/
structure World.Stamped (w : World) : Prop where
  started : Tracks w.runs OrchestrationRun.beganAt w.started w.clock
  renewed : Tracks w.runs OrchestrationRun.lastSeenAt w.renewed w.clock
  finished : Tracks w.agents AgentRun.finishedAt w.finished w.clock

/-- No orchestration and no agent run yet, over a ticket forest. -/
def World.new (db : Database) (clock : Instant) : World where
  db := db
  runs := Keyed.empty
  agents := Keyed.empty
  clock := clock

theorem World.new_stamped (db : Database) (clock : Instant) : (new db clock).Stamped where
  started := .empty _ _
  renewed := .empty _ _
  finished := .empty _ _

def EventStep (w : World) (step : Instant × Event) (w' : World) : Prop :=
  w.clock ≤ step.1 ∧ w' = w.happen step.1 step.2

theorem World.Stamped.tick (h : w.Stamped) (hc : w.clock ≤ now) :
    World.Stamped { w with clock := now } :=
  ⟨h.started.tick hc, h.renewed.tick hc, h.finished.tick hc⟩

theorem get_next {R : Type*} {id : R → Nat} {t : Keyed R id} {i : Nat} {r : R}
    (h : t.get i = some r) : i < t.next := by
  obtain ⟨hmem, rfl⟩ := Keyed.get_eq_some h
  exact t.fresh r hmem

theorem next_of_not_isNone {R : Type*} {id : R → Nat} {t : Keyed R id} {i : Nat}
    (h : ¬ (t.get i).isNone = true) : i < t.next := by
  cases hr : t.get i with
  | none => exact absurd (hr ▸ rfl) h
  | some r => exact get_next hr

theorem happen_stamped (h : w.Stamped) (hc : w.clock ≤ now) (event : Event) :
    (w.happen now event).Stamped := by
  cases event with
  | claim ticketId ask ticket code =>
    exact ⟨h.started.insert_stamp (claimedRun_id _ _ _ _ _ _) rfl hc,
      (h.renewed.tick hc).insert (claimedRun_id _ _ _ _ _ _) rfl,
      h.finished.tick hc⟩
  | start ticketId ask ticket code =>
    have hbegan : (startedRun w.runs.next ticketId ask ticket code now).beganAt = some now := by
      rw [startedRun]
      split <;> rfl
    have hseen : (startedRun w.runs.next ticketId ask ticket code now).lastSeenAt = none := by
      rw [startedRun]
      split <;> rfl
    exact ⟨h.started.insert_stamp (startedRun_id _ _ _ _ _ _) hbegan hc,
      (h.renewed.tick hc).insert (startedRun_id _ _ _ _ _ _) hseen,
      h.finished.tick hc⟩
  | adopt claim ask ticket =>
    rw [happen]
    split
    · exact h.tick hc
    · next hsome =>
        exact ⟨h.started.update_stamp (adoptClaim_id _ _ _ _) (fun _ _ _ => rfl)
          (next_of_not_isNone hsome) hc,
          (h.renewed.tick hc).update (adoptClaim_id _ _ _ _) fun _ => rfl, h.finished.tick hc⟩
  | renew run =>
    rw [happen]
    split
    · exact h.tick hc
    · next hsome =>
        exact ⟨(h.started.tick hc).update (touchLease_id _) fun _ => rfl,
          h.renewed.update_stamp (touchLease_id _) (fun _ _ _ => rfl) (next_of_not_isNone hsome) hc,
          h.finished.tick hc⟩
  | finish run status message =>
    exact ⟨(h.started.tick hc).update (finishRun_id _ _ _) fun _ => rfl,
      (h.renewed.tick hc).update (finishRun_id _ _ _) fun _ => rfl,
      h.finished.tick hc⟩
  | queueAgent orchestration =>
    exact ⟨h.started.tick hc, h.renewed.tick hc, (h.finished.tick hc).insert (queuedAgent_id _ _) rfl⟩
  | moveAgent agent status =>
    rw [happen]
    split
    · exact ⟨h.started.tick hc, h.renewed.tick hc,
        (h.finished.tick hc).update (moveRun_id _) fun _ => rfl⟩
    · exact h.tick hc
  | finishAgent agent status =>
    rw [happen]
    split
    · next hlive =>
        obtain ⟨a, ha, -⟩ := (Option.any_eq_true _ _).mp hlive.1
        exact ⟨h.started.tick hc, h.renewed.tick hc,
          h.finished.update_stamp (completeRun_id _ _) (fun _ _ _ => rfl) (get_next ha) hc⟩
    · exact h.tick hc

def Beneath (db : Database) (ticketId below : TicketId) : Prop :=
  TransGen (Edge db.parentLinks) ticketId below ∧ below ≠ ticketId

theorem mem_descendantsByRoot {db : Database} {root x : TicketId} :
    x ∈ descendantsByRoot db root ↔ Beneath db root x := by
  rw [descendantsByRoot, mem_filter, decide_eq_true_iff, mem_subtreeIds, Beneath,
    reflTransGen_iff_eq_or_transGen]
  constructor
  · rintro ⟨rfl | hbelow, hne⟩
    · exact absurd rfl hne
    · exact ⟨hbelow, hne⟩
  · rintro ⟨hbelow, hne⟩
    exact ⟨.inr hbelow, hne⟩

def InScope (w : World) (run : OrchestrationRun) (id : Nat) : Prop :=
  id = run.id ∨ ∃ r ∈ w.runs.rows, r.id = id ∧ Beneath w.db run.ticketId r.ticketId

theorem mem_subtreeOrchestrationIds (hrun : run ∈ w.runs.rows) :
    id ∈ subtreeOrchestrationIds w run ↔
      ∃ r ∈ w.runs.rows, r.id = id ∧ Beneath w.db run.ticketId r.ticketId := by
  have hself : ∀ r ∈ w.runs.rows, Beneath w.db run.ticketId r.ticketId → r.id ≠ run.id := by
    intro r hr hb hid
    exact hb.2 (congrArg (·.ticketId) (Keyed.eq_of_id hr hrun hid))
  rw [subtreeOrchestrationIds]
  split
  · next hnil =>
      rw [List.isEmpty_iff] at hnil
      constructor
      · intro h
        cases h
      · rintro ⟨r, -, -, hb⟩
        rw [← mem_descendantsByRoot, hnil] at hb
        cases hb
  · simp only [mem_map, mem_filter, decide_eq_true_iff, mem_descendantsByRoot]
    constructor
    · rintro ⟨r, ⟨hr, hb, -⟩, rfl⟩
      exact ⟨r, hr, rfl, hb⟩
    · rintro ⟨r, hr, rfl, hb⟩
      exact ⟨r, ⟨hr, hb, hself r hr hb⟩, rfl⟩

theorem mem_agentsOf (hrun : run ∈ w.runs.rows) {a : AgentRun} :
    a ∈ agentsOf w (run.id :: subtreeOrchestrationIds w run) ↔
      a ∈ w.agents.rows ∧ ∃ i ∈ a.orchestrationRunId, InScope w run i := by
  rw [agentsOf, mem_filter, Option.any_eq_true]
  simp only [decide_eq_true_iff, mem_cons, mem_subtreeOrchestrationIds hrun, InScope,
    Option.mem_def]

def Within (now : Instant) (lease : Int) (stamp : Instant) : Prop := now - stamp ≤ lease

theorem Within.later (x y : Instant) (hle : x ≤ y) (h : Within now lease x) : Within now lease y :=
  le_trans (Int.sub_le_sub_left hle now) h

/-- The one stamp of an orchestration that its lease is judged by. -/
def OrchestrationRun.ownStamp (r : OrchestrationRun) : Option Instant := r.lastSeenAt.or r.beganAt

theorem latestActivity_eq (w : World) (r : OrchestrationRun) (ids : List Nat) :
    latestActivity w r ids = (r.ownStamp.toList
      ++ (((agentsOf w ids).filterMap (·.finishedAt)).max?).toList).max? := by
  rw [latestActivity, ownStamp, beganAt, Option.or_assoc]
  cases r.lastSeenAt.or (r.startedAt.or (some r.createdAt)) <;>
    cases ((agentsOf w ids).filterMap (·.finishedAt)).max? <;> rfl

theorem ownStamp_isSome (r : OrchestrationRun) : ∃ x, r.ownStamp = some x := by
  rw [ownStamp, beganAt]
  cases r.lastSeenAt with
  | some x => exact ⟨x, rfl⟩
  | none =>
    cases r.startedAt with
    | some x => exact ⟨x, rfl⟩
    | none => exact ⟨r.createdAt, rfl⟩

/-- **What the predicate reads**: the agent runs of the subtree and one stamp. -/
theorem orchestrationLeaseExpired_eq_false : orchestrationLeaseExpired w now lease run = false ↔
      (∃ a ∈ agentsOf w (run.id :: subtreeOrchestrationIds w run), a.status.live = true) ∨
      (∃ a ∈ agentsOf w (run.id :: subtreeOrchestrationIds w run),
        ∃ x ∈ a.finishedAt, Within now lease x) ∨
      ∃ x ∈ run.ownStamp, Within now lease x := by
  rw [orchestrationLeaseExpired]
  generalize run.id :: subtreeOrchestrationIds w run = ids
  split
  · next hlive =>
      rw [any_eq_true] at hlive
      exact ⟨fun _ => .inl hlive, fun _ => rfl⟩
  · next hdead =>
      rw [any_eq_true] at hdead
      have hfinish : (∃ a ∈ agentsOf w ids, ∃ x ∈ a.finishedAt, Within now lease x) ↔
          ∃ x ∈ ((agentsOf w ids).filterMap (·.finishedAt)).max?, Within now lease x := by
        rw [exists_mem_max? Within.later]
        constructor
        · rintro ⟨a, ha, x, hx, hw⟩
          exact ⟨x, mem_filterMap.mpr ⟨a, ha, hx⟩, hw⟩
        · rintro ⟨x, hx, hw⟩
          obtain ⟨a, ha, hax⟩ := mem_filterMap.mp hx
          exact ⟨a, ha, x, hax, hw⟩
      have hlatest : (∃ x ∈ latestActivity w run ids, Within now lease x) ↔
          (∃ a ∈ agentsOf w ids, ∃ x ∈ a.finishedAt, Within now lease x) ∨
            ∃ x ∈ run.ownStamp, Within now lease x := by
        rw [latestActivity_eq, exists_mem_max? Within.later, hfinish]
        constructor
        · rintro ⟨x, hx, hw⟩
          rcases mem_append.mp hx with hx | hx
          · exact .inr ⟨x, Option.mem_toList.mp hx, hw⟩
          · exact .inl ⟨x, Option.mem_toList.mp hx, hw⟩
        · rintro (⟨x, hx, hw⟩ | ⟨x, hx, hw⟩)
          · exact ⟨x, mem_append_right _ (Option.mem_toList.mpr hx), hw⟩
          · exact ⟨x, mem_append_left _ (Option.mem_toList.mpr hx), hw⟩
      rw [← hlatest, or_iff_right hdead]
      -- the orchestration's own stamp is always there
      obtain ⟨y, hy⟩ := ownStamp_isSome run
      cases hstamp : latestActivity w run ids with
      | none =>
        rw [latestActivity_eq, List.max?_eq_none_iff, hy] at hstamp
        cases hstamp
      | some x =>
        rw [decide_eq_false_iff_not, not_lt]
        constructor
        · intro hw
          exact ⟨x, rfl, hw⟩
        · rintro ⟨z, hz, hw⟩
          cases hz
          exact hw

/-! ## Signs of work -/

/-- It was claimed, started or adopted within the lease. -/
def StartedWithin (w : World) (now : Instant) (lease : Int) (id : Nat) : Prop :=
  ∃ x, (id, x) ∈ w.started ∧ Within now lease x

def RenewedWithin (w : World) (now : Instant) (lease : Int) (id : Nat) : Prop :=
  ∃ x, (id, x) ∈ w.renewed ∧ Within now lease x

/-- An agent run of the subtree is queued or in flight. -/
def AgentWorking (w : World) (run : OrchestrationRun) : Prop :=
  ∃ a ∈ w.agents.rows, (∃ i ∈ a.orchestrationRunId, InScope w run i) ∧ a.status.live = true

/-- An agent run of the subtree finished within the lease. -/
def AgentFinished (w : World) (now : Instant) (lease : Int) (run : OrchestrationRun) : Prop :=
  ∃ a ∈ w.agents.rows, (∃ i ∈ a.orchestrationRunId, InScope w run i) ∧
    ∃ x, (a.id, x) ∈ w.finished ∧ Within now lease x

/-- An active orchestration beneath was started or renewed within the lease. -/
def NestedDriver (w : World) (now : Instant) (lease : Int) (run : OrchestrationRun) : Prop :=
  ∃ r ∈ w.runs.rows, Beneath w.db run.ticketId r.ticketId ∧ r.status.live = true ∧
    (StartedWithin w now lease r.id ∨ RenewedWithin w now lease r.id)

def Working (w : World) (now : Instant) (lease : Int) (run : OrchestrationRun) : Prop :=
  AgentWorking w run ∨ AgentFinished w now lease run ∨ StartedWithin w now lease run.id ∨
    RenewedWithin w now lease run.id ∨ NestedDriver w now lease run

/-- The only sign of work is a nested driver, or a start after a renewal. -/
structure HiddenSign (w : World) (now : Instant) (lease : Int) (run : OrchestrationRun) :
    Prop where
  noAgent : ¬ AgentWorking w run
  noFinish : ¬ AgentFinished w now lease run
  noRenewal : ¬ RenewedWithin w now lease run.id
  /-- It was renewed once, or it was not started within the lease. -/
  noStart : (∃ x, (run.id, x) ∈ w.renewed) ∨ ¬ StartedWithin w now lease run.id
  sign : NestedDriver w now lease run ∨ StartedWithin w now lease run.id

section

variable (h : w.Stamped) (hrun : run ∈ w.runs.rows)
include h hrun

theorem ownStamp_iff :
    (∃ x ∈ run.ownStamp, Within now lease x) ↔ RenewedWithin w now lease run.id ∨
      (¬ ∃ x, (run.id, x) ∈ w.renewed) ∧ StartedWithin w now lease run.id := by
  have hrenewed : RenewedWithin w now lease run.id ↔ ∃ x ∈ run.lastSeenAt, Within now lease x :=
    h.renewed.exists_iff Within.later hrun
  have hstarted : StartedWithin w now lease run.id ↔ ∃ x ∈ run.beganAt, Within now lease x :=
    h.started.exists_iff Within.later hrun
  have hever : (∃ x, (run.id, x) ∈ w.renewed) ↔ ∃ x, x ∈ run.lastSeenAt := by
    have := h.renewed.exists_iff (P := fun _ => True) (fun _ _ _ _ => trivial) hrun
    simpa using this
  rw [hrenewed, hstarted, hever, ownStamp]
  cases run.lastSeenAt with
  | none | some x => simp

theorem orchestrationLeaseExpired_iff :
    orchestrationLeaseExpired w now lease run = false ↔
      AgentWorking w run ∨ AgentFinished w now lease run ∨ RenewedWithin w now lease run.id ∨
        (¬ ∃ x, (run.id, x) ∈ w.renewed) ∧ StartedWithin w now lease run.id := by
  have hlive : (∃ a ∈ agentsOf w (run.id :: subtreeOrchestrationIds w run),
      a.status.live = true) ↔ AgentWorking w run := by
    simp only [mem_agentsOf hrun, AgentWorking, and_assoc]
  have hfinish : (∃ a ∈ agentsOf w (run.id :: subtreeOrchestrationIds w run),
      ∃ x ∈ a.finishedAt, Within now lease x) ↔ AgentFinished w now lease run := by
    simp only [mem_agentsOf hrun, AgentFinished, and_assoc]
    refine exists_congr fun a => and_congr_right fun ha => and_congr_right fun _ => ?_
    exact (h.finished.exists_iff Within.later ha).symm
  rw [orchestrationLeaseExpired_eq_false, hlive, hfinish, ownStamp_iff h hrun]

/-- The predicate answers rightly unless the only sign of work is one it does not look at. -/
theorem leaseExpired_right_iff :
    (orchestrationLeaseExpired w now lease run = false ↔ Working w now lease run) ↔
      ¬ HiddenSign w now lease run := by
  rw [orchestrationLeaseExpired_iff h hrun]
  constructor
  · rintro hiff ⟨hagent, hfinish, hrenewal, hstart, hsign⟩
    have hwork : Working w now lease run := by
      rcases hsign with hnested | hstarted
      · exact .inr (.inr (.inr (.inr hnested)))
      · exact .inr (.inr (.inl hstarted))
    rcases hiff.mpr hwork with ha | hf | hr | ⟨hnever, hs⟩
    · exact hagent ha
    · exact hfinish hf
    · exact hrenewal hr
    · rcases hstart with hever | hnot
      · exact hnever hever
      · exact hnot hs
  · intro hopen
    constructor
    · rintro (ha | hf | hr | ⟨-, hs⟩)
      · exact .inl ha
      · exact .inr (.inl hf)
      · exact .inr (.inr (.inr (.inl hr)))
      · exact .inr (.inr (.inl hs))
    · intro hwork
      by_contra hnone
      rw [not_or, not_or, not_or] at hnone
      obtain ⟨hagent, hfinish, hrenewal, hfirst⟩ := hnone
      refine hopen ⟨hagent, hfinish, hrenewal, ?_, ?_⟩
      · by_cases hever : ∃ x, (run.id, x) ∈ w.renewed
        · exact .inl hever
        · exact .inr fun hs => hfirst ⟨hever, hs⟩
      · rcases hwork with ha | hf | hs | hr | hn
        · exact absurd ha hagent
        · exact absurd hf hfinish
        · exact .inr hs
        · exact absurd hr hrenewal
        · exact .inl hn

end

/-! ## The sweep -/

def judged (r : OrchestrationRun) : Nat × TicketId × Option Instant :=
  (r.id, r.ticketId, r.ownStamp)

structure SameJudged (w w' : World) : Prop where
  db : w'.db = w.db
  agents : w'.agents = w.agents
  runs : w'.runs.rows.map judged = w.runs.rows.map judged

theorem map_filter_ids (rows : List OrchestrationRun) (descendants : List TicketId) (id : Nat) :
    (rows.filter fun r => r.ticketId ∈ descendants ∧ r.id ≠ id).map (·.id)
      = ((rows.map judged).filter fun e => e.2.1 ∈ descendants ∧ e.1 ≠ id).map (·.1) := by
  rw [List.filter_map, List.map_map]
  rfl

theorem SameJudged.expired (h : SameJudged w w') (hr : judged r = judged run) :
    orchestrationLeaseExpired w' now lease r = orchestrationLeaseExpired w now lease run := by
  obtain ⟨hid, hticket, hstamp⟩ : r.id = run.id ∧ r.ticketId = run.ticketId ∧
      r.ownStamp = run.ownStamp := by
    rw [judged, judged, Prod.mk.injEq, Prod.mk.injEq] at hr
    exact hr
  have hsubtree : subtreeOrchestrationIds w' r = subtreeOrchestrationIds w run := by
    rw [subtreeOrchestrationIds, subtreeOrchestrationIds, map_filter_ids, map_filter_ids, h.db,
      h.runs, hid, hticket]
  have hagents : ∀ ids, agentsOf w' ids = agentsOf w ids := fun ids => by
    rw [agentsOf, agentsOf, h.agents]
  rw [orchestrationLeaseExpired, orchestrationLeaseExpired, latestActivity_eq, latestActivity_eq,
    hsubtree, hid, hagents, hstamp]

theorem settleCandidate_same {state : World × List Nat} (h : SameJudged w state.1) (id : Nat) :
    SameJudged w (settleCandidate now state id).1 := by
  obtain ⟨w', settled⟩ := state
  rw [settleCandidate]
  cases w'.runs.get id with
  | none => exact h
  | some run =>
    dsimp only
    split
    · refine ⟨h.db, h.agents, ?_⟩
      rw [← h.runs]
      show (List.map _ _).map judged = _
      rw [List.map_map]
      refine map_congr_left fun r _ => ?_
      -- failing a run leaves what it is judged by
      show judged (if r.id = id then _ else r) = judged r
      split <;> rfl
    · exact h

theorem settleCandidate_expired {state : World × List Nat} (h : SameJudged w state.1)
    (hs : ∀ i ∈ state.2, ∃ r ∈ w.runs.rows, r.id = i ∧
      orchestrationLeaseExpired w now orchestrationLease r = true) (id : Nat) :
    ∀ i ∈ (settleCandidate now state id).2, ∃ r ∈ w.runs.rows, r.id = i ∧
      orchestrationLeaseExpired w now orchestrationLease r = true := by
  obtain ⟨w', settled⟩ := state
  rw [settleCandidate]
  cases hget : w'.runs.get id with
  | none => exact hs
  | some run =>
    dsimp only
    split
    · next hexp =>
        obtain ⟨hmem, hid⟩ := Keyed.get_eq_some hget
        intro i hi
        rcases mem_append.mp hi with hi | hi
        · exact hs i hi
        · have hj : judged run ∈ w.runs.rows.map judged := h.runs ▸ mem_map_of_mem hmem
          obtain ⟨r, hr, hrj⟩ := mem_map.mp hj
          refine ⟨r, hr, ?_, ?_⟩
          · rw [mem_singleton.mp hi, ← hid]
            exact congrArg Prod.fst hrj
          · rw [← h.expired hrj.symm]
            exact hexp.1
    · exact hs

theorem settle_expired {i : Nat} (h : i ∈ (settleExpiredOrchestrationLeases w now).2) :
    ∃ r ∈ w.runs.rows, r.id = i ∧ orchestrationLeaseExpired w now orchestrationLease r = true := by
  have hloop : ∀ (ids : List Nat) (state : World × List Nat), SameJudged w state.1 →
      (∀ i ∈ state.2, ∃ r ∈ w.runs.rows, r.id = i ∧
        orchestrationLeaseExpired w now orchestrationLease r = true) →
      ∀ i ∈ (ids.foldl (settleCandidate now) state).2, ∃ r ∈ w.runs.rows, r.id = i ∧
        orchestrationLeaseExpired w now orchestrationLease r = true := by
    intro ids
    induction ids with
    | nil => exact fun _ _ hs => hs
    | cons id ids ih =>
      intro state hj hs
      exact ih _ (settleCandidate_same hj id) (settleCandidate_expired hj hs id)
  exact hloop _ (w, []) ⟨rfl, rfl, rfl⟩ (fun _ hi => by cases hi) i h

theorem Stamped_of_run {db : Database} {clock : Instant} {trace : List (Instant × Event)}
    (hr : Run EventStep (new db clock) trace w) : w.Stamped := by
  refine Run.invariant (P := World.Stamped) ?_ (new_stamped db clock) hr
  rintro w ⟨now, event⟩ _ hw ⟨hc, rfl⟩
  exact happen_stamped hw hc event

/-- **The lease tells who works**: after every history over every ticket forest, the predicate is
    false exactly of what is at work unless the only sign of work is a nested driver or a start
    after a renewal; and short of that the sweep fails nothing at work. -/
theorem lease_tells_working {db : Database} {clock : Instant} {trace : List (Instant × Event)}
    (hr : Run EventStep (World.new db clock) trace w) (hrun : run ∈ w.runs.rows) (now : Instant) :
    (∀ lease, (orchestrationLeaseExpired w now lease run = false ↔ Working w now lease run) ↔
      ¬ HiddenSign w now lease run) ∧
    (¬ HiddenSign w now orchestrationLease run → Working w now orchestrationLease run →
      run.id ∉ (settleExpiredOrchestrationLeases w now).2) := by
  have hstamped := Stamped_of_run hr
  refine ⟨fun lease => leaseExpired_right_iff hstamped hrun, fun hopen hwork hsettled => ?_⟩
  obtain ⟨r, hrow, hid, hexp⟩ := settle_expired hsettled
  rw [Keyed.eq_of_id hrow hrun hid] at hexp
  rw [((leaseExpired_right_iff hstamped hrun).mpr hopen).mpr hwork] at hexp
  cases hexp

/-! ## A parent and its child -/

theorem parentAndChild_nodup : ([1, 2] : List TicketId).Nodup := by decide

def parentAndChild : Database where
  tickets := [⟨1, none, .milestone, none, false, 0, ""⟩, ⟨2, none, .feature, some 1, false, 0, ""⟩]
  dependencies := []
  ids_nodup := parentAndChild_nodup

def worldAfter (events : List (Instant × Event)) : World :=
  events.foldl (fun w e => w.happen e.1 e.2) (World.new parentAndChild 0)

/-- The parent starts, its nested driver starts, and renews its own lease. -/
def nestedDrive : List (Instant × Event) :=
  [(0, .start 1 {} {} "orch_1"), (60, .start 2 {} {} "orch_2"), (1700, .renew 1)]

def parentRun : OrchestrationRun := startedRun 0 1 {} {} "orch_1" 0

theorem parentRun_mem : parentRun ∈ (worldAfter nestedDrive).runs.rows := by decide +kernel

theorem run_nestedDrive :
    Run EventStep (new parentAndChild 0) nestedDrive (worldAfter nestedDrive) :=
  .cons ⟨by decide, rfl⟩ (.cons ⟨by decide, rfl⟩ (.cons ⟨by decide, rfl⟩ (.nil _)))

theorem lease_tells_working_nested :
    (∀ lease, (orchestrationLeaseExpired (worldAfter nestedDrive) 1900 lease parentRun = false ↔
      Working (worldAfter nestedDrive) 1900 lease parentRun) ↔
        ¬ HiddenSign (worldAfter nestedDrive) 1900 lease parentRun) ∧
    (¬ HiddenSign (worldAfter nestedDrive) 1900 orchestrationLease parentRun →
      Working (worldAfter nestedDrive) 1900 orchestrationLease parentRun →
        parentRun.id ∉ (settleExpiredOrchestrationLeases (worldAfter nestedDrive) 1900).2) :=
  lease_tells_working run_nestedDrive parentRun_mem 1900

/-- The nested driver renewed 200 seconds ago, and the sweep fails its parent. -/
theorem lease_hides_nested_driver :
    ∃ trace w, Run EventStep (World.new parentAndChild 0) trace w ∧ ∃ run ∈ w.runs.rows,
      Working w 1900 orchestrationLease run ∧
      orchestrationLeaseExpired w 1900 orchestrationLease run = true ∧
      run.id ∈ (settleExpiredOrchestrationLeases w 1900).2 := by
  refine ⟨_, _, run_nestedDrive, parentRun, parentRun_mem, ?_, by decide +kernel,
    by decide +kernel⟩
  have hchild : touchLease 1700 (startedRun 1 2 {} {} "orch_2" 60)
      ∈ (worldAfter nestedDrive).runs.rows := by decide +kernel
  have hrenewed : (1, 1700) ∈ (worldAfter nestedDrive).renewed := by decide +kernel
  refine .inr (.inr (.inr (.inr ⟨_, hchild, ⟨.single ?_, by decide⟩, rfl, ?_⟩)))
  · exact mem_singleton.mpr rfl
  · exact .inr ⟨1700, hrenewed, show (1900 : Int) - 1700 ≤ 1800 by decide⟩

end Loregarden.Orchestrations

