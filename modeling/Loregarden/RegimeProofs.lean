import Loregarden.AdmissionModel
import Loregarden.LaneLifeProofs
import Loregarden.RunProofs

/-! # Two queue regimes in one table

`queued_runs` holds entries that `queue_run` parked, which name a run and wait for any free slot,
and entries that `add_to_lane` made, which name a ticket and wait in their lane. `Fits` says what an
entry may look like for the request it was made for; `regimes_stay_apart` is that every entry fits,
in every state of a run in which no lane is started over a parked run and no lane entry that names a
run is retried. -/

namespace Loregarden.Lanes

open Ranked Runs List Option Bool

variable {n : Nat} {L : LaneService} {only : Option Nat} {ws : WorkspaceId}

inductive Origin where
  /-- `queue_run`. -/
  | parkedRun (run : Nat)
  /-- `add_to_lane`. -/
  | laneWork (entryKind : QueueEntryKind) (stageKey : String) (ask : Ask)
  /-- `ensure_active_entry_for_orchestration`. -/
  | adopted
  deriving DecidableEq

/-- An entry as its own regime leaves it. A promotion leaves the entry promoted; a lane start leaves
    on it the run, or the orchestration, that it dispatched. -/
def Fits : Origin → QueuedRun → Prop
  | .parkedRun run, e =>
    e.runId = some run ∧ e.orchestrationRunId = none ∧ e.entryKind = .orchestration ∧
      e.status ≠ .active ∧ e.status ≠ .repairing
  | .laneWork entryKind stageKey ask, e =>
    e.entryKind = entryKind ∧ e.stageKey = stageKey ∧ e.ask = ask ∧ e.status ≠ .promoted ∧
      (e.status = .queued → e.runId = none) ∧
      (entryKind = .orchestration → e.runId = none) ∧
      (entryKind = .stage → e.orchestrationRunId = none)
  | .adopted, e =>
    e.entryKind = .orchestration ∧ e.runId = none ∧ e.orchestrationRunId.isSome ∧
      e.status.waiting = false ∧ e.status ≠ .promoted ∧ e.status ≠ .failed

def Origin.parked : Origin → Bool
  | .parkedRun _ => true
  | _ => false

/-! ## Calls -/

inductive QueueCall where
  | queueRun (workspaceId : WorkspaceId) (ticketId : TicketId) (run : Nat)
      (preferred : Option Nat)
  | promoteFromQueue (only : Option Nat)
  | onRunComplete (run : Nat)
  | addToLane (ticketId : TicketId) (slotNumber : Nat) (entryKind : QueueEntryKind)
      (stageKey : String) (ask : Ask)
  | startLaneHead (slotNumber : Nat)
  | onOrchestrationComplete (orch : Nat)
  | reconcileLanes
  | retryFailedEntry (workspaceId : WorkspaceId) (id : EntryId)
  | retryAllFailed (workspaceId : WorkspaceId)

def QueueCall.serve (Q : QueueService) (b : Board) : QueueCall → Board
  | .queueRun ws ticketId run preferred => (Lanes.queueRun Q b ws ticketId run preferred).1
  | .promoteFromQueue only => (Lanes.promoteFromQueue Q b only).1
  | .onRunComplete run => Lanes.onRunComplete Q b run
  | .addToLane ticketId n kind stageKey ask =>
    (Lanes.addToLane Q.toLaneService b ticketId n kind stageKey ask).1
  | .startLaneHead n => (Lanes.startLaneHead Q.toLaneService b n).1
  | .onOrchestrationComplete orch => Lanes.onOrchestrationComplete Q.toLaneService b orch
  | .reconcileLanes => (Lanes.reconcileLanes Q.toLaneService b).1
  | .retryFailedEntry ws id =>
    b.onEntries fun t => (Lanes.retryFailedEntry Q.toLaneService t ws id).1
  | .retryAllFailed ws => b.onEntries fun t => Lanes.retryAllFailed Q.toLaneService t ws

def QueueCall.origin : QueueCall → Origin
  | .queueRun _ _ run _ => .parkedRun run
  | .addToLane _ _ kind stageKey ask => .laneWork kind stageKey ask
  | _ => .adopted

structure Ledgered where
  board : Board
  origin : EntryId → Origin

/-- One call, made when the rest of the program stands as `step.1`. -/
def Ledgered.serve (Q : QueueService) (s : Ledgered) (step : Outside × QueueCall) : Ledgered where
  board := step.2.serve Q { s.board with outside := step.1 }
  origin := fun i => if i < s.board.entries.next then s.origin i else step.2.origin

def QueueStep (Q : QueueService) (s : Ledgered) (step : Outside × QueueCall) (s' : Ledgered) :
    Prop :=
  s' = s.serve Q step

/-- No run that `queue_run` parked waits in this lane. -/
def LaneQuiet (s : Ledgered) (n : Nat) : Prop :=
  ∀ e ∈ s.board.entries.rows, e.inLane n = true → (s.origin e.id).parked = false

/-- A retry of this entry puts back a run that `queue_run` parked, or work that names no run. -/
def Retriable (origin : EntryId → Origin) (e : QueuedRun) : Prop :=
  e.retryCount < e.maxRetries →
    origin e.id ≠ .adopted ∧ (e.runId.isSome → (origin e.id).parked = true)

/-- The condition on a call, in the state it is made in: an idle lane is started only while no
    parked run waits in it, and a lane entry is retried only while it names no run. -/
def KeepsApart (Q : QueueService) (s : Ledgered) : QueueCall → Prop
  | .queueRun .. | .promoteFromQueue _ | .onRunComplete _ => True
  | .addToLane _ n .. => (initializeSlots Q.toLaneService s.board).laneIdle n → LaneQuiet s n
  | .startLaneHead n => s.board.laneIdle n → LaneQuiet s n
  | .onOrchestrationComplete orch => ∀ n, completionLanes s.board orch n → LaneQuiet s n
  | .reconcileLanes => ∀ n, LaneQuiet s n
  | .retryFailedEntry ws id =>
    ∀ e, workspaceEntry s.board.entries ws id = some e → Retriable s.origin e
  | .retryAllFailed ws => ∀ e ∈ failedEntries s.board.entries ws, Retriable s.origin e

abbrev ApartStep (Q : QueueService) : Ledgered → Outside × QueueCall → Ledgered → Prop :=
  Guarded (QueueStep Q) fun s step => KeepsApart Q s step.2

/-! ## Each change keeps an entry in its regime -/

variable {o : Origin} {e e' : QueuedRun} {Q : QueueService} {origin : EntryId → Origin}

structure SameAsk (e e' : QueuedRun) : Prop where
  kind : e'.entryKind = e.entryKind
  key : e'.stageKey = e.stageKey
  ask : e'.ask = e.ask

section

variable (h : Fits o e)
include h

section

variable (ha : SameAsk e e') (hr : e'.runId = e.runId)
  (ho : e'.orchestrationRunId = e.orchestrationRunId)
include ha hr ho

theorem Fits.congr (hs : e'.status = e.status) :
    Fits o e' := by
  cases o <;> simpa only [Fits, ha.kind, ha.key, ha.ask, hr, ho, hs] using h

theorem Fits.ended
    (hs : e'.status = .started ∨ e'.status = .cancelled) : Fits o e' := by
  have hnot : e'.status ≠ .active ∧ e'.status ≠ .repairing ∧ e'.status ≠ .promoted ∧
      e'.status ≠ .failed ∧ e'.status.waiting = false := by
    rcases hs with hs | hs <;> rw [hs] <;> simp [QueuePosition.waiting]
  obtain ⟨h1, h2, h3, h4, h5⟩ := hnot
  have hqueued : e'.status ≠ .queued := fun hq => by rw [hq] at h5; cases h5
  cases o with
  | parkedRun run =>
    obtain ⟨hrun, horch, hkind, -⟩ := h
    exact ⟨hr.trans hrun, ho.trans horch, ha.kind.trans hkind, h1, h2⟩
  | laneWork kind stageKey ask =>
    obtain ⟨hkind, hkey, hask, -, -, hwhole, hstage⟩ := h
    exact ⟨ha.kind.trans hkind, ha.key.trans hkey, ha.ask.trans hask, h3,
      fun hq => absurd hq hqueued, fun hk => hr.trans (hwhole hk), fun hk => ho.trans (hstage hk)⟩
  | adopted =>
    obtain ⟨hkind, hrun, horch, -⟩ := h
    exact ⟨ha.kind.trans hkind, hr.trans hrun, ho ▸ horch, h5, h3, h4⟩

end

theorem Fits.repairing (hp : o.parked = false) (ha : SameAsk e e')
    (hr : e'.runId = e.runId) (ho : e'.orchestrationRunId = e.orchestrationRunId)
    (hs : e'.status = .repairing) : Fits o e' := by
  cases o with
  | parkedRun run => cases hp
  | laneWork kind stageKey ask =>
    obtain ⟨hkind, hkey, hask, -, -, hwhole, hstage⟩ := h
    exact ⟨ha.kind.trans hkind, ha.key.trans hkey, ha.ask.trans hask, by simp [hs],
      by simp [hs], fun hk => hr.trans (hwhole hk), fun hk => ho.trans (hstage hk)⟩
  | adopted =>
    obtain ⟨hkind, hrun, horch, -⟩ := h
    exact ⟨ha.kind.trans hkind, hr.trans hrun, ho ▸ horch, by rw [hs]; rfl, by simp [hs],
      by simp [hs]⟩

theorem Fits.startedStage (hp : o.parked = false) (hkind : e.entryKind = .stage) (ha : SameAsk e e')
    (ho : e'.orchestrationRunId = e.orchestrationRunId) (hs : e'.status = .active) : Fits o e' := by
  cases o with
  | parkedRun run => cases hp
  | laneWork kind stageKey ask =>
    obtain ⟨hk, hkey, hask, -, -, -, hstage⟩ := h
    refine ⟨ha.kind.trans hk, ha.key.trans hkey, ha.ask.trans hask, by simp [hs], by simp [hs],
      fun hwhole => ?_, fun hk => ho.trans (hstage hk)⟩
    rw [hkind, hwhole] at hk
    cases hk
  | adopted =>
    obtain ⟨hk, -⟩ := h
    rw [hkind] at hk
    cases hk

theorem Fits.startedWhole (hp : o.parked = false)
    (hkind : e.entryKind = .orchestration) (ha : SameAsk e e') (hr : e'.runId = e.runId)
    (ho : e'.orchestrationRunId.isSome) (hs : e'.status = .active) : Fits o e' := by
  cases o with
  | parkedRun run => cases hp
  | laneWork kind stageKey ask =>
    obtain ⟨hk, hkey, hask, -, -, hwhole, -⟩ := h
    refine ⟨ha.kind.trans hk, ha.key.trans hkey, ha.ask.trans hask, by simp [hs], by simp [hs],
      fun hk => hr.trans (hwhole hk), fun hstage => ?_⟩
    rw [hkind, hstage] at hk
    cases hk
  | adopted =>
    obtain ⟨hk, hrun, -⟩ := h
    exact ⟨ha.kind.trans hk, hr.trans hrun, ho, by rw [hs]; rfl, by simp [hs], by simp [hs]⟩

theorem Fits.queued (hadopted : o ≠ .adopted)
    (hrun : e.runId.isSome → o.parked = true) (ha : SameAsk e e') (hr : e'.runId = e.runId)
    (ho : e'.orchestrationRunId = e.orchestrationRunId) (hs : e'.status = .queued) : Fits o e' := by
  cases o with
  | parkedRun run =>
    obtain ⟨hrun, horch, hkind, -⟩ := h
    exact ⟨hr.trans hrun, ho.trans horch, ha.kind.trans hkind, by simp [hs], by simp [hs]⟩
  | laneWork kind stageKey ask =>
    obtain ⟨hkind, hkey, hask, -, -, hwhole, hstage⟩ := h
    have hnone : e.runId = none := by
      cases he : e.runId with
      | none => rfl
      | some run => cases hrun (he ▸ rfl)
    exact ⟨ha.kind.trans hkind, ha.key.trans hkey, ha.ask.trans hask, by simp [hs],
      fun _ => hr.trans hnone, fun hk => hr.trans (hwhole hk), fun hk => ho.trans (hstage hk)⟩
  | adopted => exact absurd rfl hadopted

theorem parked_of_orchestration (ho : e.orchestrationRunId.isSome) : o.parked = false := by
  cases o with
  | parkedRun run =>
    rw [h.2.1] at ho
    cases ho
  | laneWork kind stageKey ask | adopted => rfl

theorem parked_of_status (hs : e.status = .active ∨ e.status = .repairing) : o.parked = false := by
  cases o with
  | parkedRun run =>
    obtain ⟨-, -, -, hactive, hrepairing⟩ := h
    rcases hs with hs | hs
    · exact absurd hs hactive
    · exact absurd hs hrepairing
  | laneWork kind stageKey ask | adopted => rfl

theorem not_adopted_of_orchestration (ho : e.orchestrationRunId = none) : o ≠ .adopted := by
  rintro rfl
  obtain ⟨-, -, horch, -⟩ := h
  rw [ho] at horch
  cases horch

end

/-- The entry fits its origin, and no parked run waits in one of these lanes. -/
def Apart (origin : EntryId → Origin) (lanes : Nat → Prop) (e : QueuedRun) : Prop :=
  Fits (origin e.id) e ∧ ∀ n, lanes n → e.inLane n = true → (origin e.id).parked = false

variable {lanes : Nat → Prop}

theorem not_inLane (hs : e.status.waiting = false) : e.inLane n = false := by
  rw [QueuedRun.inLane, hs, Bool.false_and]

theorem Apart.of_not_waiting (h : Fits (origin e.id) e) (hs : e.status.waiting = false) :
    Apart origin lanes e :=
  ⟨h, fun n _ hin => by rw [not_inLane hs] at hin; cases hin⟩

theorem apart_startKept (origin : EntryId → Origin) (lanes : Nat → Prop) :
    StartKept lanes (Apart origin lanes) where
  renumbered _ _ h := ⟨h.1.congr ⟨rfl, rfl, rfl⟩ rfl rfl rfl, h.2⟩
  refused _ _ h := ⟨h.1.congr ⟨rfl, rfl, rfl⟩ rfl rfl rfl, h.2⟩
  startedStage _ n _ _ hn hin hk h :=
    .of_not_waiting (h.1.startedStage (h.2 n hn hin) hk ⟨rfl, rfl, rfl⟩ rfl rfl) rfl
  startedWhole _ n _ _ hn hin hk h :=
    .of_not_waiting (h.1.startedWhole (h.2 n hn hin) hk ⟨rfl, rfl, rfl⟩ rfl rfl rfl) rfl

theorem apart_completionKept (origin : EntryId → Origin) (lanes : Nat → Prop) :
    CompletionKept lanes (Apart origin lanes) where
  toStartKept := apart_startKept origin lanes
  settled _ _ h := .of_not_waiting (h.1.ended ⟨rfl, rfl, rfl⟩ rfl rfl (.inl rfl)) rfl
  held _ _ ho h :=
    .of_not_waiting (h.1.repairing (parked_of_orchestration h.1 ho) ⟨rfl, rfl, rfl⟩ rfl rfl rfl) rfl

theorem apart_repairKept (hs : e.status = .repairing) (h : Apart origin lanes e) :
    RepairKept (Apart origin lanes) e := by
  have hparked := parked_of_status h.1 (.inr hs)
  have hwaits : e.status.waiting = false := by rw [hs]; rfl
  refine ⟨fun reason => ?_, fun count => ?_, fun count reason => ?_, fun count run now hk => ?_,
    fun count orch now hk => ?_⟩
  · exact .of_not_waiting (h.1.ended ⟨rfl, rfl, rfl⟩ rfl rfl (.inl rfl)) rfl
  · exact .of_not_waiting (h.1.congr ⟨rfl, rfl, rfl⟩ rfl rfl rfl) hwaits
  · exact .of_not_waiting (h.1.congr ⟨rfl, rfl, rfl⟩ rfl rfl rfl) hwaits
  · exact .of_not_waiting (h.1.startedStage hparked hk ⟨rfl, rfl, rfl⟩ rfl rfl) rfl
  · exact .of_not_waiting (h.1.startedWhole hparked hk ⟨rfl, rfl, rfl⟩ rfl rfl rfl) rfl

theorem apart_sweepKept {k : Nat} (horigin : ∀ i, k ≤ i → origin i = .adopted) :
    SweepKept k (Apart origin fun _ => True) where
  toStartKept := apart_startKept origin _
  repair e hs h := apart_repairKept hs h
  moved e n p h := by
    refine ⟨h.1.congr ⟨rfl, rfl, rfl⟩ rfl rfl rfl, fun m _ hin => ?_⟩
    exact h.2 e.slotNumber trivial (inLane_iff.mpr ⟨(inLane_iff.mp hin).1, rfl⟩)
  requeued e hs h := by
    -- a parked run names its run, so it is never taken for an entry nothing started
    obtain ⟨hnone, -⟩ := and_eq_true_iff.mp hs
    obtain ⟨hrun, horch⟩ := and_eq_true_iff.mp hnone
    have horch : e.orchestrationRunId = none := isNone_iff_eq_none.mp horch
    refine ⟨h.1.queued (not_adopted_of_orchestration h.1 horch)
      (fun hsome => absurd hsome (by rw [isNone_iff_eq_none.mp hrun]; simp))
      ⟨rfl, rfl, rfl⟩ rfl rfl rfl, fun _ _ _ => ?_⟩
    cases ho : origin e.id with
    | parkedRun run =>
      obtain ⟨hsome, -⟩ := ho ▸ h.1
      rw [hsome] at hrun
      cases hrun
    | laneWork kind stageKey ask | adopted => rfl
  cancelled e hs h := .of_not_waiting (h.1.ended ⟨rfl, rfl, rfl⟩ rfl rfl (.inr rfl)) rfl
  finished e hs h := .of_not_waiting (h.1.ended ⟨rfl, rfl, rfl⟩ rfl rfl (.inl rfl)) rfl
  adopted e hid hs hk hr ho := by
    refine .of_not_waiting ?_ (by rw [hs]; rfl)
    rw [horigin e.id hid]
    exact ⟨hk, hr, ho, by rw [hs]; rfl, by simp [hs], by simp [hs]⟩

/-! ## Calls on the shared queue -/

variable {b : Board} {t t' : EntryTable} {k : Nat}

/-- Every entry fits its origin; entries from `k` on are new. -/
abbrev AllFit (origin : EntryId → Origin) (k : Nat) (t : EntryTable) : Prop :=
  Every (fun e => Fits (origin e.id) e) k t

theorem AllFit.numbered (h : AllFit origin k t) (order : List EntryId)
    (hrows : t'.rows = t.rows.map (numbered order)) (hnext : t'.next = t.next) :
    AllFit origin k t' :=
  h.write hrows hnext fun _ _ => numbered_keeps (P := fun e => Fits (origin e.id) e)
    (fun _ _ he => Fits.congr he ⟨rfl, rfl, rfl⟩ rfl rfl rfl) order

/-- What the shared queue selects was parked by `queue_run`. -/
theorem parked_of_sharedQueued (h : Fits o e) (hs : e.sharedQueued = true) : o.parked = true := by
  obtain ⟨hq, hrun⟩ := and_eq_true_iff.mp hs
  have hq : e.status = .queued := by simpa using hq
  cases o with
  | parkedRun run => rfl
  | laneWork kind stageKey ask =>
    obtain ⟨-, -, -, -, hnone, -⟩ := h
    rw [hnone hq] at hrun
    cases hrun
  | adopted =>
    obtain ⟨-, -, -, hwaits, -⟩ := h
    rw [hq] at hwaits
    cases hwaits

theorem claimFreeSlot_entries {b' : Board} {preferred : Option Nat}
    (h : claimFreeSlot b preferred = some (b', n)) : b'.entries = b.entries := by
  obtain ⟨m, -, h⟩ := bind_eq_some_iff.mp h
  obtain ⟨b₁, hclaim, h⟩ := map_eq_some_iff.mp h
  cases h
  exact claimLaneSlot_entries hclaim

theorem mem_sharedLine (h : e ∈ sharedLine L t only) : e ∈ t.rows ∧ e.sharedQueued = true := by
  obtain ⟨hmem, hs⟩ := mem_filter.mp (mem_ranked.mp h)
  exact ⟨hmem, (and_eq_true_iff.mp hs).1⟩

/-- **A parked run** fits what it was parked for. -/
theorem queueRun_fits {ticketId : TicketId} {run : Nat} {preferred : Option Nat}
    (horigin : ∀ i, k ≤ i → origin i = .parkedRun run) (h : AllFit origin k b.entries) :
    AllFit origin k (queueRun Q b ws ticketId run preferred).1.entries := by
  rw [queueRun]
  split
  · next b' n hclaim =>
      show AllFit origin k b'.entries
      rw [claimFreeSlot_entries hclaim]
      exact h
  · refine Every.insert (t := b.entries) h rfl ?_
    show Fits (origin b.entries.next) _
    rw [horigin _ h.le_next]
    exact ⟨rfl, rfl, rfl, by simp [parkedRun], by simp [parkedRun]⟩

theorem Fits.promoted (h : Fits o e) (hs : e.sharedQueued = true) (now : Instant) :
    Fits o (e.promoted now) := by
  have hparked := parked_of_sharedQueued h hs
  cases o with
  | parkedRun run =>
    obtain ⟨hrun, horch, hkind, -⟩ := h
    exact ⟨hrun, horch, hkind, by simp [QueuedRun.promoted], by simp [QueuedRun.promoted]⟩
  | laneWork kind stageKey ask | adopted => cases hparked

theorem promoteFromQueue_fits (h : AllFit origin k b.entries) :
    AllFit origin k (promoteFromQueue Q b only).1.entries := by
  rw [promoteFromQueue]
  split
  · exact h
  · next entry hhead =>
      dsimp only
      split
      · exact h
      · next b' n hclaim =>
          obtain ⟨hmem, hs⟩ := mem_sharedLine (mem_of_mem_head? hhead)
          have hentries := claimFreeSlot_entries hclaim
          refine AllFit.numbered ?_ _ rfl rfl
          refine Every.update (t := b'.entries) rfl rfl (hentries ▸ h) (hentries ▸ hmem) ?_
          exact (h.all entry hmem).promoted hs _

theorem Fits.failed (h : Fits o e) (hrun : e.runId.isSome) (reason : String) :
    Fits o (e.failed reason) := by
  cases o with
  | parkedRun run =>
    obtain ⟨hrun, horch, hkind, -⟩ := h
    exact ⟨hrun, horch, hkind, by simp [QueuedRun.failed], by simp [QueuedRun.failed]⟩
  | laneWork kind stageKey ask =>
    obtain ⟨hkind, hkey, hask, -, -, hwhole, hstage⟩ := h
    exact ⟨hkind, hkey, hask, by simp [QueuedRun.failed], by simp [QueuedRun.failed], hwhole,
      hstage⟩
  | adopted =>
    obtain ⟨-, hnone, -⟩ := h
    rw [hnone] at hrun
    cases hrun

theorem markFailed_fits (run : Nat) (h : AllFit origin k b.entries) :
    AllFit origin k (markFailed Q b run).entries := by
  rw [markFailed]
  split
  · next r entry _ hentry =>
      split
      · have hrun := List.find?_some hentry
        have hmem := mem_of_find?_eq_some hentry
        refine h.update rfl rfl hmem ((h.all entry hmem).failed ?_ _)
        rw [of_decide_eq_true hrun]
        rfl
      · exact h
  · exact h

theorem holdStageEntryForRepair_fits (run : Nat) (h : AllFit origin k b.entries) :
    AllFit origin k (holdStageEntryForRepair Q b run).1.entries := by
  rw [holdStageEntryForRepair]
  split
  · exact h
  · next entry hentry =>
      have hactive : entry.status = .active := by
        have hs := List.find?_some (p := fun e : QueuedRun => e.runId = some run ∧
          e.status = .active ∧ e.entryKind = .stage) hentry
        exact (of_decide_eq_true hs).2.1
      have hmem := mem_of_find?_eq_some hentry
      have hfits := h.all entry hmem
      split
      · exact h
      · dsimp only
        split
        · exact h
        · split
          · exact h.update rfl rfl hmem (hfits.congr ⟨rfl, rfl, rfl⟩ rfl rfl rfl)
          · split
            · exact h
            · split
              · exact h
              · -- an active entry was never parked, so the hold suits it
                exact h.update rfl rfl hmem (hfits.repairing
                  (parked_of_status hfits (.inl hactive)) ⟨rfl, rfl, rfl⟩ rfl rfl rfl)

theorem freeRunSlot_entries (L : LaneService) (b : Board) (n : Nat) :
    (freeRunSlot L b n).entries = b.entries := by
  rw [freeRunSlot]
  split <;> rfl

theorem onRunComplete_fits {run : Nat} (h : AllFit origin k b.entries) :
    AllFit origin k (onRunComplete Q b run).entries := by
  have hfailed := markFailed_fits (Q := Q) run h
  rw [onRunComplete]
  split
  · exact promoteFromQueue_fits hfailed
  · next slot _ =>
      have hheld := holdStageEntryForRepair_fits (Q := Q) run hfailed
      cases hhold : holdStageEntryForRepair Q (markFailed Q b run) run with
      | mk b' held =>
        rw [hhold] at hheld
        cases held with
        | true => exact hheld
        | false =>
          refine promoteFromQueue_fits ?_
          rw [freeRunSlot_entries]
          exact hheld

theorem applyRetry_every {P : QueuedRun → Prop} {entry : QueuedRun}
    (hnum : ∀ e p, P e → P { e with position := p }) (hmem : entry ∈ t.rows)
    (hback : ∀ n p, P { entry.retried with slotNumber := n, position := p })
    (h : Every P k t) : Every P k (applyRetry L t entry).1 := by
  refine Every.write rfl rfl ?_ fun _ _ => numbered_keeps hnum _
  exact Every.update (map_update_update rfl rfl QueuedRun.retried_id) rfl h hmem (hback _ _)

theorem retryFailedEntry_fits {i : EntryId}
    (hretry : ∀ e, workspaceEntry t ws i = some e → Retriable origin e)
    (h : AllFit origin k t) : AllFit origin k (retryFailedEntry L t ws i).1 := by
  rw [retryFailedEntry]
  split
  · exact h
  · next entry hentry =>
      dsimp only
      split
      · exact h
      · next hunder =>
          obtain ⟨hget, -⟩ := filter_eq_some_iff.mp hentry
          obtain ⟨hmem, -⟩ := Keyed.get_eq_some hget
          obtain ⟨hadopted, hrun⟩ := hretry entry hentry (Nat.lt_of_not_le hunder)
          exact applyRetry_every (fun _ _ he => Fits.congr he ⟨rfl, rfl, rfl⟩ rfl rfl rfl) hmem
            (fun _ _ => (h.all entry hmem).queued hadopted hrun ⟨rfl, rfl, rfl⟩ rfl rfl rfl) h

theorem retryAllFailed_fits (hretry : ∀ e ∈ failedEntries t ws, Retriable origin e)
    (h : AllFit origin k t) : AllFit origin k (retryAllFailed L t ws) := by
  have hloop : ∀ (ids : List EntryId) (t : EntryTable), ids.Nodup →
      Every (fun e => Fits (origin e.id) e ∧ (e.id ∈ ids → Retriable origin e)) k t →
      AllFit origin k (ids.foldl (retryIfUnderCeiling L) t) := by
    intro ids
    induction ids with
    | nil => exact fun t _ h => h.imp fun _ _ hx => hx.1
    | cons i ids ih =>
      intro t hnodup h
      obtain ⟨hi, hids⟩ := nodup_cons.mp hnodup
      refine ih _ hids ?_
      have hrest : Every (fun e => Fits (origin e.id) e ∧ (e.id ∈ ids → Retriable origin e)) k t :=
        h.imp fun _ _ hx => ⟨hx.1, fun hmem => hx.2 (mem_cons_of_mem _ hmem)⟩
      rw [retryIfUnderCeiling]
      cases hget : t.get i with
      | none => exact hrest
      | some entry =>
        obtain ⟨hmem, rfl⟩ := Keyed.get_eq_some hget
        obtain ⟨hfits, hof⟩ := h.all entry hmem
        dsimp only
        split
        · exact hrest
        · next hunder =>
            obtain ⟨hadopted, hrun⟩ := hof mem_cons_self (Nat.lt_of_not_le hunder)
            -- the row retried has had its turn
            exact applyRetry_every
              (fun _ _ he => ⟨he.1.congr ⟨rfl, rfl, rfl⟩ rfl rfl rfl, he.2⟩) hmem
              (fun _ _ => ⟨hfits.queued hadopted hrun ⟨rfl, rfl, rfl⟩ rfl rfl rfl,
                fun hturn => absurd hturn hi⟩) hrest
  refine hloop _ t ((filter_sublist.map _).nodup t.nodup) (h.imp fun e he hfits => ⟨hfits, ?_⟩)
  intro hid
  obtain ⟨x, hx, hid⟩ := mem_map.mp hid
  obtain rfl := Keyed.eq_of_id he (mem_filter.mp hx).1 hid.symm
  exact hretry e hx

/-- Every entry of the tables fits what it was made for. -/
def Kept (s : Ledgered) : Prop := ∀ e ∈ s.board.entries.rows, Fits (s.origin e.id) e

variable {s s' : Ledgered} {step : Outside × QueueCall}

/-- **One call** keeps every entry in its regime. -/
theorem serve_kept (hk : Kept s) (hc : KeepsApart Q s step.2) : Kept (s.serve Q step) := by
  obtain ⟨o, call⟩ := step
  let b : Board := { s.board with outside := o }
  let origin := (s.serve Q (o, call)).origin
  have hold : ∀ e ∈ s.board.entries.rows, origin e.id = s.origin e.id := fun e he =>
    if_pos (s.board.entries.fresh e he)
  have hnew : ∀ i, s.board.entries.next ≤ i → origin i = call.origin := fun i hi =>
    if_neg (Nat.not_lt.mpr hi)
  have hfit : AllFit origin s.board.entries.next b.entries :=
    ⟨Nat.le_refl _, fun e he => (hold e he).symm ▸ hk e he⟩
  -- the rows a lane call may start are those no parked run waits in
  have hapart : ∀ lanes : Nat → Prop, (∀ n, lanes n → LaneQuiet s n) →
      Every (Apart origin lanes) s.board.entries.next b.entries := fun lanes hl =>
    hfit.imp fun e he hx => ⟨hx, fun n hn hin => (hold e he).symm ▸ hl n hn e he hin⟩
  have hretry : ∀ e ∈ s.board.entries.rows, Retriable s.origin e → Retriable origin e := by
    intro e he h
    rw [Retriable, hold e he]
    exact h
  suffices h : Every (fun e => Fits (origin e.id) e) s.board.entries.next
      (call.serve Q b).entries from h.all
  cases call with
  | queueRun ws ticketId run preferred => exact queueRun_fits hnew hfit
  | promoteFromQueue only => exact promoteFromQueue_fits hfit
  | onRunComplete run => exact onRunComplete_fits hfit
  | addToLane ticketId n kind stageKey ask =>
    have hlane := hapart (fun m => m = n ∧ (initializeSlots Q.toLaneService s.board).laneIdle n)
      (by rintro m ⟨rfl, hidle⟩; exact hc hidle)
    refine Every.imp (addToLane_every (apart_startKept origin _) (fun hidle => ⟨rfl, hidle⟩) ?_
      hlane) fun _ _ hx => hx.1
    intro e hid hs hkind hkey hask hrun horch
    have ho := hnew e.id hid
    refine ⟨?_, fun _ _ _ => by rw [ho]; rfl⟩
    rw [ho]
    exact ⟨hkind, hkey, hask, by simp [hs], fun _ => hrun, fun _ => hrun, fun _ => horch⟩
  | startLaneHead n =>
    have hlane := hapart (fun m => m = n ∧ s.board.laneIdle n)
      (by rintro m ⟨rfl, hidle⟩; exact hc hidle)
    exact Every.imp (startLaneHead_every (apart_startKept origin _) (fun hidle => ⟨rfl, hidle⟩)
      hlane) fun _ _ hx => hx.1
  | onOrchestrationComplete orch =>
    exact Every.imp (onOrchestrationComplete_every (apart_completionKept origin _)
      (fun _ hn => hn) (hapart (completionLanes s.board orch) hc)) fun _ _ hx => hx.1
  | reconcileLanes =>
    exact Every.imp (reconcileLanes_every (apart_sweepKept hnew)
      (hapart (fun _ => True) fun n _ => hc n)) fun _ _ hx => hx.1
  | retryFailedEntry ws i =>
    refine retryFailedEntry_fits (fun e he => ?_) hfit
    obtain ⟨hget, -⟩ := filter_eq_some_iff.mp he
    exact hretry e (Keyed.get_eq_some hget).1 (hc e he)
  | retryAllFailed ws =>
    exact retryAllFailed_fits (fun e he => hretry e (mem_filter.mp he).1 (hc e he)) hfit

theorem startLaneHeadFrom_mem {i : EntryId} {fuel : Nat}
    (h : (startLaneHeadFrom L n fuel b).2 = some i) : i ∈ line L b.entries n := by
  induction fuel generalizing b with
  | zero => cases h
  | succ fuel ih =>
    rw [startLaneHeadFrom] at h
    split at h
    · split at h <;> cases h
    · split at h
      · cases h
      · next b' hclaim =>
          rw [← claimLaneSlot_entries hclaim]
          split at h
          · cases h
          · cases h
          · next head d hhead _ =>
              have hin := head_mem_line hhead
              split at h
              · exact ((deleteHead_shrinks hin).sublist n).subset (ih h)
              · rw [dispatchHead] at h
                split at h
                · cases h
                · generalize startEntryWork d _ head n b' = reply at h
                  obtain ⟨b'', started⟩ := reply
                  cases started with
                  | false => cases h
                  | true =>
                    cases h
                    exact hin

/-- What a waiting entry was made for, and so what may start it: the promoter takes
    it exactly when `queue_run` parked it. -/
theorem Fits.one_starter (h : Fits o e) (hs : e.status = .queued) :
    (∃ run, o = .parkedRun run ∧ e.runId = some run ∧ e.sharedQueued = true) ∨
      ∃ kind stageKey ask, o = .laneWork kind stageKey ask ∧ e.entryKind = kind ∧
        e.stageKey = stageKey ∧ e.ask = ask ∧ e.sharedQueued = false := by
  cases o with
  | parkedRun run =>
    obtain ⟨hrun, -⟩ := h
    exact .inl ⟨run, rfl, hrun, by simp [QueuedRun.sharedQueued, hs, hrun]⟩
  | laneWork kind stageKey ask =>
    obtain ⟨hkind, hkey, hask, -, hnone, -⟩ := h
    exact .inr ⟨kind, stageKey, ask, rfl, hkind, hkey, hask,
      by simp [QueuedRun.sharedQueued, hs, hnone hs]⟩
  | adopted =>
    obtain ⟨-, -, -, hwaits, -⟩ := h
    rw [hs] at hwaits
    cases hwaits

theorem promoteFromQueue_mem {p : Promotion} (h : (promoteFromQueue Q b only).2 = some p) :
    ∃ e ∈ b.entries.rows, e.sharedQueued = true ∧ p.runId = e.runId := by
  rw [promoteFromQueue] at h
  split at h
  · cases h
  · next entry hhead =>
      obtain ⟨hmem, hs⟩ := mem_sharedLine (mem_of_mem_head? hhead)
      dsimp only at h
      split at h
      · cases h
      · cases h
        exact ⟨entry, hmem, hs, rfl⟩

/-- What holds of the two regimes in a state, whatever the rest of the program is then. -/
structure RegimesApart (Q : QueueService) (s : Ledgered) : Prop where
  /-- Every entry is as its own regime leaves it, started or not. -/
  fits : Kept s
  /-- A queued entry has one starter. -/
  starter : ∀ e ∈ s.board.entries.rows, e.status = .queued →
    (s.origin e.id).parked = e.sharedQueued ∧ s.origin e.id ≠ .adopted
  /-- What a promotion starts was parked by `queue_run`, for this run. -/
  promotes : ∀ o only p, (promoteFromQueue Q { s.board with outside := o } only).2 = some p →
    ∃ e ∈ s.board.entries.rows, ∃ run, s.origin e.id = .parkedRun run ∧ p.runId = some run
  /-- What a lane start starts was added to the lane, as the work it asks for. -/
  starts : ∀ o n i, LaneQuiet s n →
    (startLaneHead Q.toLaneService { s.board with outside := o } n).2 = some i →
    ∃ e ∈ s.board.entries.rows, e.id = i ∧ s.origin i = .laneWork e.entryKind e.stageKey e.ask

theorem Kept.regimesApart (hk : Kept s) : RegimesApart Q s where
  fits := hk
  starter := by
    intro e he hs
    rcases (hk e he).one_starter hs with ⟨run, ho, -, hq⟩ | ⟨kind, stageKey, ask, ho, -, -, -, hq⟩
    · rw [ho, hq]
      exact ⟨rfl, by simp⟩
    · rw [ho, hq]
      exact ⟨rfl, by simp⟩
  promotes := by
    intro o only p hp
    obtain ⟨e, he, hs, hrun⟩ := promoteFromQueue_mem hp
    obtain ⟨hq, -⟩ := and_eq_true_iff.mp hs
    rcases (hk e he).one_starter (by simpa using hq) with ⟨run, ho, hr, -⟩ |
      ⟨kind, stageKey, ask, -, -, -, -, hnot⟩
    · exact ⟨e, he, run, ho, hrun.trans hr⟩
    · rw [hs] at hnot
      cases hnot
  starts := by
    intro o n i hquiet hi
    obtain ⟨e, he, rfl⟩ := mem_map.mp (startLaneHeadFrom_mem hi)
    obtain ⟨hmem, hin⟩ := mem_waitingInLane.mp he
    refine ⟨e, hmem, rfl, ?_⟩
    have hfits := hk e hmem
    have hparked := hquiet e hmem hin
    cases ho : s.origin e.id with
    | parkedRun run =>
      rw [ho] at hparked
      cases hparked
    | laneWork kind stageKey ask =>
      rw [ho] at hfits
      obtain ⟨rfl, rfl, rfl, -⟩ := hfits
      rfl
    | adopted =>
      rw [ho] at hfits
      obtain ⟨-, -, -, hwaits, -⟩ := hfits
      rw [not_inLane hwaits] at hin
      cases hin

/-- **The two regimes stay apart**: in every run from an empty queue in which no idle lane is
    started over a parked run and no lane entry that names a run is retried, each entry is started
    by its own regime, as the work that was asked for. -/
theorem regimes_stay_apart {trace : List (Outside × QueueCall)}
    (h0 : s.board.entries.rows = []) (hr : Run (ApartStep Q) s trace s') :
    RegimesApart Q s' := by
  have hstart : Kept s := fun e he => by
    rw [h0] at he
    cases he
  refine Kept.regimesApart (Run.invariant (P := Kept) ?_ hstart hr)
  rintro s step _ hk ⟨hc, rfl⟩
  exact serve_kept hk hc

/-! ## One slot and both regimes -/

theorem oneSlot_one_le : 1 ≤ 1 := Nat.le_refl 1

/-- One lane, whose dispatcher starts everything under its ticket's number. -/
def oneSlot : QueueService where
  maxConcurrent := 1
  one_le := oneSlot_one_le
  rowOrder := id
  dispatcher := some {
    dispatchStage := fun ticket _ o => (.ok ticket.id, o)
    dispatchOrchestration := fun ticket _ o => (some ticket.id, o) }
  prepareRerun := fun _ o => ("", o)
  dispatchRun := fun _ o => o
  stderr := fun _ _ => ""
  stageBlocked := fun _ _ => false

/-- Two tickets; ticket 1's orchestration is over and its run failed. -/
def twoTickets : Outside where
  tickets := [{ id := 1 }, { id := 2 }]
  orchestrations := [{ id := 1, ticketId := 1, status := .succeeded }]
  runs := [{ id := 1, ticketId := 1, status := .failed }]

def emptyQueue : Ledgered where
  board := { entries := Keyed.empty, slots := [], outside := twoTickets }
  origin := fun _ => .adopted

def after (cs : List QueueCall) : Ledgered :=
  (cs.map fun c => (twoTickets, c)).foldl (Ledgered.serve oneSlot) emptyQueue

theorem run_after (cs : List QueueCall) :
    Run (QueueStep oneSlot) emptyQueue (cs.map fun c => (twoTickets, c)) (after cs) := by
  refine Run.of_foldl (fun s l => ?_) _ _
  exact rfl

/-- A stage runs in the lane while run 6 is parked, and is promoted when it ends. -/
theorem regimes_stay_apart_stageThenRun : RegimesApart oneSlot
    (after [.addToLane 1 1 .stage "build" {}, .queueRun 0 2 6 none, .onRunComplete 1]) := by
  have hempty : KeepsApart oneSlot emptyQueue (.addToLane 1 1 .stage "build" {}) := by
    intro _ e he
    cases he
  have hr : Run (ApartStep oneSlot) emptyQueue [(twoTickets, .addToLane 1 1 .stage "build" {}),
      (twoTickets, .queueRun 0 2 6 none), (twoTickets, .onRunComplete 1)] _ :=
    .cons ⟨hempty, rfl⟩ (.cons ⟨trivial, rfl⟩ (.cons ⟨trivial, rfl⟩ (.nil _)))
  exact regimes_stay_apart rfl hr

/-- Run 6, parked while the only lane is taken, is started as an orchestration of its
    ticket when the lane frees; and a failed stage, retried in its lane, is promoted
    as the run it already was. -/
theorem regimes_cross :
    (∃ trace s, Run (QueueStep oneSlot) emptyQueue trace s ∧ ∃ e ∈ s.board.entries.rows,
      s.origin e.id = .parkedRun 6 ∧ e.status = .active ∧ e.orchestrationRunId = some 2) ∧
    ∃ trace s, Run (QueueStep oneSlot) emptyQueue trace s ∧ ∃ e ∈ s.board.entries.rows,
      s.origin e.id = .laneWork .stage "build" {} ∧ e.status = .promoted ∧ e.runId = some 1 := by
  refine ⟨⟨_, _, run_after [.addToLane 1 1 .orchestration "" {}, .queueRun 0 2 6 none,
    .onOrchestrationComplete 1], ?_⟩, _, _, run_after [.addToLane 1 1 .stage "build" {},
    .onRunComplete 1, .retryFailedEntry 0 0, .promoteFromQueue none], ?_⟩
  · decide +kernel
  · decide +kernel

end Loregarden.Lanes
