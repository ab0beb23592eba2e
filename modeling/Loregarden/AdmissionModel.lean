import Loregarden.LaneCalls

/-! # The shared queue and the admission gate

The queue of agent runs of `parallel_queue.py` (`queue_run`, the promoter and the release at the end
of a run) and the reservations of `queue_admission.py`, over the tables of the lanes. A call is
completed before the next one begins, so the conditional update of a claim finds the row the claim
was chosen from, and the passes of `claim_free_slot` are one. -/

namespace Loregarden.Lanes

open Ranked

/-- `ParallelQueueService`: what the shared queue asks of the rest of the program
    besides what the lanes ask. -/
structure QueueService extends LaneService where
  /-- `_dispatch`: hand a promoted run to the executor. -/
  dispatchRun : Nat → Outside → Outside
  /-- What a run wrote to its error stream. -/
  stderr : Outside → Nat → String
  /-- Whether the ticket's `workflow_stage_status` is blocked. -/
  stageBlocked : Outside → TicketId → Bool

/-- The free slots in the order a claim tries them: the preferred one, then by number. -/
def freeSlots (b : Board) (preferred : Option Nat) : List Nat :=
  let available := ((b.slots.filter (·.isAvailable)).map (·.slotNumber)).insertionSort (· ≤ ·)
  available.filter (some · = preferred) ++ available.filter (some · ≠ preferred)

/-- `claim_free_slot`: take a slot, or nothing because the pool is full. -/
def claimFreeSlot (b : Board) (preferred : Option Nat) : Option (Board × Nat) :=
  (freeSlots b preferred).head?.bind fun n => (claimLaneSlot b n).map fun b => (b, n)

def Board.nameRun (b : Board) (n : Nat) (run : Option Nat) : Board :=
  b.updateSlot n fun s => { s with currentRunId := run }

/-! ## The queue of runs -/

structure QueueReply where
  status : String
  slotNumber : Option Nat := none
  position : Option Nat := none
  queueLength : Option Nat := none
  message : String

/-- The entry `queue_run` parks when the pool is full. -/
def parkedRun (t : EntryTable) (workspaceId : WorkspaceId) (ticketId : TicketId) (run : Nat) :
    QueuedRun :=
  { id := t.next
    workspaceId := workspaceId
    ticketId := ticketId
    runId := some run
    position := (t.rows.filter (·.status.waiting)).length + 1 }

/-- `queue_run`: queue a run for execution or start it at once if a slot is available. -/
def queueRun (Q : QueueService) (b : Board) (workspaceId : WorkspaceId) (ticketId : TicketId)
    (run : Nat) (preferred : Option Nat) : Board × QueueReply :=
  let b := initializeSlots Q.toLaneService b
  match claimFreeSlot b preferred with
  | some (b, n) =>
    (b.nameRun n (some run),
      { status := "started", slotNumber := some n, message := s!"Started immediately on slot {n}" })
  | none =>
    let entry := parkedRun b.entries workspaceId ticketId run
    let position := entry.position
    ({ b with entries := b.entries.insert entry rfl },
      { status := "queued", position := some position, queueLength := some position,
        message := s!"Added to queue at position {position}" })

/-- Queued, and of the rows `owned_by_shared_queue` selects: the ones naming a run
    it can dispatch. -/
def QueuedRun.sharedQueued (e : QueuedRun) : Bool := e.status == .queued && e.runId.isSome

/-- The shared waiting line: whole, or only the entry of one run. -/
def sharedLine (L : LaneService) (t : EntryTable) (only : Option Nat) : List QueuedRun :=
  ranked L.place (t.rows.filter fun e => e.sharedQueued && (only.isNone || e.runId == only))

/-- `_reorder_queue_sync`: re-close the gaps in the one shared waiting line. -/
def reorderQueue (L : LaneService) (t : EntryTable) : EntryTable :=
  t.write (numbered ((sharedLine L t none).map (·.id))) fun e => by
    unfold numbered
    split <;> rfl

def QueuedRun.promoted (now : Instant) (e : QueuedRun) : QueuedRun :=
  { e with status := .promoted, promotedAt := some now }

theorem QueuedRun.promoted_id (now : Instant) (e : QueuedRun) : (e.promoted now).id = e.id := rfl

structure Promotion where
  runId : Option Nat
  ticketId : TicketId
  slotNumber : Nat
  message : String

/-- The end of a promotion: entry and slot name each other, the run is dispatched,
    the line closes up. -/
def promoteInto (Q : QueueService) (b : Board) (entry : QueuedRun) (n : Nat) : Board :=
  let now := b.outside.now
  let b := b.nameRun n entry.runId
  let b := b.update entry.id (QueuedRun.promoted now) (QueuedRun.promoted_id now)
  let b := { b with outside := entry.runId.elim b.outside fun run => Q.dispatchRun run b.outside }
  { b with entries := reorderQueue Q.toLaneService b.entries }

/-- `promote_from_queue_sync`: if the queue has items and slots are available,
    promote the next queued run, or the one asked for, to an active slot. -/
def promoteFromQueue (Q : QueueService) (b : Board) (only : Option Nat) :
    Board × Option Promotion :=
  match (sharedLine Q.toLaneService b.entries only).head? with
  | none => (b, none)
  | some entry =>
    let b := initializeSlots Q.toLaneService b
    match claimFreeSlot b none with
    | none => (b, none)
    | some (b, n) =>
      let position := entry.position
      (promoteInto Q b entry n,
        some { runId := entry.runId, ticketId := entry.ticketId, slotNumber := n,
               message := s!"Promoted from position {position} to slot {n}" })

/-! ## The end of a run -/

def failureText (stderr : String) : String :=
  String.ofList ((if stderr = "" then "Agent run failed" else stderr).toList.take 2000)

def entryOfRun (t : EntryTable) (run : Nat) : Option QueuedRun := t.rows.find? (·.runId = some run)

def QueuedRun.failed (reason : String) (e : QueuedRun) : QueuedRun :=
  { e with status := .failed, failureReason := reason }

theorem QueuedRun.failed_id (reason : String) (e : QueuedRun) : (e.failed reason).id = e.id := rfl

def markFailed (Q : QueueService) (b : Board) (run : Nat) : Board :=
  match b.outside.run run, entryOfRun b.entries run with
  | some r, some entry =>
    if r.status = .failed then
      b.update entry.id (QueuedRun.failed (failureText (Q.stderr b.outside run)))
        (QueuedRun.failed_id _)
    else b
  | _, _ => b

/-- The active lane entry that runs a single stage as this run. -/
def activeStageEntry (t : EntryTable) (run : Nat) : Option QueuedRun :=
  t.rows.find? fun e => e.runId = some run ∧ e.status = .active ∧ e.entryKind = .stage

def QueuedRun.reasoned (reason : String) (e : QueuedRun) : QueuedRun :=
  { e with failureReason := orReason reason e }

theorem QueuedRun.reasoned_id (reason : String) (e : QueuedRun) :
    (e.reasoned reason).id = e.id := rfl

def QueuedRun.held (now : Instant) (e : QueuedRun) : QueuedRun :=
  { e with status := .repairing, repairingSince := some now }

theorem QueuedRun.held_id (now : Instant) (e : QueuedRun) : (e.held now).id = e.id := rfl

/-- `_hold_stage_entry_for_repair`: hold a lane whose single-stage entry blocked on
    a repairable block; `true` when the slot stays claimed. -/
def holdStageEntryForRepair (Q : QueueService) (b : Board) (run : Nat) : Board × Bool :=
  match activeStageEntry b.entries run with
  | none => (b, false)
  | some entry =>
    match b.outside.ticket entry.ticketId with
    | none => (b, false)
    | some ticket =>
      let spent := repairExhausted b.outside.now entry
      if ticket.state ≠ .blocked ∧ ¬ Q.stageBlocked b.outside ticket.id then (b, false)
      else if spent ≠ "" then
        (b.update entry.id (QueuedRun.reasoned spent) (QueuedRun.reasoned_id spent), false)
      else if ¬ b.outside.hasRepairRoute ticket.id then (b, false)
      else
        let (refused, o) := Q.prepareRerun ticket b.outside
        let b := { b with outside := o }
        if refused ≠ "" then (b, false)
        else (b.update entry.id (QueuedRun.held o.now) (QueuedRun.held_id o.now), true)

/-- A finished run's slot: retired when it is past the limit, freed otherwise. -/
def freeRunSlot (L : LaneService) (b : Board) (n : Nat) : Board :=
  if n > L.maxConcurrent then { b with slots := b.slots.filter (·.slotNumber ≠ n) }
  else b.updateSlot n fun s => { s with isAvailable := true, currentRunId := none }

/-- `on_run_complete_sync`: free up the slot and promote next from the queue. -/
def onRunComplete (Q : QueueService) (b : Board) (run : Nat) : Board :=
  let b := markFailed Q b run
  match b.slots.find? (·.currentRunId = some run) with
  | none => (promoteFromQueue Q b none).1
  | some slot =>
    match holdStageEntryForRepair Q b run with
    | (b, true) => b
    | (b, false) =>
      (promoteFromQueue Q (freeRunSlot Q.toLaneService b slot.slotNumber) none).1

/-! ## Reservations -/

/-- What a slot can be pointed at; a run and an orchestration never share an id. -/
inductive Occupant where
  | run (id : Nat)
  | orchestration (id : Nat)
  deriving DecidableEq

/-- The orchestration's id where there is one, else the run's. -/
def occupantOf (run orch : Option Nat) : Option Occupant :=
  (orch.map Occupant.orchestration).or (run.map Occupant.run)

def AgentSlot.occupant (s : AgentSlot) : Option Occupant :=
  occupantOf s.currentRunId s.currentOrchestrationRunId

/-- `Reservation`: a claimed slot, or the lane a request was parked in instead. -/
structure Reservation where
  admitted : Bool
  slotNumber : Nat
  position : Option Nat := none
  message : String := ""
  /-- What `bind` pointed the slot at. -/
  boundId : Option Occupant := none
  /-- Names a slot the caller's orchestration already held. -/
  reused : Bool := false

/-- `lane_numbers`, of a pool that is fitted. -/
def laneNumbers (b : Board) : List Nat := (b.slots.map (·.slotNumber)).insertionSort (· ≤ ·)

/-- `_lane_last_used`: the lane this ticket most recently sat in. -/
def laneLastUsed (b : Board) (ticketId : TicketId) : Option Nat :=
  ((b.entries.rows.filter (·.ticketId = ticketId)).getLast?.map (·.slotNumber)).filter
    (· ∈ laneNumbers b)

/-- `_shortest_lane` of the gate: of every lane there is, retired ones included. -/
def shortestOfPool (L : LaneService) (b : Board) : Nat :=
  ((laneNumbers b).argmin fun n => (waitingInLane L b.entries n).length).getD 1

/-- The end of `_reserve` when the pool is full: a place in line. -/
def parkRequest (Q : QueueService) (b : Board) (ticketId : TicketId) (lane : Nat)
    (entryKind : QueueEntryKind) (stageKey : String) (ask : Ask) :
    Board × Except String Reservation :=
  match addToLane Q.toLaneService b ticketId lane entryKind stageKey ask with
  | (b, .error why) => (b, .error why)
  | (b, .ok reply) =>
    let slots := Q.maxConcurrent
    let position := reply.position.elim "None" toString
    (b, .ok { admitted := false, slotNumber := lane, position := reply.position,
              message := s!"All {slots} execution slots are busy. "
                ++ s!"Queued in slot {lane} at position {position}." })

/-- `_reserve`: the slot the orchestration already holds, or any free slot, or a place in line. -/
def reserve (Q : QueueService) (b : Board) (ticketId : TicketId) (entryKind : QueueEntryKind)
    (stageKey : String) (ask : Ask) (preferred : Option Nat) (orch : Option Nat) :
    Board × Except String Reservation :=
  let b := initializeSlots Q.toLaneService b
  match orch.bind fun orch => b.slots.find? (·.currentOrchestrationRunId = some orch) with
  | some held =>
    let n := held.slotNumber
    (b, .ok { admitted := true, slotNumber := n, message := s!"Running in slot {n}",
              boundId := occupantOf none orch, reused := true })
  | none =>
    let preference := preferred.or (laneLastUsed b ticketId)
    match claimFreeSlot b preference with
    | some (b, n) =>
      (b, .ok { admitted := true, slotNumber := n, message := s!"Started in slot {n}" })
    | none =>
      let lane := (preference.filter (· ∈ laneNumbers b)).getD
        (shortestOfPool Q.toLaneService b)
      parkRequest Q b ticketId lane entryKind stageKey ask

/-- `reserve_orchestration`: a slot to run the whole ticket in, or a place in line. -/
def reserveOrchestration (Q : QueueService) (b : Board) (ticketId : TicketId) (ask : Ask)
    (preferred : Option Nat) : Board × Except String Reservation :=
  reserve Q b ticketId .orchestration "" ask preferred none

/-- `reserve_stage`: a slot to run one stage in, or a place in line; the run the
    stage belongs to keeps its own slot. -/
def reserveStage (Q : QueueService) (b : Board) (ticketId : TicketId) (stageKey : String)
    (ask : Ask) (preferred : Option Nat) (orch : Option Nat) :
    Board × Except String Reservation :=
  reserve Q b ticketId .stage stageKey ask preferred orch

/-- `Reservation.bind`: point the reserved slot at what the caller actually started. -/
def Reservation.bind (r : Reservation) (b : Board) (run orch : Option Nat) : Board × Reservation :=
  if ¬ r.admitted ∨ r.reused ∨ (b.slot r.slotNumber).isNone then (b, r)
  else
    let b := b.updateSlot r.slotNumber fun s =>
      { s with
        currentRunId := run.or s.currentRunId
        currentOrchestrationRunId := orch.or s.currentOrchestrationRunId }
    ({ b with entries := orch.elim b.entries (ensureActiveEntry b.outside b.entries r.slotNumber) },
      { r with boundId := occupantOf run orch })

/-- `Reservation.release`: give the slot back, unless it has moved on to something else. -/
def Reservation.release (r : Reservation) (b : Board) : Board :=
  if ¬ r.admitted ∨ r.reused then b
  else
    match b.slot r.slotNumber with
    | none => b
    | some slot =>
      if slot.occupant.isSome ∧ slot.occupant ≠ r.boundId then b
      else releaseSlot b r.slotNumber

end Loregarden.Lanes
