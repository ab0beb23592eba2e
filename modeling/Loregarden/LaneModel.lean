import Mathlib.Data.List.MinMax
import Loregarden.SortedRowProofs

/-! # Execution lanes: the tables and the line of each lane

The tables of `queue_tables.py`, the pool of `slot_pool.py` and the operations of `queue_lanes.py`
on one lane: reading it, renumbering it, placing an entry at its tail, and starting its head.

An entry id is a fresh UUID, so a number handed out once stands for it; ticket, run and
orchestration ids are compared and never taken apart. A slot is found by its number, which is
unique. What the lanes read but do not own (tickets, runs, orchestrations, the clock, the draining
flag) is the `Outside`; a dispatch may change it. A query leaves rows that tie on its ORDER BY in an
order of the database's own: `rowOrder`. -/

namespace Loregarden.Lanes

open Ranked

abbrev EntryId := Nat
abbrev TicketId := Nat
abbrev WorkspaceId := Nat
abbrev Instant := Int

/-! ## Tables -/

inductive QueuePosition where
  | queued | scheduled | promoted | started | active | paused | cancelled | failed | skipped
  | repairing
  deriving DecidableEq

def QueuePosition.value : QueuePosition → String
  | .queued => "queued"
  | .scheduled => "scheduled"
  | .promoted => "promoted"
  | .started => "started"
  | .active => "active"
  | .paused => "paused"
  | .cancelled => "cancelled"
  | .failed => "failed"
  | .skipped => "skipped"
  | .repairing => "repairing"

/-- `WAITING_STATUSES`: still waiting to start. -/
def QueuePosition.waiting : QueuePosition → Bool
  | .queued | .scheduled => true
  | _ => false

inductive QueueEntryKind where
  | orchestration | stage
  deriving DecidableEq

inductive TicketState where
  | backlog | inProgress | blocked | parked | done | wontDo
  deriving DecidableEq

def TicketState.value : TicketState → String
  | .backlog => "backlog"
  | .inProgress => "in_progress"
  | .blocked => "blocked"
  | .parked => "parked"
  | .done => "done"
  | .wontDo => "wont_do"

inductive OrchestrationRunStatus where
  | queued | running | succeeded | failed | blocked | cancelled
  deriving DecidableEq

/-- `LIVE_ORCHESTRATION_STATUSES`. -/
def OrchestrationRunStatus.live : OrchestrationRunStatus → Bool
  | .queued | .running => true
  | _ => false

inductive RunStatus where
  | queued | running | awaitingPermission | succeeded | failed | cancelled
  deriving DecidableEq

/-- `LIVE_RUN_STATUSES`. -/
def RunStatus.live : RunStatus → Bool
  | .queued | .running | .awaitingPermission => true
  | _ => false

/-- What the dialog that queued an entry asked for, held until a lane reaches it. -/
structure Ask where
  autoApprove : Bool := false
  approveDesignPlans : Bool := true
  autoRepair : Bool := true
  stopAtStageKey : String := ""
  driver : String := ""
  maxStages : Option Int := none
  timeoutSeconds : Option Int := none
  force : Bool := false
  deriving DecidableEq

structure QueuedRun where
  id : EntryId
  workspaceId : WorkspaceId
  ticketId : TicketId
  runId : Option Nat := none
  orchestrationRunId : Option Nat := none
  slotNumber : Nat := 1
  position : Nat := 0
  ask : Ask := {}
  entryKind : QueueEntryKind := .orchestration
  stageKey : String := ""
  status : QueuePosition := .queued
  retryCount : Nat := 0
  maxRetries : Nat := 3
  repairAttempts : Nat := 0
  repairingSince : Option Instant := none
  promotedAt : Option Instant := none
  failureReason : String := ""

structure AgentSlot where
  slotNumber : Nat
  isAvailable : Bool := true
  currentRunId : Option Nat := none
  currentOrchestrationRunId : Option Nat := none
  assignedAt : Option Instant := none
  deriving DecidableEq

structure Ticket where
  id : TicketId
  workspaceId : WorkspaceId := 0
  state : TicketState := .backlog
  parentTicketId : Option TicketId := none
  blockingIssues : String := ""

structure OrchestrationRun where
  id : Nat
  ticketId : TicketId
  workspaceId : WorkspaceId := 0
  status : OrchestrationRunStatus := .queued
  /-- The answer of `orchestration_lease_expired`. -/
  leaseExpired : Bool := false

structure AgentRun where
  id : Nat
  ticketId : TicketId
  status : RunStatus := .queued

structure Outside where
  now : Instant := 0
  /-- `is_draining`. -/
  draining : Bool := false
  tickets : List Ticket := []
  /-- Oldest start first. -/
  orchestrations : List OrchestrationRun := []
  runs : List AgentRun := []
  /-- Whether `resolve_repair_route` finds a route for the ticket. -/
  hasRepairRoute : TicketId → Bool := fun _ => false
  /-- `rerun_refusal`. -/
  rerunRefusal : TicketId → String := fun _ => ""

def Outside.ticket (o : Outside) (id : TicketId) : Option Ticket := o.tickets.find? (·.id = id)

def Outside.orchestration (o : Outside) (id : Nat) : Option OrchestrationRun :=
  o.orchestrations.find? (·.id = id)

def Outside.run (o : Outside) (id : Nat) : Option AgentRun := o.runs.find? (·.id = id)

/-- `queued_runs`. -/
abbrev EntryTable := Keyed QueuedRun QueuedRun.id

/-- The queue's tables, and everything else as it stands. -/
structure Board where
  entries : EntryTable
  slots : List AgentSlot
  outside : Outside

/-- `LaneDispatcher`: starts the work a lane has reached, or refuses; a refused stage says why. -/
structure Dispatcher where
  dispatchStage : Ticket → QueuedRun → Outside → Except String Nat × Outside
  dispatchOrchestration : Ticket → Ask → Outside → Option Nat × Outside

/-- `QueueLaneService`, with the answers it asks of the rest of the program. -/
structure LaneService where
  /-- The lane count; `lane_count.py` refuses one below `MIN_LANE_COUNT`. -/
  maxConcurrent : Nat
  one_le : 1 ≤ maxConcurrent
  /-- How the database orders rows that tie. -/
  rowOrder : EntryId → Nat
  dispatcher : Option Dispatcher
  /-- `prepare_rerun`: why a held ticket cannot be re-run, or `""`. -/
  prepareRerun : Ticket → Outside → String × Outside

def LaneService.Live (L : LaneService) (n : Nat) : Prop := n ≤ L.maxConcurrent

/-- Where an entry comes in its lane: its position, then the order of ties. -/
def LaneService.place (L : LaneService) (e : QueuedRun) : Nat ×ₗ Nat ×ₗ Nat :=
  toLex (e.position, toLex (L.rowOrder e.id, e.id))

/-- Waiting in lane `n`. -/
def QueuedRun.inLane (e : QueuedRun) (n : Nat) : Bool := e.status.waiting && e.slotNumber == n

def waitingInLane (L : LaneService) (t : EntryTable) (n : Nat) : List QueuedRun :=
  ranked L.place (t.rows.filter (·.inLane n))

/-- The waiting entries of a lane, first to start first. -/
def line (L : LaneService) (t : EntryTable) (n : Nat) : List EntryId :=
  (waitingInLane L t n).map (·.id)

def alreadyQueued (t : EntryTable) (ticketId : TicketId) (entryKind : QueueEntryKind)
    (stageKey : String) : Option QueuedRun :=
  t.rows.find? fun e =>
    e.ticketId = ticketId ∧ e.status = .queued ∧ e.entryKind = entryKind ∧ e.stageKey = stageKey

/-- `_shortest_lane`: the live lane with the fewest waiting entries; the lowest on a tie. -/
def shortestLane (L : LaneService) (t : EntryTable) : Nat :=
  ((List.range' 1 L.maxConcurrent).argmin fun n => (waitingInLane L t n).length).getD 1

/-- The order a lane is renumbered in: as it reads, or with one entry taken out
    and put back at a place counted from 1. -/
def newOrder (waiting : List EntryId) : Option (EntryId × Int) → List EntryId
  | none => waiting
  | some (moved, target) =>
    if moved ∈ waiting then
      let others := waiting.filter (· ≠ moved)
      others.insertIdx (max 0 (min (others.length : Int) (target - 1))).toNat moved
    else waiting

/-- Give each entry of an order its place in it, counted from 1. -/
def numbered (order : List EntryId) (e : QueuedRun) : QueuedRun :=
  if e.id ∈ order then { e with position := order.idxOf e.id + 1 } else e

/-- `renumber`: close gaps in a lane so positions read 1..N with no holes. -/
def renumber (L : LaneService) (n : Nat) (insertAt : Option (EntryId × Int))
    (t : EntryTable) : EntryTable :=
  t.write (numbered (newOrder (line L t n) insertAt)) fun e => by
    unfold numbered
    split <;> rfl

/-- Rewrite one entry; `change` leaves its id alone. -/
def Board.update (b : Board) (id : EntryId) (change : QueuedRun → QueuedRun)
    (h : ∀ e, (change e).id = e.id) : Board :=
  { b with entries := b.entries.update id change h }

def Board.delete (b : Board) (id : EntryId) : Board :=
  { b with entries := b.entries.delete id }

def Board.renumber (L : LaneService) (b : Board) (n : Nat) : Board :=
  { b with entries := Lanes.renumber L n none b.entries }

def Board.refuse (b : Board) (id : EntryId) (reason : String) : Board :=
  b.update id (fun e => { e with failureReason := reason }) fun _ => rfl

/-! ## The slot pool -/

/-- `fit_slot_pool`: retire idle slots past the limit, add what is missing. -/
def fitSlotPool (size : Nat) (slots : List AgentSlot) : List AgentSlot :=
  let kept := slots.filter fun s => ¬ (s.slotNumber > size ∧ s.isAvailable)
  let missing := (List.range' 1 size).filter fun n => n ∉ kept.map (·.slotNumber)
  kept ++ missing.map fun n => { slotNumber := n }

def initializeSlots (L : LaneService) (b : Board) : Board :=
  { b with slots := fitSlotPool L.maxConcurrent b.slots }

def Board.slot (b : Board) (n : Nat) : Option AgentSlot := b.slots.find? (·.slotNumber = n)

def Board.updateSlot (b : Board) (n : Nat) (change : AgentSlot → AgentSlot) : Board :=
  { b with slots := b.slots.map fun s => if s.slotNumber = n then change s else s }

/-- `claim_lane_slot`: take one named lane, or nothing. -/
def claimLaneSlot (b : Board) (n : Nat) : Option Board :=
  match b.slot n with
  | none => none
  | some slot =>
    if slot.isAvailable then
      some (b.updateSlot n fun s =>
        { s with
          isAvailable := false, assignedAt := some b.outside.now,
          currentRunId := none, currentOrchestrationRunId := none })
    else none

def releaseSlot (b : Board) (n : Nat) : Board :=
  b.updateSlot n fun s =>
    { s with isAvailable := true, currentRunId := none, currentOrchestrationRunId := none }

/-- The ticket a slot works for through either of its columns. -/
def slotTickets (o : Outside) (s : AgentSlot) : List TicketId :=
  ((s.currentRunId.bind o.run).map (·.ticketId)).toList
    ++ ((s.currentOrchestrationRunId.bind o.orchestration).map (·.ticketId)).toList

/-- `tickets_holding_lanes`, asked about one ticket: the slots it occupies. -/
def ticketsHoldingLanes (b : Board) (excludeSlot : Option Nat) (ticketId : TicketId) : List Nat :=
  let holding := b.slots.filter fun s =>
    some s.slotNumber ≠ excludeSlot ∧ ticketId ∈ slotTickets b.outside s
  (holding.map (·.slotNumber)).dedup.insertionSort (· ≤ ·)

def slotIsBusyWithNothing (s : AgentSlot) : Bool :=
  !s.isAvailable && s.currentOrchestrationRunId.isNone && s.currentRunId.isNone

/-- `RESERVATION_GRACE`, in seconds. -/
def reservationGrace : Int := 60

/-- `claim_is_fresh`: whether this claim must be left alone. -/
def claimIsFresh (s : AgentSlot) (now notClaimedAfter : Option Instant) : Bool :=
  match s.assignedAt with
  | none => true
  | some claimed =>
    now.any (fun now => now - claimed < reservationGrace)
      || notClaimedAfter.any (fun after => after < claimed)

def drainRefusedReason : String := "Refused: the server is shutting down. This entry stays queued."

/-- `_start_entry_work`: start whatever this entry names, and record it on the
    slot; `false` when the dispatch refused. -/
def startEntryWork (d : Dispatcher) (ticket : Ticket) (head : QueuedRun) (n : Nat)
    (b : Board) : Board × Bool :=
  match head.entryKind with
  | .stage =>
    match d.dispatchStage ticket head b.outside with
    | (.error reason, o) => ({ b with outside := o }.refuse head.id reason, false)
    | (.ok run, o) =>
      (({ b with outside := o }.updateSlot n fun s => { s with currentRunId := some run }).update
        head.id (fun e => { e with runId := some run }) fun _ => rfl, true)
  | .orchestration =>
    match d.dispatchOrchestration ticket head.ask b.outside with
    | (none, o) => ({ b with outside := o }, false)
    | (some orch, o) =>
      (({ b with outside := o }.updateSlot n fun s =>
          { s with currentOrchestrationRunId := some orch }).update
        head.id (fun e => { e with orchestrationRunId := some orch }) fun _ => rfl, true)

/-- The end of `start_lane_head` once the dispatch was made. -/
def activateHead (L : LaneService) (n : Nat) (head : QueuedRun) (b : Board) : Board :=
  let now := b.outside.now
  ((b.updateSlot n fun s => { s with assignedAt := some now }).update head.id
    (fun e => { e with status := .active, promotedAt := some now }) fun _ => rfl).renumber L n

/-- Why a ticket that holds other lanes may not take this one. -/
def elsewhereReason (elsewhere : List Nat) : String :=
  s!"ticket already occupies lane(s) {elsewhere}; one lane per ticket"

/-- `start_lane_head` over a claimed lane whose head's ticket is there. -/
def dispatchHead (L : LaneService) (n : Nat) (head : QueuedRun) (d : Dispatcher)
    (ticket : Ticket) (b : Board) : Board × Option EntryId :=
  let elsewhere := ticketsHoldingLanes b (some n) ticket.id
  if elsewhere ≠ [] then
    (releaseSlot (b.refuse head.id (elsewhereReason elsewhere)) n, none)
  else
    match startEntryWork d ticket head n b with
    | (b, false) => (releaseSlot b n, none)
    | (b, true) => (activateHead L n head b, some head.id)

/-- `start_lane_head`, its retries bounded by `fuel`: a retry follows the
    deletion of a waiting entry whose ticket is gone. -/
def startLaneHeadFrom (L : LaneService) (n : Nat) : Nat → Board → Board × Option EntryId
  | 0, b => (b, none)
  | fuel + 1, b =>
    if b.outside.draining then
      match (waitingInLane L b.entries n).head? with
      | none => (b, none)
      | some head => (b.refuse head.id drainRefusedReason, none)
    else
      match claimLaneSlot b n with
      | none => (b, none)
      | some b =>
        match (waitingInLane L b.entries n).head?, L.dispatcher with
        | none, _ => (releaseSlot b n, none)
        | some _, none => (releaseSlot b n, none)
        | some head, some d =>
          match b.outside.ticket head.ticketId with
          | none =>
            startLaneHeadFrom L n fuel
              (releaseSlot ((b.delete head.id).renumber L n) n)
          | some ticket => dispatchHead L n head d ticket b

/-- `start_lane_head`: dispatch the front of a lane, if the lane is free and has one. Each retry has
    one waiting entry less. -/
def startLaneHead (L : LaneService) (b : Board) (n : Nat) : Board × Option EntryId :=
  startLaneHeadFrom L n ((waitingInLane L b.entries n).length + 1) b

/-! ## Adding, removing, moving -/

structure AddReply where
  status : String
  slotNumber : Nat
  entryId : EntryId
  position : Option Nat := none
  message : String

/-- The entry `add_to_lane` inserts. -/
def newEntry (L : LaneService) (t : EntryTable) (ticket : Ticket) (n : Nat)
    (entryKind : QueueEntryKind) (stageKey : String) (ask : Ask) : QueuedRun :=
  { id := t.next
    workspaceId := ticket.workspaceId
    ticketId := ticket.id
    slotNumber := n
    position := (waitingInLane L t n).length + 1
    ask := ask
    entryKind := entryKind
    stageKey := stageKey }

/-- The end of `add_to_lane`: start the lane when it is idle, and say where the entry went. -/
def startAdded (L : LaneService) (n : Nat) (idle : Bool) (id : EntryId) (b : Board) :
    Board × AddReply :=
  let (b, started) := if idle then startLaneHead L b n else (b, none)
  if started.isSome then
    (b, { status := "started", slotNumber := n, entryId := id, message := s!"Started in slot {n}" })
  else
    let position := ((b.entries.get id).map (·.position)).getD 0
    (b, { status := "queued", slotNumber := n, entryId := id, position := some position,
          message := s!"Queued at position {position} in slot {n}" })

/-- `add_to_lane`: put a ticket in a lane, starting it if the lane is idle. -/
def addToLane (L : LaneService) (b : Board) (ticketId : TicketId) (n : Nat)
    (entryKind : QueueEntryKind) (stageKey : String) (ask : Ask) :
    Board × Except String AddReply :=
  match b.outside.ticket ticketId with
  | none => (b, .error "Ticket not found")
  | some ticket =>
    let b := initializeSlots L b
    match b.slot n with
    | none => (b, .error s!"No such execution slot: {n}")
    | some slot =>
      if n > L.maxConcurrent then
        let lanes := L.maxConcurrent
        (b, .error (s!"Slot {n} is being retired: the lane count is {lanes}. "
          ++ s!"Pick a lane from 1 to {lanes}."))
      else
        match alreadyQueued b.entries ticket.id entryKind stageKey with
        | some existing =>
          let lane := existing.slotNumber
          let position := existing.position
          (b, .ok { status := "queued", slotNumber := lane, entryId := existing.id,
                    position := some position,
                    message := s!"Already queued in slot {lane} at position {position}." })
        | none =>
          let entry := newEntry L b.entries ticket n entryKind stageKey ask
          let (b, reply) := startAdded L n slot.isAvailable entry.id
            { b with entries := b.entries.insert entry rfl }
          (b, .ok reply)

def waitingEntry (t : EntryTable) (id : EntryId) : Option QueuedRun :=
  (t.get id).filter (·.status.waiting)

/-- `remove_entry`: take a waiting entry out of its lane. -/
def removeEntry (L : LaneService) (b : Board) (id : EntryId) : Board × Bool :=
  match waitingEntry b.entries id with
  | none => (b, false)
  | some entry => ((b.delete id).renumber L entry.slotNumber, true)

/-- The writes of `move_entry` on the entries: out of the way first, so that
    renumbering the target lane cannot collide with the old position. -/
def movedEntries (L : LaneService) (t : EntryTable) (entry : QueuedRun) (n : Nat)
    (position : Int) : EntryTable :=
  let t := t.update entry.id
    (fun e => { e with slotNumber := n, position := 10000 + position.toNat }) fun _ => rfl
  let t := if entry.slotNumber ≠ n then renumber L entry.slotNumber none t else t
  renumber L n (some (entry.id, position)) t

/-- `move_entry`: move a waiting entry within its lane, or into another one. -/
def moveEntry (L : LaneService) (b : Board) (id : EntryId) (n : Nat) (position : Int) :
    Board × Bool :=
  match waitingEntry b.entries id with
  | none => (b, false)
  | some entry =>
    if (b.slot n).isNone ∨ n > L.maxConcurrent then (b, false)
    else
      let b := { b with entries := movedEntries L b.entries entry n position }
      if (b.slot n).any (·.isAvailable) then ((startLaneHead L b n).1, true) else (b, true)

/-- `place_at_lane_tail`: put a re-queued entry back at the end of the lane it was
    already in, or of the shortest one where its own was retired. -/
def placeAtLaneTail (L : LaneService) (t : EntryTable) (entry : QueuedRun) : EntryTable :=
  let lane := if entry.slotNumber > L.maxConcurrent then shortestLane L t else entry.slotNumber
  let position := (waitingInLane L t lane).length + 1
  renumber L lane none (t.update entry.id
    (fun e => { e with slotNumber := lane, position := position }) fun _ => rfl)

end Loregarden.Lanes
