import Loregarden.LaneModel

/-! # Lane calls: completion, the reconcile sweep and the bulk endpoints

`on_orchestration_complete` and `reconcile_lanes` of `queue_lanes.py` with the passes of
`queue_repair.py`, `parallel_queue.py` and `slot_claim_healing.py` they run, and the endpoints of
`bulk_queue_operations.py`. A pass over rows read once goes over their ids and reads each row again
when it comes to it, as the session does. -/

namespace Loregarden.Lanes

open Ranked

/-! ## Repair holds (`queue_repair.py`) -/

def repairAttemptCap : Nat := 3

/-- `REPAIR_WALL_CLOCK`, in seconds. -/
def repairWallClock : Int := 900

/-- `repair_exhausted`: why this entry may hold its lane no longer, or `""`. -/
def repairExhausted (now : Instant) (e : QueuedRun) : String :=
  let attempts := e.repairAttempts
  if attempts ≥ repairAttemptCap then
    s!"Repair gave up after {attempts} attempts (cap {repairAttemptCap}); the block stands."
  else
    match e.repairingSince with
    | none => ""
    | some since =>
      let held := now - since
      if held > repairWallClock then
        s!"Repair gave up after holding the lane for {held}s (cap {repairWallClock}s); "
          ++ "the block stands."
      else ""

def orReason (reason : String) (e : QueuedRun) : String :=
  if e.failureReason = "" then reason else e.failureReason

/-- `_hold_for_repair`: keep this entry's lane because its block may still resolve
    itself; `false` when the block is final. -/
def holdForRepair (L : LaneService) (b : Board) (entry : QueuedRun) : Board × Bool :=
  match entry.orchestrationRunId.bind b.outside.orchestration, b.outside.ticket entry.ticketId with
  | some orch, some ticket =>
    let spent := repairExhausted b.outside.now entry
    if orch.status ≠ .blocked then (b, false)
    else if spent ≠ "" then
      (b.update entry.id (fun e => { e with failureReason := orReason spent e }) fun _ => rfl,
        false)
    else if ¬ b.outside.hasRepairRoute ticket.id then (b, false)
    else
      let (refused, o) := L.prepareRerun ticket b.outside
      let b := { b with outside := o }
      if refused ≠ "" then (b, false)
      else
        (b.update entry.id
          (fun e => { e with status := .repairing, repairingSince := some o.now }) fun _ => rfl,
          true)
  | _, _ => (b, false)

def settled (e : QueuedRun) : QueuedRun :=
  { e with status := .started, repairingSince := none }

/-- `_slot_left_busy_by`: the entry's slot, if it is busy with nothing in it and
    the claim is not a later one's. -/
def slotLeftBusyBy (b : Board) (entry : QueuedRun) : Option AgentSlot :=
  (b.slot entry.slotNumber).filter fun slot =>
    slotIsBusyWithNothing slot ∧ ¬ claimIsFresh slot none entry.promotedAt

def entryOfOrchestration (t : EntryTable) (orch : Nat) : Option QueuedRun :=
  t.rows.find? (·.orchestrationRunId = some orch)

/-- The end of `on_orchestration_complete`: settle the entry, free the slot, start
    what is next in it. -/
def settleAndFree (L : LaneService) (b : Board) (entry : Option QueuedRun)
    (slot : Option AgentSlot) : Board :=
  let b := match entry with
    | none => b
    | some entry =>
      if entry.status = .started then b else b.update entry.id settled fun _ => rfl
  match slot with
  | none => b
  | some slot => (startLaneHead L (releaseSlot b slot.slotNumber) slot.slotNumber).1

/-- `on_orchestration_complete`: free whichever lane held this orchestration, then
    start its next entry. -/
def onOrchestrationComplete (L : LaneService) (b : Board) (orch : Nat) : Board :=
  let entry := entryOfOrchestration b.entries orch
  let held := b.slots.find? (·.currentOrchestrationRunId = some orch)
  match entry, held with
  | none, held => settleAndFree L b none held
  | some entry, none => settleAndFree L b (some entry) (slotLeftBusyBy b entry)
  | some entry, some slot =>
    match holdForRepair L b entry with
    | (b, true) => b
    | (b, false) => settleAndFree L b (some entry) (some slot)

/-! ## The sweep: entries -/

def QueuedRun.stranded (e : QueuedRun) : Bool :=
  e.runId.isNone && e.orchestrationRunId.isNone &&
    (e.status == .promoted || e.status == .active)

def renumberLanes (L : LaneService) (lanes : List Nat) (t : EntryTable) : EntryTable :=
  lanes.foldl (fun t n => renumber L n none t) t

/-- `_requeue_stranded_entries`: return entries that were started by nothing to their lane. -/
def requeueStrandedEntries (L : LaneService) (t : EntryTable) : EntryTable :=
  let lanes := ((t.rows.filter (·.stranded)).map (·.slotNumber)).dedup
  renumberLanes L lanes (t.write
    (fun e => if e.stranded then { e with status := .queued, promotedAt := none } else e)
    fun e => by split <;> rfl)

/-- What is waiting in lanes past the lane count, in lane order. -/
def retiredWaiting (L : LaneService) (t : EntryTable) : List QueuedRun :=
  ranked (fun e => (toLex (e.slotNumber, L.place e) : Nat ×ₗ Nat ×ₗ Nat ×ₗ Nat))
    (t.rows.filter fun e => L.maxConcurrent < e.slotNumber ∧ e.status.waiting)

/-- One entry of `rehome_retired_lane_entries`: to the tail of the then-shortest lane. -/
def rehome (L : LaneService) (t : EntryTable) (id : EntryId) : EntryTable :=
  let target := shortestLane L t
  let position := (waitingInLane L t target).length + 1
  t.update id (fun e => { e with slotNumber := target, position := position }) fun _ => rfl

/-- `rehome_retired_lane_entries`: move entries waiting in lanes past the lane
    count into live lanes. -/
def rehomeRetiredLaneEntries (L : LaneService) (t : EntryTable) : EntryTable :=
  ((retiredWaiting L t).map (·.id)).foldl (rehome L) t

/-- `_slot_holding`: the slot this entry occupies, by whichever column recorded the claim. -/
def slotHolding (b : Board) (entry : QueuedRun) : Option AgentSlot :=
  (entry.orchestrationRunId.bind fun orch =>
      b.slots.find? (·.currentOrchestrationRunId = some orch)).or
    (entry.runId.bind fun run => b.slots.find? (·.currentRunId = some run))

/-- `_settle_repair`: end a hold as the block it always was. -/
def settleRepair (L : LaneService) (b : Board) (entry : QueuedRun) (reason : String) : Board :=
  let slot := slotHolding b entry
  let b := b.update entry.id
    (fun e => { settled e with failureReason := orReason reason e }) fun _ => rfl
  match slot with
  | none => b
  | some slot => (startLaneHead L (releaseSlot b slot.slotNumber) slot.slotNumber).1

/-- Why a hold ends before its re-dispatch is tried: the ticket is over, the hold is spent, its
    route is gone, its lane was reclaimed, or the ticket runs elsewhere. -/
def holdEnded (b : Board) (entry : QueuedRun) (ticket : Ticket) : Except String AgentSlot :=
  let state := ticket.state.value
  let spent := repairExhausted b.outside.now entry
  if ticket.state = .done ∨ ticket.state = .wontDo ∨ ticket.state = .parked then
    .error s!"the ticket is {state}; nothing left to repair"
  else if spent ≠ "" then .error spent
  else if ticket.state = .blocked ∧ ¬ b.outside.hasRepairRoute ticket.id then
    .error (if ticket.blockingIssues = "" then "the block has no repair route left"
      else ticket.blockingIssues)
  else
    match slotHolding b entry with
    | none => .error "the lane was reclaimed while the block was being repaired"
    | some slot =>
      let elsewhere := ticketsHoldingLanes b (some slot.slotNumber) ticket.id
      if elsewhere ≠ [] then .error s!"the ticket was restarted in lane(s) {elsewhere}"
      else .ok slot

/-- The re-dispatch of a held entry, its attempt counted first. -/
def retryHeld (b : Board) (entry : QueuedRun) (ticket : Ticket) (slot : AgentSlot)
    (d : Dispatcher) : Board :=
  let b := b.update entry.id
    (fun e => { e with repairAttempts := e.repairAttempts + 1 }) fun _ => rfl
  match startEntryWork d ticket entry slot.slotNumber b with
  | (b, false) => b
  | (b, true) =>
    let now := b.outside.now
    (b.updateSlot slot.slotNumber fun s => { s with assignedAt := some now }).update entry.id
      (fun e =>
        { e with status := .active, promotedAt := some now, repairingSince := none })
      fun _ => rfl

/-- `_drive_one_repair`: spend or end one hold. -/
def driveOneRepair (L : LaneService) (b : Board) (entry : QueuedRun) : Board :=
  match b.outside.ticket entry.ticketId with
  | none => settleRepair L b entry "the ticket went away while its block was being repaired"
  | some ticket =>
    match holdEnded b entry ticket with
    | .error reason => settleRepair L b entry reason
    | .ok slot =>
      let (refused, o) := L.prepareRerun ticket b.outside
      let refused := if refused = "" then o.rerunRefusal ticket.id else refused
      let b := { b with outside := o }
      if refused ≠ "" then settleRepair L b entry refused
      else
        match L.dispatcher with
        | none =>
          b.update entry.id
            (fun e => { e with repairAttempts := e.repairAttempts + 1 }) fun _ => rfl
        | some d => retryHeld b entry ticket slot d

/-- One entry of `_drive_repairing_entries`, read as its turn comes. -/
def driveHeld (L : LaneService) (b : Board) (id : EntryId) : Board :=
  match b.entries.get id with
  | none => b
  | some entry => driveOneRepair L b entry

/-- `_drive_repairing_entries`: spend or end every hold. -/
def driveRepairingEntries (L : LaneService) (b : Board) : Board :=
  ((b.entries.rows.filter (·.status = .repairing)).map (·.id)).foldl (driveHeld L) b

/-- Waiting for a ticket that is already done or won't-do. -/
def QueuedRun.stale (o : Outside) (e : QueuedRun) : Bool :=
  e.status.waiting &&
    (o.ticket e.ticketId).any fun ticket => ticket.state = .done ∨ ticket.state = .wontDo

/-- `_cancel_terminal_ticket_entries`: drop waiting entries whose ticket is already
    done or won't-do. -/
def cancelTerminalTicketEntries (L : LaneService) (o : Outside) (t : EntryTable) : EntryTable :=
  let lanes := ((t.rows.filter (·.stale o)).map (·.slotNumber)).dedup
  renumberLanes L lanes (t.write
    (fun e => if e.stale o then { e with status := .cancelled } else e)
    fun e => by split <;> rfl)

/-- `_entry_work_is_over`: whether the thing this entry started has reached a
    terminal status; a row that has gone missing counts as over. -/
def entryWorkIsOver (o : Outside) (e : QueuedRun) : Bool :=
  match e.orchestrationRunId, e.runId with
  | some orch, _ => (o.orchestration orch).all fun orch => !orch.status.live
  | none, some run => (o.run run).all fun run => !run.status.live
  | none, none => false

/-- `_settle_finished_entries`: retire entries whose work finished but whose
    release stopped short. -/
def settleFinishedEntries (o : Outside) (t : EntryTable) : EntryTable :=
  t.write
    (fun e =>
      if (e.status = .active ∨ e.status = .promoted) ∧ entryWorkIsOver o e then
        { e with status := .started }
      else e)
    fun e => by split <;> rfl

/-! ## The sweep: slots -/

/-- `_held_for_repair`: whether a lane entry is holding this slot through a provisional block. -/
def heldForRepair (t : EntryTable) (s : AgentSlot) : Bool :=
  t.rows.any fun e =>
    e.status == .repairing &&
      ((s.currentOrchestrationRunId.isSome && e.orchestrationRunId == s.currentOrchestrationRunId)
        || (s.currentRunId.isSome && e.runId == s.currentRunId))

/-- `_occupant_is_live`: whether whatever holds this slot still has work in flight. -/
def occupantIsLive (b : Board) (s : AgentSlot) : Bool :=
  heldForRepair b.entries s ||
    match s.currentOrchestrationRunId, s.currentRunId with
    | some orch, _ =>
      (b.outside.orchestration orch).any fun orch => orch.status.live && !orch.leaseExpired
    | none, some run => (b.outside.run run).any (·.status.live)
    | none, none => claimIsFresh s (some b.outside.now) none

/-- `reconcile_slots`: free slots whose occupant already finished. -/
def reconcileSlots (b : Board) : Board × List Nat :=
  let freed := (b.slots.filter fun s => ¬ s.isAvailable ∧ ¬ occupantIsLive b s).map
    (·.slotNumber)
  (freed.foldl releaseSlot b, freed)

/-- `_ticket_covered_by_ancestor_slot`: whether a live ancestor orchestration already holds a lane.
    Every round but the last goes up to a ticket it has not seen, so there are at most as many as
    tickets, and one. -/
def coveredFrom (o : Outside) (held : List Nat) : Nat → List TicketId → TicketId → Bool
  | 0, _, _ => false
  | rounds + 1, seen, ticketId =>
    match (o.ticket ticketId).bind (·.parentTicketId) with
    | none => false
    | some parentId =>
      if parentId ∈ seen then false
      else if o.orchestrations.any fun run =>
          run.ticketId = parentId ∧ run.status.live ∧ run.id ∈ held then true
      else coveredFrom o held rounds (parentId :: seen) parentId

def coveredByAncestor (o : Outside) (held : List Nat) (ticketId : TicketId) : Bool :=
  coveredFrom o held (o.tickets.length + 1) [] ticketId

def heldOrchestrations (b : Board) : List Nat := b.slots.filterMap (·.currentOrchestrationRunId)

/-- `release_nested_slot_claims`: free slots bound to nested children when an
    ancestor already holds one. -/
def releaseNestedSlotClaims (L : LaneService) (b : Board) : Board × List Nat :=
  let b := initializeSlots L b
  let held := heldOrchestrations b
  let nested := b.slots.filter fun s =>
    (s.currentOrchestrationRunId.bind b.outside.orchestration).any fun orch =>
      coveredByAncestor b.outside (held.filter (· ≠ orch.id)) orch.ticketId
  let freed := nested.map (·.slotNumber)
  (freed.foldl (fun b n => (releaseSlot b n).updateSlot n fun s => { s with assignedAt := none }) b,
    freed)

/-- `_idle_lanes_with_work`: lanes sitting available with something already waiting in them. -/
def idleLanesWithWork (L : LaneService) (b : Board) : List Nat :=
  (b.slots.filter fun s => s.isAvailable ∧ waitingInLane L b.entries s.slotNumber ≠ []).map
    (·.slotNumber)

/-- `ensure_active_entry_for_orchestration`: make sure a lane entry exists for an
    orchestration already on a slot. -/
def ensureActiveEntry (o : Outside) (t : EntryTable) (n orchId : Nat) : EntryTable :=
  match entryOfOrchestration t orchId, o.orchestration orchId with
  | none, some orch =>
    t.insert
      { id := t.next
        workspaceId := orch.workspaceId
        ticketId := orch.ticketId
        orchestrationRunId := some orch.id
        slotNumber := n
        position := 1
        status := .active
        promotedAt := some o.now } rfl
  | _, _ => t

def adoptOrphan (b : Board) (run : OrchestrationRun) (n : Nat) : Board :=
  let b := b.updateSlot n fun s =>
    { s with
      isAvailable := false, currentOrchestrationRunId := some run.id,
      currentRunId := none, assignedAt := some b.outside.now }
  { b with entries := ensureActiveEntry b.outside b.entries n run.id }

/-- `claim_orphaned_orchestrations`: bind free slots to live orchestrations that
    never claimed one. -/
def claimOrphanedOrchestrations (L : LaneService) (b : Board) : Board :=
  let b := initializeSlots L b
  let held := heldOrchestrations b
  let orphans := b.outside.orchestrations.filter fun run =>
    run.status.live ∧ run.id ∉ held ∧ ¬ coveredByAncestor b.outside held run.ticketId
      ∧ ticketsHoldingLanes b none run.ticketId = []
  let free := ((b.slots.filter (·.isAvailable)).map (·.slotNumber)).insertionSort (· ≤ ·)
  (orphans.zip free).foldl (fun b p => adoptOrphan b p.1 p.2) b

def startLanes (L : LaneService) (lanes : List Nat) (b : Board) : Board :=
  lanes.foldl (fun b n => (startLaneHead L b n).1) b

/-- The first half of `reconcile_lanes`: what it does to the entries before the slots are swept. -/
def reconcileEntries (L : LaneService) (b : Board) : Board :=
  let b := { b with entries := rehomeRetiredLaneEntries L (requeueStrandedEntries L b.entries) }
  let b := driveRepairingEntries L b
  { b with
    entries := settleFinishedEntries b.outside (cancelTerminalTicketEntries L b.outside b.entries) }

/-- The second half: sweep the slots, start every idle lane with work, adopt what
    never claimed a slot. -/
def reconcileLanesSlots (L : LaneService) (b : Board) : Board × List Nat :=
  let (b, freed) := reconcileSlots b
  let (b, nested) := releaseNestedSlotClaims L b
  let b := initializeSlots L b
  let lanes := (freed ++ nested ++ idleLanesWithWork L b).dedup.insertionSort (· ≤ ·)
  (claimOrphanedOrchestrations L (startLanes L lanes b), freed ++ nested)

/-- `reconcile_lanes`: put stranded entries back in line, reclaim dead lanes, then drain them.
    Returns the slot numbers freed. -/
def reconcileLanes (L : LaneService) (b : Board) : Board × List Nat :=
  reconcileLanesSlots L (reconcileEntries L b)

/-! ## Bulk operations (`bulk_queue_operations.py`) -/

structure BulkResult where
  entryId : EntryId
  status : String
  message : String := ""

structure BulkOperationResponse where
  operation : String
  totalRequested : Nat
  successful : Nat
  failed : Nat
  results : List BulkResult

/-- `_entry`: an entry of one workspace. -/
def workspaceEntry (t : EntryTable) (workspaceId : WorkspaceId) (id : EntryId) : Option QueuedRun :=
  (t.get id).filter (·.workspaceId = workspaceId)

/-- What one of the bulk status changes is: its name, the status it writes, the
    statuses it may leave, and its refusal. -/
structure BulkChange where
  operation : String
  target : QueuePosition
  allowedFrom : QueuePosition → Bool
  refusal : String

/-- One entry of `_bulk_set_status`. -/
def bulkSetOne (c : BulkChange) (workspaceId : WorkspaceId) (t : EntryTable) (id : EntryId) :
    EntryTable × BulkResult :=
  match workspaceEntry t workspaceId id with
  | none => (t, { entryId := id, status := "error", message := "Entry not found" })
  | some entry =>
    if c.allowedFrom entry.status then
      (t.update id (fun e => { e with status := c.target }) fun _ => rfl,
        { entryId := id, status := c.operation })
    else
      let status := entry.status.value
      let refusal := c.refusal
      (t, { entryId := id, status := "error", message := s!"Entry is {status}; {refusal}" })

/-- The loop of `_bulk_set_status`. -/
def bulkSetLoop (c : BulkChange) (workspaceId : WorkspaceId) :
    List EntryId → EntryTable → EntryTable × List BulkResult
  | [], t => (t, [])
  | id :: ids, t =>
    let (t, result) := bulkSetOne c workspaceId t id
    let (t, results) := bulkSetLoop c workspaceId ids t
    (t, result :: results)

/-- `_bulk_set_status`: move a set of entries into one status, refusing the ones it cannot. -/
def bulkSetStatus (c : BulkChange) (t : EntryTable) (workspaceId : WorkspaceId)
    (entryIds : List EntryId) : EntryTable × BulkOperationResponse :=
  let (t, results) := bulkSetLoop c workspaceId entryIds t
  (t, { operation := c.operation
        totalRequested := entryIds.length
        successful := results.countP (·.status = c.operation)
        failed := results.countP (·.status ≠ c.operation)
        results := results })

/-- `bulk_cancel_entries`. -/
def bulkCancel : BulkChange where
  operation := "cancelled"
  target := .cancelled
  allowedFrom := QueuePosition.waiting
  refusal := "only a waiting entry can be cancelled here"

/-- `bulk_pause_entries`. -/
def bulkPause : BulkChange where
  operation := "paused"
  target := .paused
  allowedFrom := QueuePosition.waiting
  refusal := "only a waiting entry can be paused"

/-- `bulk_resume_entries`. -/
def bulkResume : BulkChange where
  operation := "resumed"
  target := .queued
  allowedFrom := (· == .paused)
  refusal := "only a paused entry can be resumed"

/-- Queued again, with one more retry counted and its failure forgotten. -/
def QueuedRun.retried (e : QueuedRun) : QueuedRun :=
  { e with status := .queued, retryCount := e.retryCount + 1, failureReason := "" }

theorem QueuedRun.retried_id (e : QueuedRun) : e.retried.id = e.id := rfl

/-- `_apply_retry`: re-queue an entry in its own lane. Returns the backoff. -/
def applyRetry (L : LaneService) (t : EntryTable) (entry : QueuedRun) : EntryTable × Nat :=
  (placeAtLaneTail L (t.update entry.id QueuedRun.retried QueuedRun.retried_id) entry,
    Nat.pow 2 entry.retryCount)

structure RetryReply where
  entryId : EntryId
  retryCount : Nat
  maxRetries : Nat
  backoffSeconds : Nat

/-- `retry_failed_entry`; a refusal is a status code and a text. -/
def retryFailedEntry (L : LaneService) (t : EntryTable) (workspaceId : WorkspaceId)
    (id : EntryId) : EntryTable × Except (Nat × String) RetryReply :=
  match workspaceEntry t workspaceId id with
  | none => (t, .error (404, "Entry not found"))
  | some entry =>
    let most := entry.maxRetries
    if entry.retryCount ≥ most then (t, .error (400, s!"Max retries ({most}) exceeded"))
    else
      let (t, backoff) := applyRetry L t entry
      (t, .ok { entryId := id, retryCount := entry.retryCount + 1, maxRetries := most,
                backoffSeconds := backoff })

/-- One entry of `retry_all_failed_entries`. -/
def retryIfUnderCeiling (L : LaneService) (t : EntryTable) (id : EntryId) : EntryTable :=
  match t.get id with
  | none => t
  | some entry =>
    if entry.retryCount ≥ entry.maxRetries then t else (applyRetry L t entry).1

def failedEntries (t : EntryTable) (workspaceId : WorkspaceId) : List QueuedRun :=
  t.rows.filter fun e => e.workspaceId = workspaceId ∧ e.status = .failed

/-- `retry_all_failed_entries`: retry every failed entry still under its retry ceiling. -/
def retryAllFailed (L : LaneService) (t : EntryTable) (workspaceId : WorkspaceId) : EntryTable :=
  ((failedEntries t workspaceId).map (·.id)).foldl (retryIfUnderCeiling L) t

inductive LaneCall where
  | addToLane (ticketId : TicketId) (slotNumber : Nat) (entryKind : QueueEntryKind)
      (stageKey : String) (ask : Ask)
  | removeEntry (id : EntryId)
  | moveEntry (id : EntryId) (slotNumber : Nat) (position : Int)
  | startLaneHead (slotNumber : Nat)
  | onOrchestrationComplete (orch : Nat)
  | reconcileLanes
  | bulkCancel (workspaceId : WorkspaceId) (ids : List EntryId)
  | bulkPause (workspaceId : WorkspaceId) (ids : List EntryId)
  | bulkResume (workspaceId : WorkspaceId) (ids : List EntryId)
  | retryFailedEntry (workspaceId : WorkspaceId) (id : EntryId)
  | retryAllFailed (workspaceId : WorkspaceId)

def Board.onEntries (b : Board) (write : EntryTable → EntryTable) : Board :=
  { b with entries := write b.entries }

def LaneCall.serve (L : LaneService) (b : Board) : LaneCall → Board
  | .addToLane ticketId n kind stageKey ask =>
    (Lanes.addToLane L b ticketId n kind stageKey ask).1
  | .removeEntry id => (Lanes.removeEntry L b id).1
  | .moveEntry id n position => (Lanes.moveEntry L b id n position).1
  | .startLaneHead n => (Lanes.startLaneHead L b n).1
  | .onOrchestrationComplete orch => Lanes.onOrchestrationComplete L b orch
  | .reconcileLanes => (Lanes.reconcileLanes L b).1
  | .bulkCancel ws ids => b.onEntries fun t => (bulkSetStatus Lanes.bulkCancel t ws ids).1
  | .bulkPause ws ids => b.onEntries fun t => (bulkSetStatus Lanes.bulkPause t ws ids).1
  | .bulkResume ws ids => b.onEntries fun t => (bulkSetStatus Lanes.bulkResume t ws ids).1
  | .retryFailedEntry ws id => b.onEntries fun t => (Lanes.retryFailedEntry L t ws id).1
  | .retryAllFailed ws => b.onEntries fun t => Lanes.retryAllFailed L t ws

/-- One call, made when the rest of the program stands as `now`. -/
def serveAt (L : LaneService) (b : Board) (step : Outside × LaneCall) : Board :=
  step.2.serve L { b with outside := step.1 }

end Loregarden.Lanes
