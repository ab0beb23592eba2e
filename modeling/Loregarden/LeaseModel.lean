import Loregarden.OrchestrationModel
import Loregarden.TicketWaitModel

/-! # Orchestration leases

`orchestration_lease_expired` of `run_concurrency.py`, which judges an orchestration by the agent
runs of its ticket subtree and by its own stamps, the calls that leave those stamps, and
`settle_expired_orchestration_leases` of `run_service.py`, which fails what it finds expired.

Times are whole units of one clock. `World` carries, beside the tables, what has happened: who was
claimed, started or adopted, who was renewed, and which agent run finished, and when. -/

namespace Loregarden.Orchestrations

open Ranked
open Lanes (Instant RunStatus OrchestrationRunStatus)
open TicketWait (Database TicketId subtreeIds)

structure AgentRun where
  id : Nat
  orchestrationRunId : Option Nat := none
  status : RunStatus := .queued
  finishedAt : Option Instant := none

structure World where
  /-- The ticket forest. -/
  db : Database
  runs : RunTable
  agents : Keyed AgentRun AgentRun.id
  clock : Instant
  /-- When an orchestration was claimed, started or adopted. -/
  started : List (Nat × Instant) := []
  /-- When its lease was renewed. -/
  renewed : List (Nat × Instant) := []
  /-- When an agent run finished. -/
  finished : List (Nat × Instant) := []

/-- `ORCHESTRATION_LEASE`, in seconds. -/
def orchestrationLease : Int := 1800

/-- `descendants_by_root`, of one root: every ticket beneath it. -/
def descendantsByRoot (db : Database) (rootId : TicketId) : List TicketId :=
  (subtreeIds db rootId).filter (· ≠ rootId)

/-- `subtree_orchestration_ids`: every orchestration beneath this one, found through its
    ticket subtree. -/
def subtreeOrchestrationIds (w : World) (run : OrchestrationRun) : List Nat :=
  let descendants := descendantsByRoot w.db run.ticketId
  if descendants.isEmpty then []
  else (w.runs.rows.filter fun r => r.ticketId ∈ descendants ∧ r.id ≠ run.id).map (·.id)

def agentsOf (w : World) (orchestrationIds : List Nat) : List AgentRun :=
  w.agents.rows.filter fun a => a.orchestrationRunId.any (· ∈ orchestrationIds)

/-- `_latest_activity`: the most recent moment this orchestration is known to have been alive. -/
def latestActivity (w : World) (run : OrchestrationRun) (orchestrationIds : List Nat) :
    Option Instant :=
  let latestChildFinish := ((agentsOf w orchestrationIds).filterMap (·.finishedAt)).max?
  let candidates := [(run.lastSeenAt.or run.startedAt).or (some run.createdAt), latestChildFinish]
  (candidates.filterMap id).max?

def orchestrationLeaseExpired (w : World) (now : Instant) (lease : Int)
    (run : OrchestrationRun) : Bool :=
  let orchestrationIds := run.id :: subtreeOrchestrationIds w run
  if (agentsOf w orchestrationIds).any (·.status.live) then false
  else
    match latestActivity w run orchestrationIds with
    | none => false
    | some stamp => decide (now - stamp > lease)

/-! ## What happens -/

inductive Event where
  | claim (ticketId : TicketId) (ask : DriveAsk) (ticket : TicketView) (code : String)
  | start (ticketId : TicketId) (ask : DriveAsk) (ticket : TicketView) (code : String)
  | adopt (claim : OrchestrationRun) (ask : DriveAsk) (ticket : TicketView)
  /-- `touch_lease` and `renew_orchestration_lease`. -/
  | renew (run : Nat)
  | finish (run : Nat) (status : OrchestrationRunStatus) (message : String)
  | queueAgent (orchestration : Option Nat)
  /-- The agent run goes from one live status to another. -/
  | moveAgent (agent : Nat) (status : RunStatus)
  /-- `complete_run`; refused when the run is over. -/
  | finishAgent (agent : Nat) (status : RunStatus)

def touchLease (now : Instant) (r : OrchestrationRun) : OrchestrationRun :=
  { r with lastSeenAt := some now }

theorem touchLease_id (now : Instant) (r : OrchestrationRun) : (touchLease now r).id = r.id := rfl

def moveRun (status : RunStatus) (a : AgentRun) : AgentRun := { a with status := status }

theorem moveRun_id (status : RunStatus) (a : AgentRun) : (moveRun status a).id = a.id := rfl

def completeRun (status : RunStatus) (now : Instant) (a : AgentRun) : AgentRun :=
  { a with status := status, finishedAt := some now }

theorem completeRun_id (status : RunStatus) (now : Instant) (a : AgentRun) :
    (completeRun status now a).id = a.id := rfl

def queuedAgent (id : Nat) (orchestration : Option Nat) : AgentRun where
  id := id
  orchestrationRunId := orchestration

theorem queuedAgent_id (id : Nat) (orchestration : Option Nat) :
    (queuedAgent id orchestration).id = id := rfl

def World.agentLive (w : World) (agent : Nat) : Bool := (w.agents.get agent).any (·.status.live)

/-- What the event leaves, when it happens at `now`; a write of a row that is not there
    writes nothing. -/
def World.happen (w : World) (now : Instant) : Event → World
  | .claim ticketId ask ticket code =>
    { w with
      clock := now
      runs := w.runs.insert (claimedRun w.runs.next ticketId ask ticket code now)
        (claimedRun_id _ _ _ _ _ _)
      started := (w.runs.next, now) :: w.started }
  | .start ticketId ask ticket code =>
    { w with
      clock := now
      runs := w.runs.insert (startedRun w.runs.next ticketId ask ticket code now)
        (startedRun_id _ _ _ _ _ _)
      started := (w.runs.next, now) :: w.started }
  | .adopt claim ask ticket =>
    if (w.runs.get claim.id).isNone then { w with clock := now }
    else
      { w with
        clock := now
        runs := w.runs.update claim.id (adoptClaim claim ask ticket now)
          (adoptClaim_id claim ask ticket now)
        started := (claim.id, now) :: w.started }
  | .renew run =>
    if (w.runs.get run).isNone then { w with clock := now }
    else
      { w with
        clock := now
        runs := w.runs.update run (touchLease now) (touchLease_id now)
        renewed := (run, now) :: w.renewed }
  | .finish run status message =>
    { w with
      clock := now
      runs := w.runs.update run (finishRun status message now)
        (finishRun_id status message now) }
  | .queueAgent orchestration =>
    { w with
      clock := now
      agents := w.agents.insert (queuedAgent w.agents.next orchestration) (queuedAgent_id _ _) }
  | .moveAgent agent status =>
    if w.agentLive agent ∧ status.live then
      { w with
        clock := now
        agents := w.agents.update agent (moveRun status) (moveRun_id status) }
    else { w with clock := now }
  | .finishAgent agent status =>
    if w.agentLive agent ∧ ¬ status.live then
      { w with
        clock := now
        agents := w.agents.update agent (completeRun status now) (completeRun_id status now)
        finished := (agent, now) :: w.finished }
    else { w with clock := now }

def expiredLeaseMessage (runCode : String) (subtreeOrchestrations : Nat) : String :=
  let examined :=
    if subtreeOrchestrations = 0 then
      s!"no in-flight agent run under {runCode} and no nested orchestration beneath it"
    else if subtreeOrchestrations = 1 then
      s!"no in-flight agent run under {runCode} or the 1 orchestration in its ticket subtree"
    else
      s!"no in-flight agent run under {runCode} or the {subtreeOrchestrations} "
        ++ "orchestrations in its ticket subtree"
  s!"Orchestration lease expired: {examined}, and nothing has renewed it. "
    ++ "Its driver is gone; the lane has been released."

/-- One candidate of the sweep, and the candidates it has settled. -/
def settleCandidate (now : Instant) (state : World × List Nat) (id : Nat) : World × List Nat :=
  let (w, settled) := state
  match w.runs.get id with
  | none => (w, settled)
  | some run =>
    if orchestrationLeaseExpired w now orchestrationLease run ∧ (w.db.get run.ticketId).isSome then
      let message := expiredLeaseMessage run.runCode (subtreeOrchestrationIds w run).length
      ({ w with runs := w.runs.update id (finishRun .failed message now)
                  (finishRun_id .failed message now) }, settled ++ [id])
    else (w, settled)

/-- `settle_expired_orchestration_leases`: make a run whose lease expired terminal. -/
def settleExpiredOrchestrationLeases (w : World) (now : Instant) : World × List Nat :=
  ((w.runs.rows.filter (·.status.live)).map (·.id)).foldl (settleCandidate now) (w, [])

end Loregarden.Orchestrations
