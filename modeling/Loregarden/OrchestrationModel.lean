import Loregarden.LaneModel
import Loregarden.PythonText

/-! # Orchestrations: claiming, starting, adopting and finishing a drive

The `orchestration_runs` table and the calls of `orchestration_callbacks.py` that write a run's
status. Each call reads the table first and commits its write later, so a call is a `Phase` between
the two: any number of sessions stand in a phase of their own, and whatever they read may be out of
date when they write.

A run id is a fresh UUID, so a number handed out once stands for it. What the writes leave to other
tables (the ticket's own start, child agent runs, the lane) is not here; the ticket's columns are
given with the write that reads them. -/

namespace Loregarden.Orchestrations

open Ranked Text
open Lanes (TicketId WorkspaceId Instant TicketState OrchestrationRunStatus)

inductive OrchestrationDriver where
  | builtinAutopilot | externalMcp | manualStage
  deriving DecidableEq

inductive ExternalHarness where
  | claudeCode | codex | cursor | other
  deriving DecidableEq

structure OrchestrationRun where
  id : Nat
  runCode : String := ""
  ticketId : TicketId
  workspaceId : WorkspaceId := 0
  driver : OrchestrationDriver := .builtinAutopilot
  profileSlug : String := ""
  lastSeenAt : Option Instant := none
  externalHarness : Option ExternalHarness := none
  status : OrchestrationRunStatus := .queued
  currentStageKey : String := ""
  errorMessage : String := ""
  autoApprove : Bool := false
  stopAtStageKey : String := ""
  approveDesignPlans : Bool := true
  autoRepair : Bool := true
  timeoutOverrideSeconds : Option Int := none
  startedAt : Option Instant := none
  finishedAt : Option Instant := none
  createdAt : Instant := 0
  deriving DecidableEq

/-- `orchestration_runs`. -/
abbrev RunTable := Keyed OrchestrationRun OrchestrationRun.id

/-- The runs of a ticket that are claimed or driving. -/
def RunTable.driving (t : RunTable) (ticketId : TicketId) : List OrchestrationRun :=
  t.rows.filter fun r => r.ticketId = ticketId ∧ r.status.live

/-- Newest first; rows of one moment in the database's own order. -/
def newestFirst (rowOrder : Nat → Nat) (r r' : OrchestrationRun) : Bool :=
  r'.createdAt < r.createdAt ∨ r.createdAt = r'.createdAt ∧ rowOrder r.id ≤ rowOrder r'.id

def findActiveOrchestrationRun (rowOrder : Nat → Nat) (t : RunTable) (ticketId : TicketId) :
    Option OrchestrationRun :=
  ((t.driving ticketId).insertionSort (newestFirst rowOrder · ·)).head?

/-- The columns of a ticket that a claim or a start copies. -/
structure TicketView where
  workspaceId : WorkspaceId := 0
  state : TicketState := .backlog
  workflowStageKey : String := ""

/-- `TERMINAL_TICKET_STATES`. -/
def terminalTicketState : TicketState → Bool
  | .done | .wontDo => true
  | _ => false

structure DriveAsk where
  driver : OrchestrationDriver := .builtinAutopilot
  profileSlug : String := ""
  autoApprove : Bool := false
  approveDesignPlans : Bool := true
  autoRepair : Bool := true
  stopAtStageKey : String := ""
  timeoutOverrideSeconds : Option Int := none
  externalHarness : Option ExternalHarness := none

/-- The row `claim_orchestration_run` inserts. -/
def claimedRun (id : Nat) (ticketId : TicketId) (ask : DriveAsk) (ticket : TicketView)
    (code : String) (now : Instant) : OrchestrationRun where
  id := id
  runCode := code
  ticketId := ticketId
  workspaceId := ticket.workspaceId
  driver := ask.driver
  profileSlug := ask.profileSlug
  status := .queued
  currentStageKey := ticket.workflowStageKey
  autoApprove := ask.autoApprove
  approveDesignPlans := ask.approveDesignPlans
  autoRepair := ask.autoRepair
  stopAtStageKey := ask.stopAtStageKey
  timeoutOverrideSeconds := ask.timeoutOverrideSeconds
  createdAt := now

/-- The row `start_orchestration_run` inserts: over at once for a ticket that is. -/
def startedRun (id : Nat) (ticketId : TicketId) (ask : DriveAsk) (ticket : TicketView)
    (code : String) (now : Instant) : OrchestrationRun :=
  if terminalTicketState ticket.state then
    { id := id
      runCode := code
      ticketId := ticketId
      workspaceId := ticket.workspaceId
      driver := ask.driver
      profileSlug := ask.profileSlug
      status := .succeeded
      externalHarness := ask.externalHarness
      currentStageKey := ticket.workflowStageKey
      errorMessage := "Nothing to orchestrate"
      startedAt := some now
      finishedAt := some now
      createdAt := now }
  else
    { claimedRun id ticketId ask ticket code now with
      status := .running
      externalHarness := ask.externalHarness
      startedAt := some now }

/-- `_adopt_claim`, which read the claim as `claim`: the row it leaves. -/
def adoptClaim (claim : OrchestrationRun) (ask : DriveAsk) (ticket : TicketView) (now : Instant)
    (r : OrchestrationRun) : OrchestrationRun :=
  { r with
    timeoutOverrideSeconds :=
      if ask.timeoutOverrideSeconds.isSome ∧ claim.timeoutOverrideSeconds.isNone then
        ask.timeoutOverrideSeconds
      else r.timeoutOverrideSeconds
    status := .running
    driver := ask.driver
    profileSlug := ask.profileSlug
    externalHarness := ask.externalHarness
    currentStageKey := ticket.workflowStageKey
    startedAt := some now }

/-! ## The stored message -/

def errorMessageLimit : Nat := 2000

def cutMarker : List Char := " …[cut]".toList

/-- `_last_separator_outside_brackets`, from an index on. -/
def lastSeparator : List Char → (index opened closed : Nat) → Option Nat → Option Nat
  | [], _, _, _, last => last
  | c :: cs, index, opened, closed, last =>
    lastSeparator cs (index + 1) (if c = '[' then opened + 1 else opened)
      (if c = ']' then closed + 1 else closed)
      (if opened = closed ∧ (c = ';' ∨ c = ',' ∨ isSpace c) then some index else last)

/-- `truncate_for_storage`: bound a message to the stored width without ending mid-token. -/
def truncateForStorage (message : List Char) : List Char :=
  if message.length ≤ errorMessageLimit then message
  else
    let keep := errorMessageLimit - cutMarker.length
    let head := message.take ((lastSeparator (message.take keep) 0 0 0 none).getD keep)
    rstrip isSpace (rstrip (fun c => c = ';' ∨ c = ',') (rstrip isSpace head)) ++ cutMarker

/-- `_finish_orchestration_run`: the terminal fields. -/
def finishRun (status : OrchestrationRunStatus) (message : String) (now : Instant)
    (r : OrchestrationRun) : OrchestrationRun :=
  { r with
    status := status
    errorMessage := String.ofList (truncateForStorage message.toList)
    finishedAt := some now }

theorem adoptClaim_id (claim : OrchestrationRun) (ask : DriveAsk) (ticket : TicketView)
    (now : Instant) (r : OrchestrationRun) : (adoptClaim claim ask ticket now r).id = r.id := rfl

theorem finishRun_id (status : OrchestrationRunStatus) (message : String) (now : Instant)
    (r : OrchestrationRun) : (finishRun status message now r).id = r.id := rfl

section

variable (id : Nat) (ticketId : TicketId) (ask : DriveAsk) (ticket : TicketView) (code : String)
  (now : Instant)
include id ticketId ask ticket code now

theorem claimedRun_id : (claimedRun id ticketId ask ticket code now).id = id := rfl

theorem startedRun_id :
    (startedRun id ticketId ask ticket code now).id = id := by
  rw [startedRun]
  split <;> rfl

end

/-! ## Sessions -/

/-- Where a session stands: between two calls, or between a call's read and its write. -/
inductive Phase where
  | idle
  /-- The call returned this run. -/
  | returned (run : Nat)
  /-- The call raised. -/
  | raised (message : String)
  /-- `claim_orchestration_run` read no active run. -/
  | claiming (ticketId : TicketId) (ask : DriveAsk)
  /-- `start_orchestration_run` read no active run. -/
  | starting (ticketId : TicketId) (ask : DriveAsk)
  /-- `start_orchestration_run` read this claim. -/
  | adopting (claim : OrchestrationRun) (ask : DriveAsk)
  /-- Holds a run it is about to finish. -/
  | finishing (run : Nat)

/-- `claim_orchestration_run` up to its write. -/
def claimOrchestrationRun (rowOrder : Nat → Nat) (t : RunTable) (ticketId : TicketId)
    (ask : DriveAsk) : Phase :=
  match findActiveOrchestrationRun rowOrder t ticketId with
  | some active => .returned active.id
  | none => .claiming ticketId ask

/-- `start_orchestration_run` up to its write. -/
def startOrchestrationRun (rowOrder : Nat → Nat) (t : RunTable) (ticketId : TicketId)
    (ask : DriveAsk) : Phase :=
  match findActiveOrchestrationRun rowOrder t ticketId with
  | some active =>
    if active.status = .queued then .adopting active ask
    else
      let code := active.runCode
      .raised s!"Orchestration already running: {code}"
  | none => .starting ticketId ask

/-- The table, where each session stands, and what has been written so far. -/
structure Drives where
  runs : RunTable
  phase : Nat → Phase := fun _ => .idle
  /-- Who adopted which claim. -/
  adoptions : List (Nat × Nat) := []
  /-- The runs that were finished. -/
  ended : List Nat := []

inductive Move where
  /-- Call `claim_orchestration_run`: its read. -/
  | claim (ticketId : TicketId) (ask : DriveAsk)
  /-- Call `start_orchestration_run`: its read. -/
  | start (ticketId : TicketId) (ask : DriveAsk)
  /-- Commit the claim or the start that the session's read led to. -/
  | commit (ticket : TicketView) (code : String) (now : Instant)
  /-- Take a run to finish. -/
  | take (run : Nat)
  /-- `_finish_orchestration_run`. -/
  | finish (status : OrchestrationRunStatus) (message : String) (now : Instant)

def abandonClaim (message : String) (now : Instant) : Move := .finish .failed message now

def Drives.stand (s : Drives) (session : Nat) (phase : Phase) : Drives :=
  { s with phase := Function.update s.phase session phase }

def Drives.commit (s : Drives) (session : Nat) (ticket : TicketView) (code : String)
    (now : Instant) : Drives :=
  match s.phase session with
  | .claiming ticketId ask =>
    { s with runs := s.runs.insert (claimedRun s.runs.next ticketId ask ticket code now)
              (claimedRun_id _ _ _ _ _ _)
      }.stand session (.returned s.runs.next)
  | .starting ticketId ask =>
    { s with runs := s.runs.insert (startedRun s.runs.next ticketId ask ticket code now)
              (startedRun_id _ _ _ _ _ _)
      }.stand session (.returned s.runs.next)
  | .adopting claim ask =>
    { s with
      runs := s.runs.update claim.id (adoptClaim claim ask ticket now)
        (adoptClaim_id claim ask ticket now)
      adoptions := (session, claim.id) :: s.adoptions
      }.stand session (.returned claim.id)
  | _ => s

def Drives.finish (s : Drives) (session : Nat) (status : OrchestrationRunStatus)
    (message : String) (now : Instant) : Drives :=
  match s.phase session with
  | .finishing run =>
    { s with
      runs := s.runs.update run (finishRun status message now) (finishRun_id status message now)
      ended := run :: s.ended
      }.stand session (.returned run)
  | _ => s

def Drives.move (rowOrder : Nat → Nat) (s : Drives) (session : Nat) : Move → Drives
  | .claim ticketId ask =>
    s.stand session (claimOrchestrationRun rowOrder s.runs ticketId ask)
  | .start ticketId ask =>
    s.stand session (startOrchestrationRun rowOrder s.runs ticketId ask)
  | .commit ticket code now => s.commit session ticket code now
  | .take run =>
    if (s.runs.get run).isSome then s.stand session (.finishing run)
    else s.stand session .idle
  | .finish status message now => s.finish session status message now

end Loregarden.Orchestrations
