import Loregarden.DependencyReleaseModel
import Loregarden.LaneModel

/-! # What a restart does with a ticket it interrupts

`_recover_previous_boot` for one ticket: `fail_interrupted_runs`,
`fail_interrupted_orchestration_runs`, `settle_stranded_stages` and
`resume_interrupted_orchestrations`. Rows are oldest first. The state of a ticket is not derived
anew: no step of it finishes a ticket or takes up a finished one. -/

namespace Loregarden.Interruption

open DependencyRelease (TicketId TicketState)
open Lanes (RunStatus)

abbrev StageKey := String

inductive StageStatus where
  | pending
  | running
  | awaiting
  | blocked
  | done
  | wontDo
  deriving DecidableEq

/-- `INTERRUPTED_RUN_MESSAGE`. -/
def interruptedRunMessage : String :=
  "Agent run interrupted before completion (server reload or worker stopped). " ++
    "Re-run the stage to continue."

def strandedStageMessage : String :=
  "Stage was left running with no agent run behind it (the run ended before its " ++
    "stage was settled). Re-run the stage to continue."

/-- `TRIAGE_AGENT_ID`. -/
def triageAgentId : String := "triage"

structure DriveTerms where
  autoApprove : Bool := false
  approveDesignPlans : Bool := true
  autoRepair : Bool := true
  stopAtStageKey : Option StageKey := none
  timeoutSeconds : Option Nat := none
  deriving DecidableEq

/-- A row of `orchestration_runs`, with the terms it was started on. -/
structure OrchestrationRun extends row : DependencyRelease.OrchestrationRun where
  terms : DriveTerms := {}

structure InterruptionResume where
  ticketId : TicketId
  terms : DriveTerms

/-- `resume_plan`, for a stage the caller names. -/
def resumePlan (ticketId : TicketId) (previous : Option OrchestrationRun) (stageKey : StageKey) :
    Option InterruptionResume :=
  match previous with
  | none => some { ticketId, terms := { stopAtStageKey := some stageKey } }
  | some run =>
    if run.cancelRequested then none
    else if run.driver = .builtinAutopilot then some { ticketId, terms := run.terms }
    else if run.driver = .externalMcp then none
    else
      some
        { ticketId
          terms :=
            { run.terms with autoApprove := false, stopAtStageKey := some stageKey } }

structure AgentRun where
  stageKey : StageKey
  agentId : String := ""
  status : RunStatus := .running
  stderr : String := ""
  /-- The number of its orchestration. -/
  orchestration : Option Nat := none
  externalHarness : Bool := false
  /-- Whether `runs_to_spare` names it: its process lives. -/
  spared : Bool := false

structure Orchestration extends OrchestrationRun where
  /-- Whether an outside harness holds it on a lease that has not expired. -/
  leased : Bool := false

structure Ticket where
  id : TicketId := 0
  state : TicketState := .inProgress
  blockingIssues : String := ""
  /-- The stages of its workflow, in order. -/
  stages : List (StageKey × StageStatus) := []
  orchestrations : List Orchestration := []
  runs : List AgentRun := []

/-- The query of `fail_interrupted_runs`. -/
def AgentRun.interrupted (run : AgentRun) : Bool :=
  (run.status = .running || run.status = .awaitingPermission) && run.agentId ≠ triageAgentId &&
    !run.externalHarness && !run.spared

namespace Ticket

variable (t : Ticket)

/-- `find_active_orchestration_run`. -/
def findActive : Bool := t.orchestrations.any (·.active)

/-- `latest_orchestration_run`. -/
def latest : Option OrchestrationRun := t.orchestrations.getLast?.map (·.toOrchestrationRun)

/-- `_cursor_stage`, while a stage is running, awaiting or blocked. -/
def cursor : Option (StageKey × StageStatus) :=
  [StageStatus.running, .awaiting, .blocked].findSome? fun status => t.stages.find? (·.2 = status)

def block (keys : List StageKey) (message : String) : Ticket :=
  { t with
    stages := t.stages.map fun stage =>
      if keys.contains stage.1 then (stage.1, .blocked) else stage
    blockingIssues :=
      if t.stages.any fun stage => keys.contains stage.1 then message else t.blockingIssues }

/-- `fail_interrupted_runs`: a run without a report blocks its stage. -/
def failInterruptedRuns : Ticket :=
  { t.block ((t.runs.filter (·.interrupted)).map (·.stageKey)) interruptedRunMessage with
    runs := t.runs.map fun run =>
      if run.interrupted then { run with status := .failed, stderr := interruptedRunMessage }
      else run }

/-- `fail_interrupted_orchestration_runs`. -/
def failInterruptedOrchestrationRuns : Ticket :=
  { t with
    orchestrations := t.orchestrations.mapIdx fun number orch =>
      if orch.status = .running ∧ ¬ orch.leased ∧
          ¬ t.runs.any fun run => run.spared && run.orchestration = some number then
        { orch with status := .failed }
      else orch }

/-- `settle_stranded_stages`. -/
def settleStrandedStages : Ticket :=
  match t.cursor with
  | some (key, .running) =>
    if t.runs.any (·.status.live) || t.findActive then t else t.block [key] strandedStageMessage
  | _ => t

/-- `blocked_by_interruption`. -/
def blockedByInterruption : Bool :=
  t.state ≠ .done && t.state ≠ .wontDo &&
    (t.blockingIssues = interruptedRunMessage || t.blockingIssues = strandedStageMessage)

/-- `interrupted_stage_key`. -/
def interruptedStageKey : Option StageKey :=
  (t.runs.reverse.find? fun run =>
    run.agentId ≠ triageAgentId && t.stages.contains (run.stageKey, .blocked) &&
      (t.blockingIssues ≠ interruptedRunMessage || run.stderr = interruptedRunMessage)).map
    (·.stageKey)

/-- `_interrupted_stage`, where it is not empty. -/
def namedStage : Option StageKey := t.interruptedStageKey.filter (· ≠ "")

/-- `resume_plan`, for the stage the restart interrupted, if it has a name. -/
def resumePlan : Option InterruptionResume :=
  if t.latest.any (·.driver = .builtinAutopilot) then Interruption.resumePlan t.id t.latest ""
  else t.namedStage.bind (Interruption.resumePlan t.id t.latest)

/-- Whether `resume_interrupted_orchestrations` plans anything for the ticket. -/
def candidate : Bool := t.cursor.any (·.2 = .blocked) && t.blockedByInterruption && !t.findActive

/-- `resume_interrupted_orchestrations`: the plan it makes for the ticket. -/
def resumeInterrupted : Option InterruptionResume :=
  if t.candidate then t.resumePlan else none

/-- What a restart leaves of the ticket before it resumes anything. -/
def recovered : Ticket :=
  t.failInterruptedRuns.failInterruptedOrchestrationRuns.settleStrandedStages

end Ticket

end Loregarden.Interruption
