import Loregarden.ReworkRouteModel

/-! # Where a parallel stage puts what its members reject

`member_result` judges the members of a stage one by one, and `_route_parallel_stage_failures`
decides over all of them whether their failures are transient, which stage the work goes back to,
and what that stage is told. What a transcript says, what `derive_verdict` and the ledger of
unresolved items make of a report, and the prerequisites that could not be linked are given. A
ticket without a workflow has no stages here. Left out are the repair turn of a block and the notes
of a pause. -/

namespace Loregarden.Rejection

open Rework
open Stages (WorkflowStageDef Transition pyStrip previousStageKey)

/-- `StageVerdict`, with what each unresolved item tells the agent. -/
structure StageVerdict where
  passed : Bool
  told : List String := []

/-- What `member_result` reads of a run. -/
structure MemberRun where
  agentId : String
  /-- Whether its status is `SUCCEEDED`. -/
  succeeded : Bool
  stderr : String := ""
  /-- `is_transient_failure`. -/
  transientFailure : Bool := false
  /-- `parse_stage_report`. -/
  report : Option StageReport := none
  /-- The verdict on the report, where the member is judged with its ticket. -/
  verdict : Option StageVerdict := none

def reportWithVerdict (report : StageReport) (verdict : StageVerdict) (currentStage : String) :
    StageReport :=
  let told := "\n".intercalate (verdict.told.filter fun line => line ≠ "")
  let existing := pyStrip report.rerouteContext
  { report with
    rejecting := !verdict.passed
    rerouteToStage :=
      if report.rejecting = false ∧ verdict.passed = false then currentStage
      else report.rerouteToStage
    rerouteContext :=
      if told ≠ "" ∧ existing ≠ "" then existing ++ "\n\n" ++ told
      else if told ≠ "" then told
      else existing }

def judgedResult (agentId : String) (report : StageReport) : ParallelMemberResult where
  failure :=
    if report.rejecting then
      agentId ++ ": " ++ orElse report.rerouteContext "agent reported failure"
    else ""
  report := some report

def memberResult (stageKey : String) (run : MemberRun) : ParallelMemberResult :=
  if run.succeeded then
    match run.report with
    | none =>
      { failure := run.agentId ++ ": missing <<<LOREGARDEN_STAGE_REPORT>>> block"
        transient := true }
    | some report =>
      match run.verdict with
      | some verdict => judgedResult run.agentId (reportWithVerdict report verdict stageKey)
      | none => judgedResult run.agentId report
  else
    { failure := run.agentId ++ ": " ++ orElse run.stderr "agent run failed"
      report := run.report
      transient := run.transientFailure }

def memberResults (stageKey : String) (runs : List MemberRun) : List ParallelMemberResult :=
  runs.map (memberResult stageKey)

def rejections (results : List ParallelMemberResult) : List StageReport :=
  (results.filterMap ParallelMemberResult.report).filter StageReport.rejecting

/-! ## The stage -/

/-- The failures, and the prerequisites that could not be linked. -/
def failureMessage (results : List ParallelMemberResult) (unlinked : String) : String :=
  let message := "; ".intercalate
    ((results.map ParallelMemberResult.failure).filter fun failure => failure ≠ "")
  if unlinked = "" then message
  else message ++ "; prerequisites that could not be linked: " ++ unlinked

/-- `message[:2000]`. -/
def cut (message : String) : String := String.ofList (message.toList.take 2000)

inductive Outcome where
  /-- It waits for its retry, as after a failure of the infrastructure. -/
  | transient
  /-- `pause_for_rework_decision`, on the stage the round is recorded for. -/
  | paused (targetStage : String)
  | sentBack (toKey : String)
  | blocked (message : String)

variable (stages : List WorkflowStageDef) (transitions : List Transition) (times : Nat → Int)
  (ledger : Ledger) (stageKey : String) (results : List ParallelMemberResult)
  (unlinked commitSha : String)

/-- `any(result.transient)`, with no rejecting report that names a stage. -/
def onlyTransient : Bool :=
  results.any ParallelMemberResult.transient && (rejectingReports results).isEmpty

def targetStage : String :=
  orElse (parallelAsk transitions stageKey results).1 ((previousStageKey stages stageKey).getD "")

/-- `apply_stage_route`, as it is called. -/
def routeOf : Option String :=
  applyStageRoute stages transitions stageKey (parallelAsk transitions stageKey results).1
    (parallelAsk transitions stageKey results).2

/-- `record_reroute_exhausts_budget`, as it is called. -/
def roundRecorded : Ledger × ReworkStopReason :=
  recordReroute times ledger (targetStage stages transitions stageKey results) stageKey
    (roundContext results unlinked) commitSha

/-- `_route_parallel_stage_failures`: the ledger of feedback, and what becomes of the stage. -/
def routeParallelStageFailures : Ledger × Outcome :=
  if onlyTransient results then (ledger, .transient)
  else if stages.isEmpty then (ledger, .blocked (cut (failureMessage results unlinked)))
  else
    match roundRecorded stages transitions times ledger stageKey results unlinked commitSha with
    | (ledger', .none) =>
      match routeOf stages transitions stageKey results with
      | some toKey => (ledger', .sentBack toKey)
      | none => (ledger', .blocked (cut (failureMessage results unlinked)))
    | (ledger', _) => (ledger', .paused (targetStage stages transitions stageKey results))

end Loregarden.Rejection
