import Loregarden.RunVerdictModel
import Loregarden.RunProofs

/-! # Settling a parallel stage

`finish_external_stage` and `run_resupervise._settle` on the members of one parallel stage of one
ticket: a call completes its own run, counts the members that are outstanding, and where there are
none reconciles the stage with what it counted. The three are separate steps, and those of every
call interleave freely with each other, with the fan-outs and with whatever else writes the status
of a run. The rows stand in the order of their `created_at`. What a transcript and the ticket's
signals say of a member is given with the count that asks. -/

namespace Loregarden.ParallelSettle

open Lanes (RunStatus)
open RunVerdict (Completion withNote lateNote)

/-- `ParallelAgentSpec`. -/
structure MemberSpec where
  agentId : String
  skillName : String := ""
  deriving DecidableEq

/-- `WorkflowStageDef`, of a stage that fans out. -/
structure StageDef where
  skillName : String := ""
  parallelAgents : List MemberSpec

structure AgentRun where
  agentId : String
  skillName : String
  status : RunStatus
  stdout : String := ""
  stderr : String := ""
  /-- Whether `finished_at` is set. -/
  finished : Bool := false
  /-- Whether it has an orchestration run. -/
  orchestrated : Bool := true

/-- What `parse_stage_report`, `derive_verdict` and the ledger make of a transcript. -/
inductive Judgement where
  | noReport | rejected (context : String) | passed

structure ParallelMemberResult where
  agentId : String
  failure : String

variable (stage : StageDef)

def memberSkillName (spec : MemberSpec) : String :=
  if spec.skillName = "" then stage.skillName else spec.skillName

def ofMember (spec : MemberSpec) (run : AgentRun) : Bool :=
  run.agentId = spec.agentId && run.skillName = memberSkillName stage spec

/-- The row of `latest_member_run`. -/
def latestRow (runs : List AgentRun) (spec : MemberSpec) : Option Nat :=
  (List.range runs.length).reverse.find? fun row => runs[row]?.any (ofMember stage spec)

def latestMemberRun (runs : List AgentRun) (spec : MemberSpec) : Option AgentRun :=
  (latestRow stage runs spec).bind fun row => runs[row]?

def memberResult (run : AgentRun) (judged : Judgement) : ParallelMemberResult where
  agentId := run.agentId
  failure :=
    if run.status ≠ .succeeded then
      run.agentId ++ ": " ++ (if run.stderr = "" then "agent run failed" else run.stderr)
    else
      match judged with
      | .noReport => run.agentId ++ ": missing <<<LOREGARDEN_STAGE_REPORT>>> block"
      | .rejected context =>
        run.agentId ++ ": " ++ (if context = "" then "agent reported failure" else context)
      | .passed => ""

/-- Whether `member_runs_and_results` counts a member as outstanding. -/
def isOutstanding (runs : List AgentRun) (spec : MemberSpec) : Bool :=
  match latestMemberRun stage runs spec with
  | none => true
  | some latest => latest.status = .running

def memberRunsAndResults (runs : List AgentRun) (judged : MemberSpec → Judgement) :
    Nat × List ParallelMemberResult :=
  (stage.parallelAgents.countP (isOutstanding stage runs),
    (stage.parallelAgents.filter fun spec => !isOutstanding stage runs spec).filterMap fun spec =>
      (latestMemberRun stage runs spec).map fun latest => memberResult latest (judged spec))

/-- Where a call of `finish_external_stage` or `_settle` is. -/
inductive Phase where
  | idle
  | claimed (row : Nat)
  | completed (row : Nat)
  | counted (judged : MemberSpec → Judgement) (results : List ParallelMemberResult)
  | over

/-- A run of `reconcile_parallel_stage`: the members' newest runs when it ran, what the count
    before it read of them, and whether it made the stage DONE. -/
structure Settled where
  newest : List (MemberSpec × Option AgentRun)
  judged : MemberSpec → Judgement
  done : Bool

structure World where
  runs : List AgentRun := []
  calls : Nat → Phase := fun _ => .idle
  /-- How often the stage was reconciled since it last fanned out. -/
  settled : Nat := 0
  /-- Every run of `reconcile_parallel_stage`: kept to be told about, read by nothing. -/
  settlements : List Settled := []

def World.setCall (w : World) (call : Nat) (phase : Phase) : World :=
  { w with calls := fun other => if other = call then phase else w.calls other }

def World.setRun (w : World) (row : Nat) (run : AgentRun) : World :=
  { w with runs := w.runs.set row run }

inductive Event where
  /-- A pass starts runs for some of the members, those with the mark waiting for a lane. -/
  | fanOut (opened : List (MemberSpec × Bool)) (orchestrated : Bool)
  /-- A status write by somebody else: a lane, the permission bridge, a cancel, a sweep. -/
  | write (row : Nat) (status : RunStatus) (finished : Bool)
  | claim (call row : Nat)
  | complete (call row : Nat) (c : Completion) (when : String)
  | count (call : Nat) (judged : MemberSpec → Judgement)
  | reconcile (call : Nat) (commitError : Bool)

/-! ## The steps -/

/-- `start_run`, for a member. -/
def startRun (orchestrated : Bool) (opened : MemberSpec × Bool) : AgentRun where
  agentId := opened.1.agentId
  skillName := memberSkillName stage opened.1
  status := if opened.2 then .queued else .running
  orchestrated := orchestrated

/-- A fan-out that opens a run; one that opens none is no pass. -/
def fanOut (w : World) (opened : List (MemberSpec × Bool)) (orchestrated : Bool) : World :=
  if opened.isEmpty then w
  else { w with runs := w.runs ++ opened.map (startRun stage orchestrated), settled := 0 }

def writeStatus (w : World) (row : Nat) (status : RunStatus) (finished : Bool) : World :=
  match w.runs[row]? with
  | some run => w.setRun row { run with status := status, finished := finished }
  | none => w

def claimSettlement (w : World) (call row : Nat) : World :=
  match w.calls call, w.runs[row]? with
  | .idle, some run =>
    if run.finished = false ∧ (run.status = .running ∨ run.status = .awaitingPermission) then
      (w.setRun row { run with finished := true }).setCall call (.claimed row)
    else w.setCall call .over
  | _, _ => w

/-- `complete_run` with `advance_workflow=False`, on the row: its guarded update and what it
    records are one transaction. -/
def completeRun (run : AgentRun) (c : Completion) (when : String) : AgentRun :=
  if run.status.live then
    { run with
      status := c.status.status
      stdout := c.stdout
      stderr := c.recordedStderr
      finished := true }
  else { run with stderr := withNote run.stderr (lateNote when c.status.status run.status) }

/-- Whether a call may complete a row: an external finish any row, a resupervisor its own. -/
def Phase.mayComplete (row : Nat) : Phase → Bool
  | .idle => true
  | .claimed own => own = row
  | _ => false

/-- Whether its update matched or was refused, the call goes on to count. -/
def completeMember (w : World) (call row : Nat) (c : Completion) (when : String) : World :=
  if (w.calls call).mayComplete row then
    match w.runs[row]? with
    | some run => (w.setRun row (completeRun run c when)).setCall call (.completed row)
    | none => w
  else w

/-- What `finish_external_stage` and `_reconcile_member` do with the count. A run without an
    orchestration run cannot settle its stage. -/
def countMembers (w : World) (call : Nat) (judged : MemberSpec → Judgement) : World :=
  match w.calls call with
  | .completed row =>
    if (memberRunsAndResults stage w.runs judged).1 = 0 ∧
        w.runs[row]?.any AgentRun.orchestrated then
      w.setCall call (.counted judged (memberRunsAndResults stage w.runs judged).2)
    else w.setCall call .over
  | _ => w

/-- `reconcile_parallel_stage`: it makes the stage DONE where no member failed and the tree
    they share could be committed. -/
def reconcileParallelStage (w : World) (call : Nat) (commitError : Bool) : World :=
  match w.calls call with
  | .counted judged results =>
    { w.setCall call .over with
      settled := w.settled + 1
      settlements := w.settlements ++ [{
        newest := stage.parallelAgents.map fun spec => (spec, latestMemberRun stage w.runs spec)
        judged := judged
        done := (results.map ParallelMemberResult.failure).all (fun failure => failure = "") &&
          !commitError }] }
  | _ => w

def step (w : World) : Event → World
  | .fanOut opened orchestrated => fanOut stage w opened orchestrated
  | .write row status finished => writeStatus w row status finished
  | .claim call row => claimSettlement w call row
  | .complete call row c when => completeMember w call row c when
  | .count call judged => countMembers stage w call judged
  | .reconcile call commitError => reconcileParallelStage stage w call commitError

def Step (w : World) (e : Event) (w' : World) : Prop := step stage w e = w'

end Loregarden.ParallelSettle
