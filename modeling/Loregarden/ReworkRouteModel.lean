import Loregarden.SortedRowProofs
import Loregarden.StageGroupModel
import Mathlib.Data.Rat.Defs

/-! # Rejected work: the ledger of its rounds and the route it takes

`rework_feedback.py` records every round of a rejection under the stage it is to re-run;
`workflow_routing.apply_stage_route` finds that stage again, on its own. The two paths that settle a
rejection are `_reroute_or_block_for_rework` (one run) and `_route_parallel_stage_failures` (a stage
of several members). What a route writes to the ticket, the pause card and the repair turn of a
block are left out. Row `i` of the ledger is written at `times i`; the commit a finding was raised
against is given with it. -/

namespace Loregarden.Rework

open Ranked
open Stages (WorkflowStageDef Transition pyStrip previousStageKey rejectFallbackKey
  resolveTransitionTarget)

/-! ## The route -/

/-- `a or b`. -/
def orElse (a b : String) : String := if a = "" then b else a

variable (stages : List WorkflowStageDef) (transitions : List Transition)

/-- `resolve_transition_target`, of a reject: the stage and the agent. -/
def rejectTransition (fromKey : String) : Option (String × String) :=
  resolveTransitionTarget transitions fromKey "reject"

/-- `apply_stage_route`, of a reject: the stage it moves to; `none` where it raises. -/
def applyStageRoute (fromKey nextStageKey nextAgent : String) : Option String :=
  let routed := Stages.routed stages transitions {}
    { fromKey := fromKey, outcome := "reject", nextStageKey := nextStageKey
      nextAgent := nextAgent }
  -- `_pin_reject_agent` has no span to look for the agent in
  (routed.toOption.map fun route => route.1.toKey).filter fun key =>
    pyStrip nextAgent = "" || key ∈ stages.map (·.key) ||
      fromKey ∈ stages.map (·.key)

/-! ## The ledger -/

/-- A round, or the mark of a budget given back. The title of a row is its target stage. -/
inductive Entry where
  | feedback (fromStage context commitSha : String)
  | budgetReset
  deriving DecidableEq

structure Artifact where
  targetStage : String
  createdAt : Int
  entry : Entry
  deriving DecidableEq

namespace Artifact

def isFeedback (row : Artifact) : Bool :=
  match row.entry with
  | .feedback _ _ _ => true
  | .budgetReset => false

/-- `_context_of`. -/
def context (row : Artifact) : String :=
  match row.entry with
  | .feedback _ context _ => pyStrip context
  | .budgetReset => ""

def fromStage (row : Artifact) : String :=
  match row.entry with
  | .feedback fromStage _ _ => fromStage
  | .budgetReset => ""

def commitSha (row : Artifact) : String :=
  match row.entry with
  | .feedback _ _ commitSha => commitSha
  | .budgetReset => ""

end Artifact

abbrev Ledger := List Artifact

def maxReworkReroutes : Nat := 3

def entries (ledger : Ledger) (target : String) : List Artifact :=
  ranked Artifact.createdAt
    (ledger.filter fun row => row.isFeedback && row.targetStage = target)

def newestResetAt (ledger : Ledger) (target : String) : Option Int :=
  ((ledger.filter fun row => !row.isFeedback && row.targetStage = target).map
    Artifact.createdAt).max?

def reworkRerouteCount (ledger : Ledger) (target : String) : Nat :=
  ((entries ledger target).filter fun row =>
    (newestResetAt ledger target).all fun reset => reset < row.createdAt).length

def reworkIsStuck (ledger : Ledger) (target : String) : Bool :=
  match (entries ledger target).reverse with
  | newest :: previous :: _ =>
    newest.commitSha ≠ "" && newest.commitSha = previous.commitSha &&
      newest.context = previous.context && previous.context ≠ ""
  | _ => false

/-- `render_rework_feedback`: the rounds it keeps, by their stage and finding. -/
def keptRounds : List Artifact → List String → List (String × String)
  | [], _ => []
  | row :: rows, seen =>
    if row.context = "" ∨ row.context ∈ seen then keptRounds rows seen
    else (row.fromStage, row.context) :: keptRounds rows (row.context :: seen)

/-- One block of `render_rework_feedback`. -/
def roundBlock (index : Nat) (round : String × String) : String :=
  "### Round " ++ toString index ++
    (if round.1 = "" then "" else " (from " ++ "\x60" ++ round.1 ++ "\x60)") ++ "\n" ++ round.2

def renderReworkFeedback (ledger : Ledger) (target : String) : String :=
  match keptRounds (entries ledger target) [] with
  | [] => ""
  | [round] => round.2
  | rounds => "\n\n".intercalate (rounds.mapIdx fun i round => roundBlock (i + 1) round)

/-- What the context of a run tells its agent of prior feedback, after its repair brief. -/
def feedbackLines (ledger : Ledger) (stageKey blockingIssues brief : String) : List String :=
  let feedback := orElse (renderReworkFeedback ledger stageKey) blockingIssues
  (if brief = "" then [] else [brief]) ++
    (if feedback ≠ "" ∧ feedback ≠ brief then [feedback] else [])

inductive ReworkStopReason where
  | none | budget | stuck
  deriving DecidableEq

variable (times : Nat → Int)

def add (ledger : Ledger) (target : String) (entry : Entry) : Ledger :=
  ledger ++ [⟨target, times ledger.length, entry⟩]

/-- `record_reroute_exhausts_budget`. -/
def recordReroute (ledger : Ledger) (target fromStage context commitSha : String) :
    Ledger × ReworkStopReason :=
  if target = "" then (ledger, .none)
  else
    let prior := reworkRerouteCount ledger target
    let ledger' := add times ledger target (.feedback fromStage context commitSha)
    if maxReworkReroutes ≤ prior then (ledger', .budget)
    else if reworkIsStuck ledger' target then (ledger', .stuck)
    else (ledger', .none)

def resetReworkBudget (ledger : Ledger) (target : String) : Ledger :=
  if target = "" then ledger else add times ledger target .budgetReset

/-! ## The two settlements -/

structure StageReport where
  rejecting : Bool
  confidence : Rat := 1
  rerouteToStage : String := ""
  rerouteContext : String := ""

structure ParallelMemberResult where
  failure : String := ""
  transient : Bool := false
  report : Option StageReport := none

/-- A rejecting settlement: of one run, whose report names a stage and an agent or neither, or
    of the members of a parallel stage. -/
inductive Settlement where
  | single (fromKey rerouteToStage rerouteToAgent context commitSha : String)
  | parallel (fromKey : String) (results : List ParallelMemberResult)
      (unlinked commitSha : String)

def reworkTarget (fromKey rerouteToStage rerouteToAgent : String) : String :=
  if rerouteToStage ≠ "" ∧ rerouteToStage ∈ stages.map (·.key) then rerouteToStage
  else (rejectFallbackKey stages fromKey rerouteToAgent).getD ""

/-- The rejecting reports that name a stage, the most confident first. -/
def rejectingReports (results : List ParallelMemberResult) : List StageReport :=
  ((results.filterMap ParallelMemberResult.report).filter fun report =>
    report.rejecting && report.rerouteToStage ≠ "").insertionSort
      fun a b => b.confidence ≤ a.confidence

def agentToKey (results : List ParallelMemberResult) : String :=
  ((rejectingReports results).head?.map StageReport.rerouteToStage).getD ""

def roundContext (results : List ParallelMemberResult) (unlinked : String) : String :=
  let message := "; ".intercalate
    ((results.map ParallelMemberResult.failure).filter fun failure => failure ≠ "")
  let message := if unlinked = "" then message
    else message ++ "; prerequisites that could not be linked: " ++ unlinked
  orElse (((rejectingReports results).head?.map StageReport.rerouteContext).getD "") message

/-- The stage and the agent the parallel path asks the route for. -/
def parallelAsk (fromKey : String) (results : List ParallelMemberResult) : String × String :=
  let templateRoute := rejectTransition transitions fromKey
  (orElse (agentToKey results) ((templateRoute.map Prod.fst).getD ""),
    (templateRoute.map Prod.snd).getD "")

namespace Settlement

def fromKey : Settlement → String
  | single fromKey _ _ _ _ => fromKey
  | parallel fromKey _ _ _ => fromKey

def context : Settlement → String
  | single _ _ _ context _ => context
  | parallel _ results unlinked _ => roundContext results unlinked

def commitSha : Settlement → String
  | single _ _ _ _ commitSha => commitSha
  | parallel _ _ _ commitSha => commitSha

/-- Whether the settlement is of failures that are no rejection, or of a ticket with no
    workflow: nothing is recorded and nothing is routed. -/
def passedOver : Settlement → Bool
  | single _ _ _ _ _ => false
  | parallel _ results _ _ => stages.isEmpty ||
      (results.any ParallelMemberResult.transient && (rejectingReports results).isEmpty)

def ledgerKey : Settlement → String
  | single fromKey rerouteToStage rerouteToAgent _ _ =>
    reworkTarget stages fromKey rerouteToStage rerouteToAgent
  | parallel fromKey results _ _ =>
    orElse (parallelAsk transitions fromKey results).1 ((previousStageKey stages fromKey).getD "")

/-- The route it asks for when the ledger does not stop it. -/
def route : Settlement → Option String
  | single fromKey rerouteToStage rerouteToAgent _ _ =>
    applyStageRoute stages transitions fromKey rerouteToStage rerouteToAgent
  | parallel fromKey results _ _ =>
    applyStageRoute stages transitions fromKey (parallelAsk transitions fromKey results).1
      (parallelAsk transitions fromKey results).2

end Settlement

/-- `_reroute_or_block_for_rework` and `_route_parallel_stage_failures`: the ledger, and the
    stage `apply_stage_route` moved to, if it was called and returned. -/
def settle (ledger : Ledger) (s : Settlement) : Ledger × Option String :=
  if s.passedOver stages then (ledger, none)
  else
    match recordReroute times ledger (s.ledgerKey stages transitions) s.fromKey s.context
        s.commitSha with
    | (ledger', .none) => (ledger', s.route stages transitions)
    | (ledger', _) => (ledger', none)

inductive Event where
  | settle (s : Settlement)
  | reset (target : String)

def after (ledger : Ledger) : Event → Ledger
  | .settle s => (settle stages transitions times ledger s).1
  | .reset target => resetReworkBudget times ledger target

def routed (ledger : Ledger) : Event → Option String
  | .settle s => (settle stages transitions times ledger s).2
  | .reset _ => none

end Loregarden.Rework
