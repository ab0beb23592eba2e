import Mathlib.Data.List.Basic

/-! # The dispatch counter of one stage

`stage_retry_budget.py` and `stage_parking.py`, for one ticket and one stage: the counter is the
number of dispatch markers, one row a dispatch pass, and a refund deletes a row. Rows of other
tickets and stages are never read. Which pass a run belongs to, what each pass was charged and what
was handed back for it are ghosts: no row says so. The approval a park raises, and the texts of a
blocked run, decide nothing here and are left out. -/

namespace Loregarden.StageBudget

/-- `StageBudgetArtifactKind`. -/
inductive Kind where
  | dispatch | dispatchOverride | dispatchReroute | retryBlock
  deriving DecidableEq

inductive DispatchSurface where
  | http | mcp | queue | fanout
  deriving DecidableEq

structure DispatchOrigin where
  surface : DispatchSurface
  orchestrationRunId : String := ""
  agentId : String := ""
  deriving DecidableEq

/-- An `Artifact` row of the stage; a forced dispatch names who forced it. -/
structure Artifact where
  kind : Kind
  id : Nat
  createdAt : Int
  origin : Option DispatchOrigin := none
  deriving DecidableEq

structure Stamp where
  id : Nat
  at_ : Int

structure RetryBudgetConfig where
  enabled : Bool := true
  maxAttemptsPerStage : Nat

/-! ## Markers -/

def markers (rows : List Artifact) (kind : Kind) : List Artifact := rows.filter (·.kind = kind)

def dropMarkers (rows : List Artifact) (kind : Kind) : List Artifact := rows.filter (·.kind ≠ kind)

/-- `max(rows, key=lambda row: (row.created_at, row.id))`. -/
def newest : List Artifact → Option Artifact
  | [] => none
  | row :: rest =>
    match newest rest with
    | none => some row
    | some later =>
      if row.createdAt < later.createdAt ∨
          row.createdAt = later.createdAt ∧ row.id < later.id then some later
      else some row

/-- Delete the newest of the rows a refund may hand back: what is left, and how many went. -/
def dropNewest (rows eligible : List Artifact) : List Artifact × Nat :=
  match newest eligible with
  | none => (rows, 0)
  | some row => (rows.erase row, 1)

def dropLatestMarker (rows : List Artifact) (kind : Kind) : List Artifact × Nat :=
  dropNewest rows (markers rows kind)

def recordStageDispatch (rows : List Artifact) (stamp : Stamp) : List Artifact :=
  rows ++ [{ kind := .dispatch, id := stamp.id, createdAt := stamp.at_ }]

def countStageDispatches (rows : List Artifact) : Nat := (markers rows .dispatch).length

/-- `clear_stage_dispatches`: the counter, and the exemptions beside it. -/
def clearStageDispatches (rows : List Artifact) : List Artifact :=
  dropMarkers (dropMarkers rows .dispatchReroute) .dispatch

/-- `refund_stage_dispatch_budget`: the newest marker, and the breaker's block. -/
def refundStageDispatchBudget (rows : List Artifact) : List Artifact × Nat :=
  let dropped := dropLatestMarker rows .dispatch
  (dropMarkers dropped.1 .retryBlock, dropped.2)

def refundStageDispatchChargedBefore (rows : List Artifact) (cutoff : Int) : List Artifact × Nat :=
  dropNewest rows ((markers rows .dispatch).filter (·.createdAt ≤ cutoff))

def refundStageDispatchChargedSince (rows : List Artifact) (markersBefore : List Nat) :
    List Artifact × Nat :=
  dropNewest rows ((markers rows .dispatch).filter (·.id ∉ markersBefore))

def recordStageRetryBlock (rows : List Artifact) (stamp : Stamp) : List Artifact :=
  if markers rows .retryBlock ≠ [] then rows
  else rows ++ [{ kind := .retryBlock, id := stamp.id, createdAt := stamp.at_ }]

def clearStageRetryBlock (rows : List Artifact) : List Artifact := dropMarkers rows .retryBlock

def blockedOnStageRetryBudget (rows : List Artifact) : Bool := markers rows .retryBlock ≠ []

def rerouteExempt (rows : List Artifact) (pin : String) (maxFree : Nat) : Bool :=
  pin ≠ "" ∧ (markers rows .dispatchReroute).length < maxFree

def recordRerouteExemptDispatch (rows : List Artifact) (stamp : Stamp) : List Artifact :=
  rows ++ [{ kind := .dispatchReroute, id := stamp.id, createdAt := stamp.at_ }]

structure StageBudgetState where
  exempt : Bool
  attempts : Nat
  atBudget : Bool

def stageRetryBudgetState (rows : List Artifact) (pin : String) (config : RetryBudgetConfig) :
    StageBudgetState :=
  if rerouteExempt rows pin config.maxAttemptsPerStage then
    { exempt := true, attempts := 0, atBudget := false }
  else
    { exempt := false, attempts := countStageDispatches rows
      atBudget := config.enabled ∧ config.maxAttemptsPerStage ≤ countStageDispatches rows }

structure StageDispatchDecision where
  counts : Bool
  forced : Bool
  exemptReroute : Bool

def stageRetryRefusalMessage (stageKey : String) (attempts maxAttempts : Nat) : String :=
  s!"Stage '{stageKey}' has already been dispatched {attempts} times, reaching its " ++
    s!"retry budget of {maxAttempts}. Reset the stage, or start it again with " ++
    "force=true to dispatch it anyway."

/-- `evaluate_standalone_stage_dispatch`, where `passOpen` is what `dispatch_pass_open` answers. -/
def evaluateStandaloneStageDispatch (rows : List Artifact) (pin stageKey : String)
    (config : RetryBudgetConfig) (passOpen force budgetResetPending : Bool) :
    Except String StageDispatchDecision :=
  if passOpen then .ok { counts := false, forced := false, exemptReroute := false }
  else
    let state := stageRetryBudgetState rows pin config
    if state.exempt then .ok { counts := false, forced := false, exemptReroute := true }
    else if state.atBudget ∧ ¬ budgetResetPending then
      if ¬ force then
        .error (stageRetryRefusalMessage stageKey state.attempts config.maxAttemptsPerStage)
      -- a forced pass still costs a dispatch
      else .ok { counts := true, forced := true, exemptReroute := false }
    else .ok { counts := true, forced := false, exemptReroute := false }

def commitStandaloneStageDispatch (rows : List Artifact) (decision : StageDispatchDecision)
    (origin : DispatchOrigin) (stamp : Stamp) : List Artifact :=
  if decision.exemptReroute then recordRerouteExemptDispatch rows stamp
  else
    let forced :=
      if decision.forced then
        rows ++ [{ kind := .dispatchOverride, id := stamp.id, createdAt := stamp.at_
                   origin := some origin }]
      else rows
    if decision.counts then recordStageDispatch forced stamp else forced

/-! ## A stage over its dispatches -/

structure Run where
  /-- The pass, by its place in the order of the passes. -/
  pass : Nat
  createdAt : Int
  running : Bool := true

structure Pass where
  charged : Bool
  forced : Bool := false
  /-- The counter was cleared after it. -/
  cleared : Bool := false
  /-- The markers handed back for its runs. -/
  refunds : Nat := 0
  deriving DecidableEq

def Pass.outstanding (p : Pass) : Bool := p.charged && !p.cleared && p.refunds = 0

structure Stage where
  rows : List Artifact := []
  /-- `tickets.scope_reroute_agent`. -/
  pin : String := ""
  /-- The ticket or the stage is blocked. -/
  blocked : Bool := false
  stageRunning : Bool := false
  /-- A fan-out group of the stage is unsettled. -/
  fanoutPending : Bool := false
  runs : List Run := []
  passes : List Pass := []

namespace Stage

variable (config : RetryBudgetConfig) (stageKey : String)

def clear (s : Stage) : Stage :=
  { s with rows := clearStageDispatches s.rows
           passes := s.passes.map fun p => { p with cleared := true } }

/-- `enforce_stage_retry_budget`: the orchestrator's loop takes a pass. -/
def enforceStageRetryBudget (s : Stage) (stamp : Stamp) : Stage :=
  let state := stageRetryBudgetState s.rows s.pin config
  if state.exempt then
    { s with rows := recordRerouteExemptDispatch s.rows stamp
             passes := s.passes ++ [{ charged := false }] }
  else if state.atBudget then
    { s with blocked := true, rows := recordStageRetryBlock s.rows stamp }
  else
    { s with rows := recordStageDispatch s.rows stamp
             passes := s.passes ++ [{ charged := true }] }

/-- `dispatch_pass_open`, where `live` is what the lease of a run answers. -/
def dispatchPassOpen (s : Stage) (live : Run → Bool) : Bool :=
  s.stageRunning && (s.runs.any (fun run => run.running && live run) || s.fanoutPending)

def stageStartClearsBudget (s : Stage) : Bool := s.blocked && blockedOnStageRetryBudget s.rows

def refreshStageRetryBudget (s : Stage) (clearDispatches : Bool) : Stage :=
  let s := if clearDispatches then s.clear else s
  let s :=
    if blockedOnStageRetryBudget s.rows then { s with rows := clearStageRetryBlock s.rows } else s
  { s with blocked := false }

def prepareStageStart (s : Stage) (clearBudget : Bool) : Stage :=
  if s.blocked then s.refreshStageRetryBudget clearBudget else s

def opened (decision : StageDispatchDecision) : List Pass :=
  if decision.exemptReroute then [{ charged := false }]
  else if decision.counts then [{ charged := true, forced := decision.forced }]
  else []

/-- `start_run`, as far as the counter goes. -/
def startRun (s : Stage) (live : Run → Bool) (force : Bool) (origin : DispatchOrigin)
    (stamp : Stamp) : Stage :=
  let resetPending := s.stageStartClearsBudget
  match evaluateStandaloneStageDispatch s.rows s.pin stageKey config (s.dispatchPassOpen live)
      force resetPending with
  | .error _ => s
  | .ok decision =>
    let s := s.prepareStageStart resetPending
    { s with rows := commitStandaloneStageDispatch s.rows decision origin stamp
             passes := s.passes ++ opened decision }

def guardStandaloneStageDispatch (s : Stage) (live : Run → Bool) (force : Bool)
    (origin : DispatchOrigin) (stamp : Stamp) : Stage :=
  match evaluateStandaloneStageDispatch s.rows s.pin stageKey config (s.dispatchPassOpen live)
      force false with
  | .error _ => s
  | .ok decision =>
    { s with rows := commitStandaloneStageDispatch s.rows decision origin stamp
             passes := s.passes ++ opened decision }

/-- `charge_fanout_dispatch`: an operator's act, as a forced dispatch is. -/
def chargeFanoutDispatch (s : Stage) (stamp : Stamp) : Stage :=
  { s with rows := recordStageDispatch s.rows stamp, fanoutPending := true
           passes := s.passes ++ [{ charged := true, forced := true }] }

def credited (s : Stage) (run : Run) (refunded : List Artifact × Nat) : Stage :=
  { s with
    rows := refunded.1
    passes :=
      match s.passes[run.pass]? with
      | none => s.passes
      | some p => s.passes.set run.pass { p with refunds := p.refunds + refunded.2 } }

/-- `park_stage`. -/
def park (s : Stage) (run : Run) : Stage := s.credited run (refundStageDispatchBudget s.rows)

/-- A run that never attempted the work is settled: an orphan, or a failed handoff. -/
def refundNeverStarted (s : Stage) (run : Run) : Stage :=
  s.credited run (refundStageDispatchChargedBefore s.rows run.createdAt)

/-- The members of a fan-out that opened no work are settled, one refund for their pass. -/
def settleFannedOutMembers (s : Stage) (run : Run) (markersBefore : List Nat) : Stage :=
  s.credited run (refundStageDispatchChargedSince s.rows markersBefore)

/-- What happens to a stage; a run is named by its place in the order of the runs. -/
inductive Event where
  | orchestrated (stamp : Stamp)
  | started (live : Run → Bool) (force : Bool) (origin : DispatchOrigin) (stamp : Stamp)
  | guarded (live : Run → Bool) (force : Bool) (origin : DispatchOrigin) (stamp : Stamp)
  | fannedOut (stamp : Stamp)
  /-- A run starts in a pass, the first or one that joins. -/
  | ran (pass : Nat) (createdAt : Int)
  | ended (run : Nat)
  | parked (run : Nat)
  | neverStarted (run : Nat)
  | membersSettled (run : Nat) (markersBefore : List Nat)
  | cleared
  /-- The reroute pin, the blocks, the stage's status and its fan-out are written elsewhere. -/
  | elsewhere (pin : String) (blocked stageRunning fanoutPending : Bool)

def step (s : Stage) : Event → Stage
  | .orchestrated stamp => s.enforceStageRetryBudget config stamp
  | .started live force origin stamp => s.startRun config stageKey live force origin stamp
  | .guarded live force origin stamp =>
    s.guardStandaloneStageDispatch config stageKey live force origin stamp
  | .fannedOut stamp => s.chargeFanoutDispatch stamp
  | .ran pass createdAt =>
    if pass < s.passes.length then
      { s with runs := s.runs ++ [{ pass := pass, createdAt := createdAt }] }
    else s
  | .ended run =>
    match s.runs[run]? with
    | none => s
    | some r => { s with runs := s.runs.set run { r with running := false } }
  | .parked run =>
    match s.runs[run]? with
    | none => s
    | some r => s.park r
  | .neverStarted run =>
    match s.runs[run]? with
    | none => s
    | some r => s.refundNeverStarted r
  | .membersSettled run markersBefore =>
    match s.runs[run]? with
    | none => s
    | some r => s.settleFannedOutMembers r markersBefore
  | .cleared => s.clear
  | .elsewhere pin blocked stageRunning fanoutPending =>
    { s with pin := pin, blocked := blocked, stageRunning := stageRunning
             fanoutPending := fanoutPending }

def run (s : Stage) (events : List Event) : Stage := events.foldl (step config stageKey) s

end Stage

end Loregarden.StageBudget
