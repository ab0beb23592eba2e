import Mathlib.Logic.Function.Basic
import Loregarden.LaneModel

/-! # Grading the learnings a run was briefed with

`learning_outcomes.py`: an unsettled application is graded by what was recorded of its run's stage
between the start of the run and that of the stage's next one. A table's rows are in the order they
were created, and go by their number; an event has its payload as it is read. Nodes and briefings
are left out. -/

namespace Loregarden.LearningOutcomes

open Lanes (RunStatus TicketState)

/-- `LearningOutcomeRung`, best to worst. -/
inductive LearningOutcomeRung where
  | cleanPass | passedAfterAutofix | rerouted | blocked
  deriving DecidableEq

/-- `_RUNG_ORDER.index`. -/
def LearningOutcomeRung.index : LearningOutcomeRung → Nat
  | .cleanPass => 0
  | .passedAfterAutofix => 1
  | .rerouted => 2
  | .blocked => 3

/-- `_TERMINAL_RUNS`. -/
def terminal : RunStatus → Bool
  | .succeeded | .failed | .cancelled => true
  | .queued | .running | .awaitingPermission => false

/-- `_FINISHED_TICKETS`. -/
def finished : TicketState → Bool
  | .done | .wontDo => true
  | .backlog | .inProgress | .blocked | .parked => false

structure AgentRun where
  ticketId : Option Nat
  stageKey : String
  status : RunStatus := .queued
  startedAt : Option Nat := none
  deriving DecidableEq

inductive EventType where
  | gateEvaluated | orchestratorDecision | other
  deriving DecidableEq

structure SignalPayload where
  stageKey : String := ""
  outcome : String := ""
  fixTier : String := ""
  decision : String := ""
  deriving DecidableEq

/-- An event without a payload has one that does not validate. -/
structure DomainEvent where
  type : EventType
  ticketId : Option Nat
  payload : Option SignalPayload
  createdAt : Nat
  deriving DecidableEq

structure Artifact where
  ticketId : Option Nat
  kind : String
  title : String
  createdAt : Nat
  deriving DecidableEq

structure LearningApplication where
  runId : Nat
  outcome : Option LearningOutcomeRung := none
  settledAt : Option Nat := none
  deriving DecidableEq

structure World where
  clock : Nat := 0
  runs : List AgentRun := []
  events : List DomainEvent := []
  artifacts : List Artifact := []
  tickets : Nat → Option TicketState := fun _ => none
  applications : List LearningApplication := []

structure Settlement where
  settled : Bool
  rung : Option LearningOutcomeRung := none
  deriving DecidableEq

/-- `_stage_window_end`. -/
def stageWindowEnd (w : World) (id : Nat) (run : AgentRun) (start : Nat) : Option Nat :=
  (w.runs.zipIdx.filterMap fun (other, otherId) =>
    if other.ticketId = run.ticketId ∧ other.stageKey = run.stageKey ∧ otherId ≠ id then
      other.startedAt.filter (start < ·)
    else none).min?

/-- `_in_window`. -/
def inWindow (start : Nat) (ended : Option Nat) (createdAt : Nat) : Bool :=
  start ≤ createdAt && ended.all (createdAt < ·)

/-- What an event counts for a run of the stage. -/
def eventRung (stageKey : String) (type : EventType) (payload : Option SignalPayload) :
    Option LearningOutcomeRung :=
  if type = .other then none
  else
    match payload with
    | none => none
    | some payload =>
      if payload.stageKey ≠ stageKey then none
      else if payload.decision = "classified_block" then some .blocked
      else if payload.outcome = "passed" ∧ payload.fixTier = "mechanical" then
        some .passedAfterAutofix
      else none

def reworkFeedbackArtifactTitle (targetStage : String) : String :=
  "Rework feedback — " ++ targetStage

def gateFailureArtifactTitle (stageKey : String) : String := "Transition gate failed — " ++ stageKey

/-- Whether an artifact is in one of the two ledgers of reroutes of the stage. -/
def reroutes (stageKey kind title : String) : Bool :=
  kind = "rework_feedback" && title = reworkFeedbackArtifactTitle stageKey ||
    kind = "error" && title = gateFailureArtifactTitle stageKey

/-- `_signals`: the set of the rungs found. -/
def signals (w : World) (run : AgentRun) (start : Nat) (ended : Option Nat)
    (rung : LearningOutcomeRung) : Bool :=
  (w.events.any fun event =>
    event.ticketId = run.ticketId && inWindow start ended event.createdAt &&
      eventRung run.stageKey event.type event.payload = some rung) ||
  rung = .rerouted && w.artifacts.any fun artifact =>
    artifact.ticketId = run.ticketId && inWindow start ended artifact.createdAt &&
      reroutes run.stageKey artifact.kind artifact.title

def ticketFinished (w : World) (ticketId : Nat) : Bool := (w.tickets ticketId).any finished

/-- `max` of a set of rungs by `_RUNG_ORDER.index`. -/
def worst (found : LearningOutcomeRung → Bool) : Option LearningOutcomeRung :=
  [.blocked, .rerouted, .passedAfterAutofix, .cleanPass].find? found

/-- What a run without a signal is graded. -/
def unmarked (status : RunStatus) : Option LearningOutcomeRung :=
  if status = .succeeded then some .cleanPass else none

/-- `derive_settlement`. -/
def deriveSettlement (w : World) (id : Nat) (run : AgentRun) : Settlement :=
  if ¬ terminal run.status then { settled := false }
  else if run.status = .cancelled then { settled := true }
  else
    match run.startedAt, run.ticketId with
    | some start, some ticketId =>
      let ended := stageWindowEnd w id run start
      let found := signals w run start ended
      if found .blocked then { settled := true, rung := some .blocked }
      else if ended = none ∧ ¬ ticketFinished w ticketId then { settled := false }
      else
        let found := fun rung =>
          found rung || run.status = .failed && ended.isSome && rung = .rerouted
        { settled := true, rung := (worst found).or (unmarked run.status) }
    | _, _ => { settled := true }

/-- An unsettled application of a terminal run. -/
def pending (w : World) (application : LearningApplication) : Bool :=
  application.settledAt.isNone && (w.runs[application.runId]?).any (terminal ·.status)

def settlementOf (w : World) (application : LearningApplication) : Settlement :=
  match w.runs[application.runId]? with
  | some run => deriveSettlement w application.runId run
  | none => { settled := false }

/-- The numbers of the rows `settle_pending` reads. -/
def batch (w : World) (limit : Nat) : List Nat :=
  ((List.range w.applications.length).filter fun k =>
    (w.applications[k]?).any (pending w)).take limit

/-- The rows it settles. -/
def due (w : World) (limit : Nat) : List Nat :=
  (batch w limit).filter fun k => (w.applications[k]?).any (settlementOf w · |>.settled)

/-- `settle_pending`: how many rows it settled, and the tables behind it. -/
def settlePending (w : World) (limit now : Nat) : Nat × World :=
  ((due w limit).length,
    { w with
      applications := w.applications.mapIdx fun k application =>
        if k ∈ due w limit then
          { application with
            outcome := (settlementOf w application).rung, settledAt := some now }
        else application })

/-! ## A history -/

inductive Event where
  | write (id : Nat) (run : AgentRun)
  | record (type : EventType) (ticketId : Option Nat) (payload : Option SignalPayload)
  | file (ticketId : Option Nat) (kind title : String)
  | setState (ticketId : Nat) (state : TicketState)
  | apply (runId : Nat)
  | settle (limit : Nat)

def startedAt (w : World) (id : Nat) : Option Nat := (w.runs[id]?).bind AgentRun.startedAt

/-- A run keeps its ticket, its stage and the terminal status it reaches, and starts once. -/
def allowed (w : World) (now : Nat) : Event → Bool
  | .write id run =>
    id ≤ w.runs.length &&
      ((w.runs[id]?).all fun old => run.ticketId = old.ticketId && run.stageKey = old.stageKey &&
        (!terminal old.status || run = old)) &&
      (run.startedAt = startedAt w id || startedAt w id = none && run.startedAt = some now)
  | _ => true

def act (w : World) (now : Nat) : Event → World
  | .write id run => { w with runs := w.runs.take id ++ run :: w.runs.drop (id + 1) }
  | .record type ticketId payload =>
    { w with events := w.events ++ [⟨type, ticketId, payload, now⟩] }
  | .file ticketId kind title =>
    { w with artifacts := w.artifacts ++ [⟨ticketId, kind, title, now⟩] }
  | .setState ticketId state =>
    { w with tickets := Function.update w.tickets ticketId (some state) }
  | .apply runId => { w with applications := w.applications ++ [{ runId := runId }] }
  | .settle limit => (settlePending w limit now).2

def after (w : World) (event : Nat × Event) : World :=
  { act w event.1 event.2 with clock := event.1 }

/-- Times increase. -/
def Step (w : World) (event : Nat × Event) (w' : World) : Prop :=
  (w.clock < event.1 ∧ allowed w event.1 event.2) ∧ w' = after w event

end Loregarden.LearningOutcomes
