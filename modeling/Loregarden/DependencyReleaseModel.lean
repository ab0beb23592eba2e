import Mathlib.Logic.Function.Basic

/-! # Holds on prerequisites, and what releases them

`holding_prerequisites`, the holds of `refuse_held_dispatch`, and a reconcile pass's
`mark_parked_waits`, `releasable_tickets` and `release_tickets`, over one ticket. Times are the
instants of the events, one after another. Whether a prerequisite is done and landed, what a requeue
makes of the ticket's state and whether the lane has room are answers that come with the events;
texts, evidence and the stages are left out.

`released`, `parks` and `seen` are no tables: they record what happened when. -/

namespace Loregarden.DependencyRelease

abbrev TicketId := Nat
abbrev Time := Nat

inductive TicketState where
  | backlog
  | inProgress
  | blocked
  | parked
  | done
  | wontDo
  deriving DecidableEq

inductive OrchestrationDriver where
  | builtinAutopilot
  | externalMcp
  | manualStage
  deriving DecidableEq

inductive OrchestrationRunStatus where
  | queued
  | running
  | succeeded
  | failed
  | blocked
  | cancelled
  deriving DecidableEq

/-- A row of `orchestration_runs`. -/
structure OrchestrationRun where
  driver : OrchestrationDriver
  status : OrchestrationRunStatus := .queued
  cancelRequested : Bool := false

/-- `ACTIVE_ORCHESTRATION_STATUSES`. -/
def OrchestrationRun.active (run : OrchestrationRun) : Bool :=
  run.status = .queued || run.status = .running

/-- A row of `ticket_dependencies`. -/
structure Edge where
  dependsOn : TicketId
  createdAt : Time
  deriving DecidableEq

/-- A `PREREQUISITES_OVERRIDDEN` decision. -/
structure Override where
  createdAt : Time
  prerequisites : List TicketId

structure Release where
  releasedAt : Time
  wasParked : Bool
  holding : List TicketId

structure World where
  clock : Time := 0
  state : TicketState := .backlog
  /-- Whether the ticket carries `WAITING_TAG`. -/
  tagged : Bool := false
  edges : List Edge := []
  /-- Which tickets are done and landed. -/
  landed : TicketId → Bool
  overrides : List Override := []
  /-- The `HELD_ON_PREREQUISITES` decisions, oldest first. -/
  holds : List Time := []
  /-- When its runs were created, oldest first. -/
  runs : List Time := []
  /-- The latest orchestration; one is opened only where none is active. -/
  latest : Option OrchestrationRun := none
  /-- Whether a request for it waits in a lane. -/
  queued : Bool := false
  /-- Whether this pass has selected it. -/
  selected : Bool := false
  released : List Release := []
  parks : List Time := []
  seen : List Time := []

namespace World

variable (w : World)

def unmetPrerequisites : List Edge := w.edges.filter fun edge => !w.landed edge.dependsOn

def holdingPrerequisites : List TicketId :=
  match w.overrides.getLast? with
  | none => w.unmetPrerequisites.map Edge.dependsOn
  | some latest =>
    (w.unmetPrerequisites.filter fun edge =>
      !(w.overrides.any fun made => edge.dependsOn ∈ made.prerequisites) ||
        latest.createdAt < edge.createdAt).map Edge.dependsOn

def latestHoldAt : Option Time := w.holds.getLast?

def ranSince (moment : Time) : Bool := w.runs.any fun run => moment < run

/-- `find_active_orchestration_run`. -/
def findActive : Bool := w.latest.any OrchestrationRun.active

def stoppedByAPerson : Bool :=
  w.latest.any fun run => run.cancelRequested || run.status = .cancelled

def openHold : Bool := w.latestHoldAt.any fun held => !w.ranSince held

def heldAndReleasable : Bool :=
  w.openHold && !w.findActive && !w.stoppedByAPerson && w.holdingPrerequisites.isEmpty

def parkedAndReleasable : Bool := w.tagged && w.holdingPrerequisites.isEmpty

/-- `_HELD_STATES`. -/
def inHeldState : Bool := w.state = .backlog || w.state = .inProgress

/-- Whether `releasable_tickets` lists the ticket. -/
def releasable : Bool :=
  (w.inHeldState && w.heldAndReleasable) ||
    (w.state = .parked && !w.edges.isEmpty && w.parkedAndReleasable)

def markParkedWaits (now : Time) : World :=
  if w.state = .parked then
    if !w.holdingPrerequisites.isEmpty then { w with tagged := true, seen := w.seen ++ [now] }
    else w
  else { w with tagged := false }

structure Outcome where
  /-- The state a requeue leaves; none where it raised. -/
  requeued : Option TicketState
  /-- Whether the lane has room. -/
  room : Bool

def requeueStage (outcome : Outcome) : Option World :=
  outcome.requeued.map fun state => { w with state := state }

/-- `resume_plan`: whether it makes a plan. -/
def resumePlan : Bool := !w.latest.any fun run => run.cancelRequested || run.driver = .externalMcp

/-- `requeue_and_plan_resume`; none where it raised. -/
def requeueAndPlanResume (outcome : Outcome) : Option (World × Bool) :=
  if w.findActive then some (w, false)
  else if w.stoppedByAPerson then some (w, false)
  else (w.requeueStage outcome).map fun w => (w, w.resumePlan)

/-- `admit_resumes` of one plan. -/
def admitResumes (outcome : Outcome) : World :=
  if outcome.room then
    if w.findActive then w else { w with latest := some { driver := .builtinAutopilot } }
  else { w with queued := true }

def recordRelease (now : Time) : World :=
  { w with
    released := w.released ++ [⟨now, w.state = .parked, w.holdingPrerequisites⟩] }

def admitPlanned (outcome : Outcome) (planned : Option (World × Bool)) (before : World) : World :=
  match planned with
  | none => before
  | some (after, true) => after.admitResumes outcome
  | some (after, false) => after

def releaseParked (now : Time) (outcome : Outcome) : World :=
  let recorded := { w.recordRelease now with tagged := false }
  let planned :=
    if w.runs ≠ [] then recorded.requeueAndPlanResume outcome else some (recorded, false)
  match planned with
  | some (after, false) =>
    if after.findActive then after else (after.requeueStage outcome).getD after
  | planned => admitPlanned outcome planned recorded

def releaseTickets (now : Time) (outcome : Outcome) : World :=
  if !w.selected then w
  else
    let w := { w with selected := false }
    if w.state = .parked && w.parkedAndReleasable then w.releaseParked now outcome
    else if w.inHeldState && w.heldAndReleasable then
      admitPlanned outcome ((w.recordRelease now).requeueAndPlanResume outcome)
        (w.recordRelease now)
    else w

end World

inductive Event where
  /-- A dispatch asks, or a stage report says it waits. -/
  | hold
  /-- An agent run of the ticket is created. -/
  | run
  | startDrive (driver : OrchestrationDriver)
  | endDrive (status : OrchestrationRunStatus)
  | requestCancel
  /-- The lane starts the request that waits in it. -/
  | laneStarts
  /-- A person, or a stage, moves the ticket to a state. -/
  | move (state : TicketState)
  | addEdge (dependsOn : TicketId)
  | dropEdge (dependsOn : TicketId)
  | land (ticket : TicketId) (landed : Bool)
  | overridePrerequisites
  | markParkedWaits
  | selectReleasable
  | releaseTickets (outcome : World.Outcome)

namespace World

def startDrive (w : World) (driver : OrchestrationDriver) : World :=
  if w.findActive then w else { w with latest := some { driver := driver } }

/-- What an event at the instant `now` makes of the ticket. -/
def act (w : World) (now : Time) : Event → World
  | .hold => if w.holdingPrerequisites.isEmpty then w else { w with holds := w.holds ++ [now] }
  | .run => { w with runs := w.runs ++ [now] }
  | .startDrive driver => w.startDrive driver
  | .endDrive status =>
    if w.findActive then
      { w with latest := w.latest.map fun run => { run with status := status } }
    else w
  | .requestCancel =>
    if w.findActive then
      { w with latest := w.latest.map fun run => { run with cancelRequested := true } }
    else w
  | .laneStarts => if w.queued then { w.startDrive .builtinAutopilot with queued := false } else w
  | .move state =>
    if w.state = state then w
    else
      { w with
        state := state
        parks := if state = .parked then w.parks ++ [now] else w.parks }
  | .addEdge dependsOn =>
    if w.edges.any (fun edge => edge.dependsOn = dependsOn) then w
    else { w with edges := w.edges ++ [⟨dependsOn, now⟩] }
  | .dropEdge dependsOn =>
    { w with edges := w.edges.filter fun edge => edge.dependsOn ≠ dependsOn }
  | .land ticket landed => { w with landed := Function.update w.landed ticket landed }
  | .overridePrerequisites =>
    if w.holdingPrerequisites.isEmpty then w
    else { w with overrides := w.overrides ++ [⟨now, w.holdingPrerequisites⟩] }
  | .markParkedWaits => w.markParkedWaits now
  | .selectReleasable => { w with selected := w.releasable }
  | .releaseTickets outcome => w.releaseTickets now outcome

def after (w : World) (e : Event) : World :=
  { w.act (w.clock + 1) e with clock := w.clock + 1 }

end World

end Loregarden.DependencyRelease
