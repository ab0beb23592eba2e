import Loregarden.StageGroupModel
import Loregarden.TicketWaitModel

/-! # May any ticket of a subtree take a step?

`child_readiness.py` answers before a slot is spent, and `builtin_orchestrator.py` finds out inside
a run. Both split a parent's children with `partition_children`: the hold over the incomplete ones,
trying every one that may run, the driver over all of them, going down into the first that is not
complete and stopping with it. A pass is followed to its first step, before which it writes nothing
the walk reads. A hold or a pause is a value; its sentence, which is never empty, is left out, as
are the split of an oversized ticket and a cancellation. -/

namespace Loregarden.Subtree

open Lanes (TicketState)
open Stages (StageStatus StageMap WorkflowStageDef isTerminalStage initialStages ordered)
open TicketWait (WorkItemType)

structure Ticket where
  id : Nat
  externalId : String
  title : String
  workItemType : WorkItemType := .task
  priority : Int := 3
  state : TicketState
  workspaceId : Nat := 0
  workflowStageStatus : StageStatus := .pending
  /-- `resolve_ticket_stages`. -/
  stages : List WorkflowStageDef
  /-- `parse_stage_map` of its workflow instance, if it has one. -/
  stageMap : Option StageMap := none
  /-- `blocking_issues` is an interruption message. -/
  interrupted : Bool := false
  /-- An orchestration run of its own is under way. -/
  orchestrating : Bool := false

inductive Tree where
  | node (ticket : Ticket) (children : List Tree)

namespace Tree

def ticket : Tree → Ticket
  | node ticket _ => ticket

def children : Tree → List Tree
  | node _ children => children

end Tree

def workflowWorkItemTypes : List WorkItemType := [.milestone, .feature, .capability, .task, .bug]

/-- `TERMINAL_TICKET_STATES`, and `SATISFIED_STATES` of a prerequisite. -/
def terminalTicketStates : List TicketState := [.done, .wontDo]

/-- The rest of the tables, and what git and the run history answer. -/
structure Env (W : Type) where
  /-- A row of `tickets`. -/
  ticketRow : Nat → Option Ticket
  /-- `TicketDependencyService.prerequisites`. -/
  prerequisites : Nat → List Nat
  workspaceForTicket : Ticket → Option W
  /-- `work_is_reachable`, from a ticket's own target branch. -/
  workIsReachable : W → Ticket → Ticket → Option Bool
  /-- A person has started the ticket past the prerequisite. -/
  overridden : Nat → Nat → Bool
  interruptedStageKey : Ticket → Option String
  /-- `enforce_stage_retry_budget` blocks the stage. -/
  retryBudgetSpent : Ticket → String → Bool
  /-- What each gate that `resolve_gate_if_permitted` resolves leaves of the stage map. -/
  resolvedGates : Ticket → List StageMap
  /-- `land_before_done`. -/
  landsBeforeDone : Ticket → Bool

variable {W : Type}

inductive UnmetReason where
  | notDone | notLanded
  deriving DecidableEq

structure UnmetPrerequisite where
  ticket : Ticket
  reason : UnmetReason

def prerequisiteRows (env : Env W) (ticket : Ticket) : List Ticket :=
  (env.prerequisites ticket.id).filterMap env.ticketRow

def unmetPrerequisitesForStart (env : Env W) (ticket : Ticket) (workspace : W) :
    List UnmetPrerequisite :=
  (prerequisiteRows env ticket).filterMap fun prerequisite =>
    if prerequisite.state ∉ terminalTicketStates then some ⟨prerequisite, .notDone⟩
    else if prerequisite.state = .wontDo then none
    else if prerequisite.workspaceId ≠ ticket.workspaceId then none
    else if env.workIsReachable workspace ticket prerequisite = some false then
      some ⟨prerequisite, .notLanded⟩
    else none

def unmetFor (env : Env W) (child : Ticket) (workspace : Option W) : List UnmetPrerequisite :=
  match workspace with
  | some workspace => unmetPrerequisitesForStart env child workspace
  | none =>
    ((prerequisiteRows env child).filter (·.state ∉ terminalTicketStates)).map (⟨·, .notDone⟩)

/-- `unmet_prerequisites` of `dependency_hold.py`. -/
def unmetPrerequisites (env : Env W) (ticket : Ticket) : List UnmetPrerequisite :=
  unmetFor env ticket (env.workspaceForTicket ticket)

/-- `holding_prerequisites`: what no person has started the ticket past. -/
def holdingPrerequisites (env : Env W) (ticket : Ticket) : List UnmetPrerequisite :=
  (unmetPrerequisites env ticket).filter fun entry => ¬ env.overridden ticket.id entry.ticket.id

/-! ## The children of a parent -/

/-- A child, and its place among its parent's children. -/
abbrev Child := Ticket × Nat

def childrenOf (children : List Tree) : List Child := (children.map Tree.ticket).zipIdx

/-- `type_order` of `child_sort_key`. -/
def typeOrder : WorkItemType → Nat
  | .initiative => 0
  | .milestone => 1
  | .feature => 2
  | .capability => 3
  | .task => 4
  | .bug => 5

/-- `child_sort_key(a) <= child_sort_key(b)`. -/
def childSortLe (a b : Ticket) : Bool :=
  typeOrder a.workItemType < typeOrder b.workItemType ||
    (typeOrder a.workItemType = typeOrder b.workItemType &&
      (a.priority < b.priority ||
        (a.priority = b.priority && decide (a.externalId ≤ b.externalId))))

/-- `min(ready, key=child_sort_key)`. -/
def minChild : List Child → Option Child
  | [] => none
  | child :: rest =>
    match minChild rest with
    | none => some child
    | some least => if childSortLe child.1 least.1 then some child else some least

/-- The loop of `order_children_for_subtree`, one turn a child. -/
def orderLoop (prerequisites : Nat → List Nat) (ids : List Nat) :
    Nat → List Child → List Nat → List Child
  | 0, _, _ => []
  | turns + 1, remaining, done =>
    let ready := remaining.filter fun child =>
      (prerequisites child.1.id).all fun prerequisite =>
        prerequisite ∉ ids || prerequisite ∈ done
    match minChild (if ready.isEmpty then remaining else ready) with
    | none => []
    | some next =>
      next :: orderLoop prerequisites ids turns (remaining.filter (·.2 ≠ next.2))
        (next.1.id :: done)

def orderedChildren (env : Env W) (children : List Tree) : List Child :=
  let all := childrenOf children
  orderLoop env.prerequisites (all.map (·.1.id)) all.length all []

structure HeldChild where
  ticket : Ticket
  unmet : List UnmetPrerequisite

/-- What holds a child among its siblings: one of them that is not done is exempt, since
    the order has put it first. -/
def unmetAmong (env : Env W) (workspace : Option W) (siblings : List Child) (child : Ticket) :
    List UnmetPrerequisite :=
  (unmetFor env child workspace).filter fun entry =>
    ¬ (entry.ticket.id ∈ siblings.map (·.1.id) ∧ entry.reason = .notDone)

def takesPart (child : Ticket) : Bool := child.workItemType ∈ workflowWorkItemTypes

/-- `partition_children`: those that may run now. -/
def runnableChildren (env : Env W) (workspace : Option W) (children : List Child) : List Child :=
  children.filter fun child =>
    takesPart child.1 && child.1.state ≠ .parked &&
      (unmetAmong env workspace children child.1).isEmpty

/-- `partition_children`: the titles owed by a person. -/
def parkedChildren (children : List Child) : List String :=
  (children.filter fun child => takesPart child.1 && child.1.state = .parked).map (·.1.title)

/-- `partition_children`: those owed by another ticket. -/
def waitingChildren (env : Env W) (workspace : Option W) (children : List Child) : List HeldChild :=
  (children.filter fun child =>
    takesPart child.1 && child.1.state ≠ .parked &&
      ! (unmetAmong env workspace children child.1).isEmpty).map fun child =>
        ⟨child.1, unmetAmong env workspace children child.1⟩

/-! ## The hold, before dispatch -/

def requiredSettled (stages : List WorkflowStageDef) (stageMap : StageMap) : Bool :=
  (stages.filter (! ·.optional)).all fun stage => stageMap stage.key ∈ [.done, .wontDo]

def hasWorkLeft (ticket : Ticket) : Bool :=
  if ticket.state ∈ terminalTicketStates then false
  else if ticket.stages.isEmpty then false
  else match ticket.stageMap with
    | none => true
    | some stageMap => ! requiredSettled ticket.stages stageMap

inductive Hold where
  | cycle (externalId : String)
  | waiting (held : List HeldChild)
  | parked (titles : List String)
  | deeper (held : List (String × Hold))

/-- The reasons of the runnable children that are held themselves. -/
def deeperHolds (runnable : List Child) (holds : List (Option Hold)) : List (String × Hold) :=
  runnable.filterMap fun child =>
    match holds[child.2]? with
    | some (some held) => some (child.1.externalId, held)
    | _ => none

/-- The body of `_hold` over the children's own answers; `none` is the empty string. -/
def holdOf (env : Env W) (workspace : Option W) (children : List Tree)
    (holds : List (Option Hold)) : Option Hold :=
  let incomplete := (orderedChildren env children).filter (hasWorkLeft ·.1)
  let runnable := runnableChildren env workspace incomplete
  let waiting := waitingChildren env workspace incomplete
  let parked := parkedChildren incomplete
  let deeper := deeperHolds runnable holds
  if runnable.any fun child => (holds[child.2]?.map (·.isNone)).getD false then none
  else if ! waiting.isEmpty then some (.waiting waiting)
  else if ! parked.isEmpty then some (.parked parked)
  else if ! deeper.isEmpty then some (.deeper deeper)
  else none

mutual

def hold (env : Env W) (workspace : Option W) (seen : List Nat) : Tree → Option Hold
  | .node ticket children =>
    if ticket.id ∈ seen then some (.cycle ticket.externalId)
    else holdOf env workspace children (holds env workspace (ticket.id :: seen) children)

/-- `_hold` of every child. -/
def holds (env : Env W) (workspace : Option W) (seen : List Nat) : List Tree → List (Option Hold)
  | [] => []
  | child :: rest => hold env workspace seen child :: holds env workspace seen rest

end

def subtreeStartHold (env : Env W) (tree : Tree) (workspace : Option W) : Option Hold :=
  hold env workspace [] tree

/-! ## The driver -/

def ensureWorkflowInstance (ticket : Ticket) : Ticket :=
  if takesPart ticket ∧ ¬ ticket.stages.isEmpty then
    { ticket with stageMap := some (ticket.stageMap.getD initialStages) }
  else ticket

def ticketWorkflowComplete (ticket : Ticket) : Bool :=
  if ticket.state ∈ terminalTicketStates then true
  else match ticket.stageMap with
    | none => true
    | some stageMap => ticket.stages.isEmpty || requiredSettled ticket.stages stageMap

def nextExecutableStage (stages : List WorkflowStageDef) (stageMap : StageMap) : Option String :=
  let keys := (ordered stages).map (·.key)
  match keys.find? fun key => stageMap key = .running with
  | some key => some key
  | none =>
    match keys.find? fun key => stageMap key = .awaiting with
    | some key => some key
    | none =>
      if keys.any fun key => stageMap key = .blocked then none
      else keys.find? fun key => stageMap key = .pending

def blockedByInterruption (ticket : Ticket) : Bool :=
  ticket.state ∉ terminalTicketStates && ticket.interrupted

def shouldStopOrchestration (ticket : Ticket) : Bool :=
  ticket.state ∈ terminalTicketStates ||
    (ticket.state = .blocked && ! blockedByInterruption ticket)

def recoverInterruptedStage (env : Env W) (ticket : Ticket) (stageMap : StageMap) : StageMap :=
  if blockedByInterruption ticket then
    match env.interruptedStageKey ticket with
    | some stageKey => Function.update stageMap stageKey .pending
    | none => stageMap
  else stageMap

inductive Step where
  | startsStage (leaf : Ticket) (stageKey : String)
  | finalizes (parent : Ticket) (children : List Ticket)

inductive Pause where
  | alreadyRunning | stopped
  | dependencyHold (unmet : List UnmetPrerequisite)
  | noWorkflow | nothingToRun | retryBudget | awaitingApproval
  | childPaused (title : String) (reason : Pause)
  | waiting (held : List HeldChild)
  | parked (titles : List String)
  | midFlight | landingBlocked

/-- The loop of `execute` up to a dispatch, over the gates the run may resolve. -/
def startStage (env : Env W) (ticket : Ticket) : StageMap → List StageMap → Except Pause String
  | stageMap, gates =>
    match nextExecutableStage ticket.stages stageMap with
    | none => .error .nothingToRun
    | some target =>
      if env.retryBudgetSpent ticket target then .error .retryBudget
      else if stageMap target = .awaiting then
        match gates with
        | [] => .error .awaitingApproval
        | resolved :: rest => startStage env ticket resolved rest
      else .ok target

def runLeaf (env : Env W) (ticket : Ticket) : Except Pause Step :=
  match (ensureWorkflowInstance ticket).stageMap with
  | none => .error .noWorkflow
  | some stageMap =>
    if ticket.stages.isEmpty then .error .noWorkflow
    else (startStage env ticket (recoverInterruptedStage env ticket stageMap)
      (env.resolvedGates ticket)).map (.startsStage ticket)

/-- `_finalize_aggregator_parent`. -/
def finalizeAggregator (env : Env W) (ticket : Ticket) (children : List Tree) : Except Pause Step :=
  if ticket.workflowStageStatus = .running ∨ ticket.workflowStageStatus = .awaiting then
    .error .midFlight
  else if ticket.stages.any isTerminalStage ∧ (ensureWorkflowInstance ticket).stageMap.isNone then
    .error .noWorkflow
  else if ticket.stages.any isTerminalStage ∧ ¬ env.landsBeforeDone ticket then
    .error .landingBlocked
  else .ok (.finalizes ticket (children.map Tree.ticket))

/-- The children `_orchestrate_incomplete_children` may run. -/
def driverRunnable (env : Env W) (ticket : Ticket) (children : List Tree) : List Child :=
  runnableChildren env (env.workspaceForTicket ticket) (orderedChildren env children)

/-- The first of them that is not complete: the one the driver goes down into. -/
def firstOpenChild (env : Env W) (ticket : Ticket) (children : List Tree) : Option Child :=
  (driverRunnable env ticket children).find? fun child =>
    ! ticketWorkflowComplete (ensureWorkflowInstance child.1)

/-- The body of `execute` over the children's own passes. -/
def driveOf (env : Env W) (ticket : Ticket) (children : List Tree)
    (passes : List (Except Pause Step)) : Except Pause Step :=
  if ticket.orchestrating then .error .alreadyRunning
  else if shouldStopOrchestration ticket then .error .stopped
  else if ! (holdingPrerequisites env ticket).isEmpty then
    .error (.dependencyHold (holdingPrerequisites env ticket))
  else if children.isEmpty then runLeaf env ticket
  else
    let workspace := env.workspaceForTicket ticket
    let all := orderedChildren env children
    let waiting := waitingChildren env workspace all
    let parked := parkedChildren all
    match firstOpenChild env ticket children with
    | some child =>
      match passes[child.2]? with
      | some (.ok step) => .ok step
      | some (.error reason) => .error (.childPaused child.1.title reason)
      | none => .error .nothingToRun
    | none =>
      if ! waiting.isEmpty then .error (.waiting waiting)
      else if ! parked.isEmpty then .error (.parked parked)
      else finalizeAggregator env ticket children

mutual

def drive (env : Env W) : Tree → Except Pause Step
  | .node ticket children => driveOf env ticket children (drives env children)

def drives (env : Env W) : List Tree → List (Except Pause Step)
  | [] => []
  | child :: rest => drive env child :: drives env rest

end

end Loregarden.Subtree
