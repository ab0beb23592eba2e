import Loregarden.SubtreeModel

/-! # A ticket's workflow state

`workflow_state.py`: the rows of `stages_json`, the cursor, and the ticket's state that
`reconcile_workflow_state` derives from them. A stage map is read at the keys of the template only.
The JSON text is the list of its rows, a row without a note has an empty one, and rows that name no
status raise. The times of the writes are left out, but for `resolved_at`; what a view copies from
its stage is the stage. -/

namespace Loregarden.WorkflowState

open Lanes (TicketState)
open Stages (StageStatus StageMap WorkflowStageDef ordered deriveTicketState)

abbrev Time := Nat

/-- A value of `StageStatus`. -/
def statusValue : StageStatus → String
  | .pending => "pending"
  | .running => "running"
  | .blocked => "blocked"
  | .awaiting => "awaiting"
  | .done => "done"
  | .wontDo => "wont_do"

/-- `StageStatus(value)`. -/
def stageStatus (value : String) : Except String StageStatus :=
  match [StageStatus.pending, .running, .blocked, .awaiting, .done, .wontDo].find?
      (statusValue · = value) with
  | some status => .ok status
  | none => .error s!"'{value}' is not a valid StageStatus"

/-- A row of `stages_json`. -/
structure StageRow where
  key : String
  status : String
  note : String := ""

structure Ticket where
  workflowStageKey : String := ""
  workflowStageStatus : StageStatus := .pending
  blockingIssues : String := ""
  state : TicketState := .backlog
  stateLocked : Bool := false
  revision : Nat := 0
  lastUpdatedBy : String := ""
  resolvedAt : Option Time := none

structure WorkflowInstance where
  currentStageKey : String := ""
  stagesJson : List StageRow := []

/-- `TicketStateChanged`, as it is logged. -/
structure StateChange where
  state : TicketState
  actor : String

/-- A ticket with its workflow, and what the session that holds the ticket has logged. -/
structure World where
  ticket : Ticket
  workflow : WorkflowInstance
  session : Option (List StateChange) := some []

def readRows : List StageRow → Except String (List (String × StageStatus))
  | [] => .ok []
  | row :: rows =>
    match stageStatus row.status, readRows rows with
    | .error reason, _ => .error reason
    | .ok _, .error reason => .error reason
    | .ok status, .ok rest => .ok ((row.key, status) :: rest)

/-- `by_key.get`: of two rows of one key the last counts. -/
def statusOf (named : List (String × StageStatus)) (key : String) : StageStatus :=
  ((named.reverse.find? (·.1 = key)).map (·.2)).getD .pending

def parseStageMap (workflow : WorkflowInstance) : Except String StageMap :=
  (readRows workflow.stagesJson).map statusOf

def parseStageNotes (workflow : WorkflowInstance) (key : String) : String :=
  ((workflow.stagesJson.reverse.find? fun row => row.key = key ∧ row.note ≠ "").map
    (·.note)).getD ""

def serializeStageMap (stageMap : StageMap) (stages : List WorkflowStageDef)
    (notes : String → String) : List StageRow :=
  (ordered stages).map fun stage =>
    { key := stage.key, status := statusValue (stageMap stage.key), note := notes stage.key }

def cursorStage (workflowStageKey : String) (stageMap : StageMap) (stages : List WorkflowStageDef) :
    String × StageStatus :=
  let keys := (ordered stages).map (·.key)
  let holding := [StageStatus.running, .awaiting, .blocked].findSome? fun status =>
    (keys.find? (stageMap · = status)).map (·, status)
  match holding with
  | some held => held
  | none =>
    if workflowStageKey ≠ "" ∧ workflowStageKey ∈ keys then
      (workflowStageKey, stageMap workflowStageKey)
    else
      match keys.find? (stageMap · = .pending) with
      | some key => (key, .pending)
      | none =>
        let last := keys.getLast?.getD ""
        (last, if last ≠ "" then stageMap last else .pending)

structure WorkflowDerivation where
  stageMap : StageMap
  currentKey : String
  currentStatus : StageStatus
  ticketState : TicketState

def deriveWorkflow (ticket : Ticket) (workflow : WorkflowInstance)
    (stages : List WorkflowStageDef) : Except String WorkflowDerivation :=
  (parseStageMap workflow).map fun stageMap =>
    let current := cursorStage ticket.workflowStageKey stageMap stages
    { stageMap := stageMap, currentKey := current.1, currentStatus := current.2
      ticketState := deriveTicketState stageMap stages ticket.blockingIssues current.2 }

def resolvedStates : List TicketState := [.done, .wontDo]

/-- `_write`: the ticket, and whether its state changed. -/
def write (now : Time) (ticket : Ticket) (target : TicketState) (actor : String) : Ticket × Bool :=
  if ticket.state = target then (ticket, false)
  else
    ({ ticket with
        state := target
        revision := ticket.revision + 1
        lastUpdatedBy := actor
        resolvedAt :=
          if target ∉ resolvedStates then none
          else if ticket.state ∉ resolvedStates then some now
          else ticket.resolvedAt }, true)

def derive (now : Time) (ticket : Ticket) (target : TicketState) (actor : String) : Ticket × Bool :=
  if ticket.stateLocked ∨ ticket.state ∈ [TicketState.wontDo, .parked] then (ticket, false)
  else write now ticket target actor

/-- `reconcile_workflow_state`; where the rows do not parse it raises, and writes nothing. -/
def reconcileWorkflowState (stages : List WorkflowStageDef) (ownsState : Bool) (now : Time)
    (w : World) : Except String World :=
  (deriveWorkflow w.ticket w.workflow stages).map fun derived =>
    let ticket := { w.ticket with
      workflowStageKey := derived.currentKey, workflowStageStatus := derived.currentStatus }
    -- a workflow that no longer derives done does not un-finish the ticket
    let stickyDone := ticket.state = .done ∧ derived.ticketState ≠ .done
    let written :=
      if ownsState ∧ ¬ stickyDone then derive now ticket derived.ticketState "workflow"
      else (ticket, false)
    { ticket := written.1
      workflow :=
        { currentStageKey := derived.currentKey
          stagesJson := serializeStageMap derived.stageMap stages (parseStageNotes w.workflow) }
      session :=
        if written.2 then w.session.map (· ++ [⟨written.1.state, "workflow"⟩]) else w.session }

structure WorkflowStageView where
  stage : WorkflowStageDef
  status : StageStatus
  note : String

def viewsFrom (stageMap : StageMap) (stages : List WorkflowStageDef) (notes : String → String) :
    List WorkflowStageView :=
  (ordered stages).map fun stage =>
    { stage := stage, status := stageMap stage.key, note := notes stage.key }

def stageViewsReadonly (stages : List WorkflowStageDef) (w : World) :
    Except String (List WorkflowStageView) :=
  (deriveWorkflow w.ticket w.workflow stages).map fun derived =>
    viewsFrom derived.stageMap stages (parseStageNotes w.workflow)

/-- `build_stage_views`: the views, and what it leaves. -/
def buildStageViews (stages : List WorkflowStageDef) (ownsState : Bool) (now : Time) (w : World) :
    Except String (List WorkflowStageView × World) := do
  let after ← reconcileWorkflowState stages ownsState now w
  let stageMap ← parseStageMap after.workflow
  pure (viewsFrom stageMap stages (parseStageNotes after.workflow), after)

end Loregarden.WorkflowState
