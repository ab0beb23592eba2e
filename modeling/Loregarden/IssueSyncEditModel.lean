import Loregarden.IssueSyncModel
import Loregarden.WorkflowStateModel

/-! # A sync that goes through the edit path

`github_issue_sync.py` and `ticket_manual_edit.py`: a pull is an edit by hand, and an edit that
names no state reconciles the ticket with its workflow, so a title pulled into a ticket can move its
state. Here the ticket has its workflow, a link its fetch, and a workspace its links. What an edit
does to other tickets, to worktrees and to the event log is left out: the next link finds its ticket
as it is then. -/

namespace Loregarden.IssueSync

open Lanes (TicketState)
open Stages (WorkflowStageDef)
open WorkflowState (Time WorkflowInstance reconcileWorkflowState deriveWorkflow)

/-- A linked ticket: its texts, the row its workflow writes, and what `_resolve_stages` and
    `_owns_state` read. -/
structure LinkedTicket where
  title : String
  description : String
  row : WorkflowState.Ticket := {}
  workflow : Option WorkflowInstance := none
  stages : List WorkflowStageDef := []
  hasChildren : Bool := false

/-- `UpdateTicketRequest` is refused, or the rows of the ticket's stages do not parse. -/
inductive EditFailure where
  | refused (reason : EditError)
  | stageRows (reason : String)
  deriving DecidableEq

namespace LinkedTicket

def columns (t : LinkedTicket) : Ticket where
  title := t.title
  description := t.description
  state := t.row.state

/-- `_apply_operator_edits`, of a title and a description. -/
def applyOperatorEdits (t : LinkedTicket) (request : UpdateTicketRequest) :
    Except EditError LinkedTicket :=
  (applyContentEdits t.columns request).map fun edited =>
    { t with
      title := edited.title
      description := edited.description
      row :=
        if edited ≠ t.columns then
          { t.row with revision := t.row.revision + 1, lastUpdatedBy := "human" }
        else t.row }

/-- `_apply_state_edit`: naming a state pins it. -/
def applyStateEdit (now : Time) (t : LinkedTicket) : Option TicketState →
    Except EditError LinkedTicket
  | none => .ok t
  | some state =>
    let pinned := { t.row with stateLocked := true }
    if pinned.state = state then .ok { t with row := pinned }
    else if ¬ canChoose pinned.state state then
      .error (.invalidTransition pinned.state state)
    else .ok { t with row := (WorkflowState.write now pinned state "human").1 }

/-- `_apply_manual_stage_edits`, of a request that names no stage. -/
def applyManualStageEdits (now : Time) (t : LinkedTicket) : Except String LinkedTicket :=
  match t.workflow with
  | none => .ok t
  | some workflow =>
    if t.stages = [] ∨ t.row.stateLocked then .ok t
    else
      (reconcileWorkflowState t.stages (¬ t.hasChildren) now ⟨t.row, workflow, some []⟩).map
        fun w => { t with row := w.ticket, workflow := some w.workflow }

def updateTicketManual (now : Time) (t : LinkedTicket) (request : UpdateTicketRequest) :
    Except EditFailure LinkedTicket := do
  let edited ← (t.applyOperatorEdits request).mapError .refused
  let moved ← (edited.applyStateEdit now request.state).mapError .refused
  (moved.applyManualStageEdits now).mapError .stageRows

def throughBacklog (t : LinkedTicket) (remote : IssueSnapshot) (fields : List SyncField) : Bool :=
  (pullTarget t.columns remote fields).any fun state => ¬ canChoose t.row.state state

def pullRequest (t : LinkedTicket) (remote : IssueSnapshot) (fields : List SyncField) :
    UpdateTicketRequest where
  title := if .title ∈ fields then some remote.title else none
  description := if .body ∈ fields then some remote.body else none
  state := pullTarget t.columns remote fields

/-- `_pull`: the ticket as it is committed, also where an edit is refused. The way through the
    backlog is a commit of its own. -/
def pull (now : Time) (t : LinkedTicket) (remote : IssueSnapshot) (fields : List SyncField) :
    LinkedTicket × Except EditFailure Unit :=
  let reopened :=
    if t.throughBacklog remote fields then
      t.updateTicketManual now { state := some .backlog }
    else .ok t
  match reopened with
  | .error why => (t, .error why)
  | .ok reopened =>
    match reopened.updateTicketManual now (t.pullRequest remote fields) with
    | .error why => (reopened, .error why)
    | .ok pulled => ({ pulled with row := { pulled.row with lastUpdatedBy := "github" } }, .ok ())

end LinkedTicket

namespace LinkedTicket

/-- The ticket is open, and its workflow has finished it: an edit that names no state closes it. -/
def finishes (t : LinkedTicket) : Bool :=
  match t.workflow with
  | none => false
  | some workflow =>
    t.stages ≠ [] ∧ ¬ t.row.stateLocked ∧ ¬ t.hasChildren ∧
      t.row.state ∈ [TicketState.backlog, .inProgress, .blocked] ∧
      (deriveWorkflow t.row workflow t.stages).toOption.any (·.ticketState = .done)

end LinkedTicket

/-! ## `sync_link` -/

/-- How `sync_link` ends: it raises, or it returns the failure of a `gh` call, or it is through. -/
inductive Ending where
  | raised (why : EditFailure)
  | failed (result : LinkSyncResult)
  | completed (result : LinkSyncResult)
  deriving DecidableEq

/-- A ticket, its issue and the link, and how the sync that left them so ended. -/
structure Left where
  ticket : LinkedTicket
  issue : GithubIssue
  link : GithubIssueLink
  ending : Ending

def conflictsOf (base ours remote : IssueSnapshot) (plan : SyncField → FieldOutcome) :
    List SyncConflict :=
  (planFields.filter (plan · = .conflict)).map fun field =>
    { field := field, base := fieldValue base field, ours := fieldValue ours field
      remote := fieldValue remote field }

namespace LinkedTicket

/-- `sync_link`, once it has a plan. -/
def applyPlan (now : Time) (t : LinkedTicket) (issue : GithubIssue) (link : GithubIssueLink)
    (ours remote : IssueSnapshot) (plan : SyncField → FieldOutcome) (gh : GhAnswers) : Left :=
  let pulls := planned plan .pull
  let pushes := planned plan .push
  let converged := planned plan .converged
  let conflicts := conflictsOf (baseSnapshot link) ours remote plan
  match (if pulls ≠ [] then t.pull now remote pulls else (t, .ok ())) with
  | (pulled, .error why) =>
    { ticket := pulled, issue := issue, link := link, ending := .raised why }
  | (pulled, .ok ()) =>
    let advanced := recordBase link remote (pulls ++ converged)
    let pushed : Pushed :=
      if pushes ≠ [] then push ours remote pushes issue gh else { issue := issue }
    match pushed.error with
    | some detail =>
      { ticket := pulled, issue := pushed.issue, link := { advanced with lastError := detail }
        ending := .failed { pulled := pulls, conflicts := conflicts, error := detail } }
    | none =>
      { ticket := pulled, issue := pushed.issue
        link := { recordBase advanced ours pushes with lastError := "" }
        ending := .completed { pulled := pulls, pushed := pushes, conflicts := conflicts } }

/-- The plan of a sync of a ticket with a copy of its issue. -/
def plan (t : LinkedTicket) (link : GithubIssueLink) (copy : GithubIssue)
    (policy : ConflictPolicy) : SyncField → FieldOutcome :=
  planSync (baseSnapshot link) (ticketSnapshot t.columns) (issueSnapshot copy) policy

/-- `sync_link`, where `fetched` is what `get_issue` answers. -/
def syncLink (now : Time) (t : LinkedTicket) (issue : GithubIssue) (link : GithubIssueLink)
    (fetched : Except String GithubIssue) (policy : ConflictPolicy) (gh : GhAnswers) : Left :=
  match fetched with
  | .error detail =>
    { ticket := t, issue := issue, link := { link with lastError := detail }
      ending := .failed { error := detail } }
  | .ok copy =>
    t.applyPlan now issue link (ticketSnapshot t.columns) (issueSnapshot copy)
      (t.plan link copy policy) gh

end LinkedTicket

/-- One link of a workspace, as its sync would find it. -/
structure Turn where
  now : Time
  ticket : LinkedTicket
  issue : GithubIssue
  link : GithubIssueLink
  /-- Whether `get_issue` answers, and with what failure if not. -/
  fetch : Except String Unit := .ok ()
  gh : GhAnswers := {}

/-- What `get_issue` answers: the issue as it is. -/
def Turn.fetched (turn : Turn) : Except String GithubIssue := turn.fetch.map fun _ => turn.issue

def Turn.sync (turn : Turn) (policy : ConflictPolicy) : Left :=
  turn.ticket.syncLink turn.now turn.issue turn.link turn.fetched policy turn.gh

/-- `sync_workspace`, without the import: what the links it attempts are left as. It is one
    comprehension, so it ends with the first `sync_link` that raises. -/
def syncWorkspace (policy : ConflictPolicy) : List Turn → List Left
  | [] => []
  | turn :: rest =>
    let left := turn.sync policy
    match left.ending with
    | .raised _ => [left]
    | _ => left :: syncWorkspace policy rest

end Loregarden.IssueSync
