import Loregarden.LaneModel
import Loregarden.PythonText

/-! # Tickets and their GitHub issues

`github_issue_sync.py`: a link stores what both sides agreed on, and a sync merges the ticket and
the issue against it, field by field. A ticket is its synced columns, and an issue is what the
`closure` property and the two texts read; the link's address, `issue_url` and `last_synced_at`
decide nothing and are left out. What `gh` answers is an argument, and so is whether a call that
failed was applied. -/

namespace Loregarden.IssueSync

open Lanes (TicketState)

inductive IssueClosure where
  | opened | completed | notPlanned
  deriving DecidableEq

def IssueClosure.value : IssueClosure → String
  | .opened => "open"
  | .completed => "completed"
  | .notPlanned => "not_planned"

/-- `ConflictPolicy`: what becomes of a field both sides changed. -/
inductive ConflictPolicy where
  | report | ours | remote

inductive SyncField where
  | title | body | closure
  deriving DecidableEq

def planFields : List SyncField := [.title, .body, .closure]

/-- The fields in the order of their names, as `sorted` has them. -/
def sortedFields : List SyncField := [.body, .closure, .title]

inductive FieldOutcome where
  | unchanged | push | pull | converged | conflict
  deriving DecidableEq

structure Ticket where
  title : String
  description : String
  state : TicketState
  deriving DecidableEq

structure GithubIssue where
  title : String
  body : Option String
  closure : IssueClosure

/-- `IssueSnapshot`: the synced content of one side, or of the base. -/
structure IssueSnapshot where
  title : String
  body : String
  closure : IssueClosure

/-- `GithubIssueLink`: the base of the merge, and the last sync's failure. -/
structure GithubIssueLink where
  syncedTitle : String
  syncedBody : String
  syncedClosure : IssueClosure
  lastError : String := ""

/-! ## Snapshots -/

/-- `str.replace("\r\n", "\n")`. -/
def replaceCrLf : List Char → List Char
  | [] => []
  | [c] => [c]
  | c :: d :: rest =>
    if c = '\r' ∧ d = '\n' then '\n' :: replaceCrLf rest else c :: replaceCrLf (d :: rest)

def canonicalText (value : Option String) : String :=
  String.ofList (Text.strip Text.isSpace (replaceCrLf (value.getD "").toList))

def closureForState : TicketState → IssueClosure
  | .done => .completed
  | .wontDo => .notPlanned
  | _ => .opened

def ticketSnapshot (ticket : Ticket) : IssueSnapshot where
  title := canonicalText (some ticket.title)
  body := canonicalText (some ticket.description)
  closure := closureForState ticket.state

def issueSnapshot (issue : GithubIssue) : IssueSnapshot where
  title := canonicalText (some issue.title)
  body := canonicalText issue.body
  closure := issue.closure

def baseSnapshot (link : GithubIssueLink) : IssueSnapshot where
  title := link.syncedTitle
  body := link.syncedBody
  closure := link.syncedClosure

def fieldValue (snapshot : IssueSnapshot) : SyncField → String
  | .title => snapshot.title
  | .body => snapshot.body
  | .closure => snapshot.closure.value

def mergeField (base ours remote : String) : FieldOutcome :=
  if ours = remote then if ours = base then .unchanged else .converged
  else if remote = base then .push
  else if ours = base then .pull
  else .conflict

def resolveConflict (outcome : FieldOutcome) (policy : ConflictPolicy) : FieldOutcome :=
  if outcome ≠ .conflict then outcome
  else
    match policy with
    | .ours => .push
    | .remote => .pull
    | .report => .conflict

def planSync (base ours remote : IssueSnapshot) (policy : ConflictPolicy) (field : SyncField) :
    FieldOutcome :=
  resolveConflict
    (mergeField (fieldValue base field) (fieldValue ours field) (fieldValue remote field)) policy

def recordBase (link : GithubIssueLink) (snapshot : IssueSnapshot) (fields : List SyncField) :
    GithubIssueLink :=
  { link with
    syncedTitle := if .title ∈ fields then snapshot.title else link.syncedTitle
    syncedBody := if .body ∈ fields then snapshot.body else link.syncedBody
    syncedClosure := if .closure ∈ fields then snapshot.closure else link.syncedClosure }

/-! ## Writing the ticket -/

inductive EditError where
  | titleEmpty
  | descriptionCap (before after : Nat)
  | invalidTransition (source target : TicketState)
  deriving DecidableEq

def maxDescriptionChars : Nat := 15000

def wouldExceed (before after cap : Nat) : Bool := before ≤ cap ∧ after > cap

def chosenTransitions : TicketState → List TicketState
  | .backlog => [.inProgress, .blocked, .parked, .done, .wontDo]
  | .inProgress => [.blocked, .parked, .done, .backlog, .wontDo]
  | .blocked => [.inProgress, .parked, .backlog, .done, .wontDo]
  | .parked => [.inProgress, .blocked, .backlog, .done, .wontDo]
  | .done => [.backlog, .wontDo]
  | .wontDo => [.backlog, .inProgress]

def canChoose (current target : TicketState) : Bool := target ∈ chosenTransitions current

/-- `str.strip`. -/
def stripped (s : String) : String := String.ofList (Text.strip Text.isSpace s.toList)

def choose (ticket : Ticket) (target : TicketState) : Except EditError Ticket :=
  if ticket.state = target then .ok ticket
  else if ¬ canChoose ticket.state target then .error (.invalidTransition ticket.state target)
  else .ok { ticket with state := target }

/-- `UpdateTicketRequest`, the fields a pull sets. -/
structure UpdateTicketRequest where
  title : Option String := none
  description : Option String := none
  state : Option TicketState := none

/-- `_apply_content_edits`: every guard runs before a field moves. -/
def applyContentEdits (ticket : Ticket) (request : UpdateTicketRequest) : Except EditError Ticket :=
  if request.title.any (stripped · = "") then .error .titleEmpty
  else if request.description.any fun text =>
      wouldExceed ticket.description.length text.length maxDescriptionChars then
    .error (.descriptionCap ticket.description.length (request.description.getD "").length)
  else
    .ok { ticket with
          title := (request.title.map stripped).getD ticket.title
          description := request.description.getD ticket.description }

/-- `update_ticket_manual`, the columns that sync. -/
def updateTicketManual (ticket : Ticket) (request : UpdateTicketRequest) :
    Except EditError Ticket := do
  let edited ← applyContentEdits ticket request
  match request.state with
  | none => pure edited
  | some state => choose edited state

def stateForClosure : IssueClosure → TicketState
  | .opened => .backlog
  | .completed => .done
  | .notPlanned => .wontDo

/-- The state a pulled closure asks for: a ticket that is open keeps its own. -/
def pullTarget (ticket : Ticket) (remote : IssueSnapshot) (fields : List SyncField) :
    Option TicketState :=
  if .closure ∉ fields then none
  else if remote.closure = .opened ∧ ticket.state ∉ [.done, .wontDo] then none
  else some (stateForClosure remote.closure)

/-- `_pull`: the ticket as it is committed, also where an edit is refused. -/
def pull (ticket : Ticket) (remote : IssueSnapshot) (fields : List SyncField) :
    Ticket × Except EditError Unit :=
  let target := pullTarget ticket remote fields
  -- won't-do to done is no move of the state machine: it goes through the backlog
  let reopened :=
    if target.any fun state => ¬ canChoose ticket.state state then
      updateTicketManual ticket { state := some .backlog }
    else .ok ticket
  match reopened with
  | .error reason => (ticket, .error reason)
  | .ok reopened =>
    let request : UpdateTicketRequest :=
      { title := if .title ∈ fields then some remote.title else none
        description := if .body ∈ fields then some remote.body else none
        state := target }
    match updateTicketManual reopened request with
    | .error reason => (reopened, .error reason)
    | .ok pulled => (pulled, .ok ())

/-- What a `gh` call answers; one that failed may have been applied. -/
inductive GhAnswer where
  | ok
  | failed (detail : String) (applied : Bool)

structure GhAnswers where
  edit : GhAnswer := .ok
  reopen : GhAnswer := .ok
  close : GhAnswer := .ok

def editIssue (issue : GithubIssue) (title body : Option String) : GithubIssue :=
  { issue with title := title.getD issue.title, body := body <|> issue.body }

/-- `set_issue_closure`: closing a closed issue leaves its reason as it was. -/
def setIssueClosure (issue : GithubIssue) (closure : IssueClosure) : GithubIssue :=
  if closure = .opened ∨ issue.closure = .opened then { issue with closure := closure } else issue

/-- A push under way: the issue, the fields whose call was applied, and the failure that
    ended it. -/
structure Pushed where
  issue : GithubIssue
  landed : List SyncField := []
  error : Option String := none

/-- One more `gh` call, unless one has failed. -/
def Pushed.call (p : Pushed) (answer : GhAnswer) (f : GithubIssue → GithubIssue)
    (fields : List SyncField) : Pushed :=
  if p.error.isSome then p
  else
    match answer with
    | .ok => { issue := f p.issue, landed := p.landed ++ fields }
    | .failed detail true =>
      { issue := f p.issue, landed := p.landed ++ fields, error := some detail }
    | .failed detail false => { p with error := some detail }

def push (ours remote : IssueSnapshot) (fields : List SyncField) (issue : GithubIssue)
    (gh : GhAnswers) : Pushed :=
  let start : Pushed := { issue := issue }
  let text :=
    if .title ∈ fields ∨ .body ∈ fields then
      start.call gh.edit
        (editIssue · (if .title ∈ fields then some ours.title else none)
          (if .body ∈ fields then some ours.body else none))
        (fields.filter (· ≠ .closure))
    else start
  if .closure ∈ fields then
    let reopened :=
      if remote.closure ≠ .opened ∧ ours.closure ≠ .opened then
        text.call gh.reopen (setIssueClosure · .opened) [.closure]
      else text
    reopened.call gh.close (setIssueClosure · ours.closure) [.closure]
  else text

structure SyncConflict where
  field : SyncField
  base : String
  ours : String
  remote : String
  deriving DecidableEq

structure LinkSyncResult where
  pulled : List SyncField := []
  pushed : List SyncField := []
  conflicts : List SyncConflict := []
  error : String := ""
  deriving DecidableEq

/-- What a sync leaves: both sides and the link, the fields it set out to write on the
    ticket and those it wrote on the issue, and what it returned or raised. -/
structure Synced where
  ticket : Ticket
  issue : GithubIssue
  link : GithubIssueLink
  pulls : List SyncField
  landed : List SyncField
  result : Except EditError LinkSyncResult

def planned (plan : SyncField → FieldOutcome) (outcome : FieldOutcome) : List SyncField :=
  sortedFields.filter (plan · = outcome)

/-- `sync_link`, once it has a plan. -/
def applyPlan (ticket : Ticket) (issue : GithubIssue) (link : GithubIssueLink)
    (base ours remote : IssueSnapshot) (plan : SyncField → FieldOutcome) (gh : GhAnswers) :
    Synced :=
  let pulls := planned plan .pull
  let pushes := planned plan .push
  let converged := planned plan .converged
  let conflicts := (planFields.filter (plan · = .conflict)).map fun field =>
    { field := field, base := fieldValue base field, ours := fieldValue ours field
      remote := fieldValue remote field }
  match (if pulls ≠ [] then pull ticket remote pulls else (ticket, .ok ())) with
  | (pulledTicket, .error reason) =>
    { ticket := pulledTicket, issue := issue, link := link, pulls := pulls, landed := []
      result := .error reason }
  | (pulledTicket, .ok ()) =>
    let advanced := recordBase link remote (pulls ++ converged)
    let pushed : Pushed :=
      if pushes ≠ [] then push ours remote pushes issue gh else { issue := issue }
    match pushed.error with
    | some detail =>
      { ticket := pulledTicket, issue := pushed.issue, pulls := pulls, landed := pushed.landed
        link := { advanced with lastError := detail }
        result := .ok { pulled := pulls, conflicts := conflicts, error := detail } }
    | none =>
      { ticket := pulledTicket, issue := pushed.issue, pulls := pulls, landed := pushed.landed
        link := { recordBase advanced ours pushes with lastError := "" }
        result := .ok { pulled := pulls, pushed := pushes, conflicts := conflicts } }

/-- `sync_link`, with the copy of the issue it is given or has fetched, while the issue
    itself is `issue`. -/
def syncLink (ticket : Ticket) (issue : GithubIssue) (link : GithubIssueLink)
    (copy : GithubIssue) (policy : ConflictPolicy) (gh : GhAnswers) : Synced :=
  let base := baseSnapshot link
  let ours := ticketSnapshot ticket
  let remote := issueSnapshot copy
  applyPlan ticket issue link base ours remote (planSync base ours remote policy) gh

/-- One sync of a history: what it found, the copy of the issue it read, and what it left. -/
structure Pass where
  ticket : Ticket
  issue : GithubIssue
  link : GithubIssueLink
  copy : GithubIssue
  gh : GhAnswers
  left : Synced

/-- A linked ticket, its issue, the webhook deliveries sent so far, and the syncs made. -/
structure World where
  ticket : Ticket
  issue : GithubIssue
  link : GithubIssueLink
  deliveries : List GithubIssue := []
  passes : List Pass := []

inductive Event where
  | editTicket (ticket : Ticket)
  | editIssue (issue : GithubIssue)
  /-- A webhook delivery is emitted; it carries the issue as it is. -/
  | emit
  /-- A sync that fetches the issue. -/
  | fetch (gh : GhAnswers)
  | fetchFailed (detail : String)
  /-- `handle_issue_event`: a delivery arrives, late, again or out of order. -/
  | deliver (index : Nat) (gh : GhAnswers)

/-- A sync from a copy of the issue, under the report policy. -/
def World.sync (w : World) (copy : GithubIssue) (gh : GhAnswers) : World :=
  let left := syncLink w.ticket w.issue w.link copy .report gh
  { w with
    ticket := left.ticket
    issue := left.issue
    link := left.link
    passes := w.passes ++ [{ ticket := w.ticket, issue := w.issue, link := w.link
                             copy := copy, gh := gh, left := left }] }

def World.step (w : World) : Event → World
  | .editTicket ticket => { w with ticket := ticket }
  | .editIssue issue => { w with issue := issue }
  | .emit => { w with deliveries := w.deliveries ++ [w.issue] }
  | .fetch gh => w.sync w.issue gh
  | .fetchFailed detail => { w with link := { w.link with lastError := detail } }
  | .deliver index gh =>
    match w.deliveries[index]? with
    | none => w
    | some copy => w.sync copy gh

def World.run (w : World) (events : List Event) : World := events.foldl World.step w

end Loregarden.IssueSync
