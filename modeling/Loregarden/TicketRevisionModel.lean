import Loregarden.IssueSyncModel
import Loregarden.RunProofs

/-! # The revision of a ticket

`ticket_revision_guard.py`, `update_ticket_manual` and the state service, over one ticket row. A
writer is a session that loads the row, and later writes in one transaction the columns it changed;
a column it left as it loaded it is not written. What the stage edits recompute the state to, and
whether the hierarchy takes a new parent, are given with the request. -/

namespace Loregarden.TicketRevision

open Lanes (TicketState)
open IssueSync (stripped canChoose wouldExceed maxDescriptionChars)

/-- The columns of a ticket; a list stands for the text that stores it. -/
structure Ticket where
  title : String
  description : String := ""
  acceptanceCriteria : List String := []
  checkedCriteria : List String := []
  tags : List String := []
  priority : Int := 3
  state : TicketState := .backlog
  stateLocked : Bool := false
  branch : String := ""
  lastUpdatedBy : String := ""
  revision : Nat := 1
  deriving DecidableEq

structure Content where
  title : String
  description : String
  acceptanceCriteria : List String
  tags : List String
  priority : Int
  state : TicketState
  deriving DecidableEq

def Ticket.content (ticket : Ticket) : Content where
  title := ticket.title
  description := ticket.description
  acceptanceCriteria := ticket.acceptanceCriteria
  tags := ticket.tags
  priority := ticket.priority
  state := ticket.state

structure UpdateTicketRequest where
  title : Option String := none
  description : Option String := none
  acceptanceCriteria : Option (List String) := none
  checkedAcceptanceCriteria : Option (List String) := none
  tags : Option (List String) := none
  priority : Option Int := none
  state : Option TicketState := none
  autoState : Option Bool := none
  /-- Whether the hierarchy takes the parent that is asked for. -/
  parent : Option Bool := none
  branch : Option String := none
  /-- What the stage edits recompute the state to, where they do. -/
  recomputed : Option TicketState := none

inductive EditError where
  | criteriaFrozen
  | titleEmpty
  | descriptionCap (before after : Nat)
  | criteriaCap (before after : Nat)
  | tagTooLong (tag : String)
  | tooManyTags (count : Nat)
  | priorityRange
  | invalidTransition (source target : TicketState)
  | parentRefused

/-! ## Criteria and tags -/

def maxAcceptanceCriteria : Nat := 12

def maxTagLength : Nat := 32

def maxTags : Nat := 20

def wouldGrowPast (before after cap : Nat) : Bool := after > cap ∧ after > before

def normalizeCriteria (criteria : List String) : List String :=
  (criteria.map stripped).filter (· ≠ "")

def serializeChecked (checked criteria : List String) : List String :=
  (criteria.filter (· ∈ normalizeCriteria checked)).eraseDups

def loadChecked (stored criteria : List String) : List String :=
  criteria.filter (· ∈ normalizeCriteria stored)

/-- The loop of `normalize_tags`; `seen` holds the tags so far, by case. -/
def keepTags (casefold : String → String) : List String → List String →
    Except EditError (List String)
  | _, [] => .ok []
  | seen, raw :: rest =>
    let tag := stripped raw
    if tag = "" then keepTags casefold seen rest
    else if maxTagLength < tag.length then .error (.tagTooLong tag)
    else if casefold tag ∈ seen then keepTags casefold seen rest
    else (keepTags casefold (casefold tag :: seen) rest).map (tag :: ·)

def normalizeTags (casefold : String → String) (tags : List String) :
    Except EditError (List String) :=
  match keepTags casefold [] tags with
  | .error reason => .error reason
  | .ok kept => if maxTags < kept.length then .error (.tooManyTags kept.length) else .ok kept

def write (ticket : Ticket) (target : TicketState) (actor : String) : Ticket :=
  if ticket.state = target then ticket
  else { ticket with state := target, revision := ticket.revision + 1, lastUpdatedBy := actor }

def choose (ticket : Ticket) (target : TicketState) (actor : String) : Except EditError Ticket :=
  if ticket.state = target then .ok ticket
  else if ¬ canChoose ticket.state target then .error (.invalidTransition ticket.state target)
  else .ok (write ticket target actor)

def derive (ticket : Ticket) (target : TicketState) (actor : String) : Ticket :=
  if ticket.stateLocked ∨ ticket.state ∈ [.wontDo, .parked] then ticket
  else write ticket target actor

/-! ## A manual edit -/

/-- `_guard_frozen_criteria` refuses. -/
def frozenCriteria (ticket : Ticket) (body : UpdateTicketRequest) : Bool :=
  let criteria := normalizeCriteria ticket.acceptanceCriteria
  ticket.state = .done ∧ (body.state = none ∨ body.state = some .done) ∧
    (body.acceptanceCriteria.any (fun given => normalizeCriteria given ≠ criteria) ∨
      body.checkedAcceptanceCriteria.any fun given =>
        let wanted := loadChecked (serializeChecked given criteria) criteria
        let stored := loadChecked ticket.checkedCriteria criteria
        ¬ (wanted ⊆ stored ∧ stored ⊆ wanted))

def contentFields (ticket : Ticket) : String × String × List String × List String :=
  (ticket.title, ticket.description, ticket.acceptanceCriteria, ticket.tags)

/-- `_apply_content_edits`: every guard but that of the tags runs before a field moves. -/
def applyContentEdits (casefold : String → String) (ticket : Ticket) (body : UpdateTicketRequest) :
    Except EditError Ticket :=
  let criteria := (normalizeCriteria ticket.acceptanceCriteria).length
  if frozenCriteria ticket body then .error .criteriaFrozen
  else if body.title.any (stripped · = "") then .error .titleEmpty
  else if body.description.any fun text =>
      wouldExceed ticket.description.length text.length maxDescriptionChars then
    .error (.descriptionCap ticket.description.length (body.description.getD "").length)
  else if body.acceptanceCriteria.any fun given =>
      wouldGrowPast criteria (normalizeCriteria given).length maxAcceptanceCriteria then
    .error (.criteriaCap criteria (normalizeCriteria (body.acceptanceCriteria.getD [])).length)
  else
    match body.tags.mapM (normalizeTags casefold) with
    | .error reason => .error reason
    | .ok tags =>
      .ok { ticket with
            title := (body.title.map stripped).getD ticket.title
            description := body.description.getD ticket.description
            acceptanceCriteria :=
              (body.acceptanceCriteria.map normalizeCriteria).getD ticket.acceptanceCriteria
            tags := tags.getD ticket.tags }

def applyCriteriaChecks (ticket : Ticket) (body : UpdateTicketRequest) : Ticket :=
  let criteria := normalizeCriteria ticket.acceptanceCriteria
  let checked := body.checkedAcceptanceCriteria.getD (loadChecked ticket.checkedCriteria criteria)
  { ticket with checkedCriteria := serializeChecked checked criteria }

def applyOperatorEdits (casefold : String → String) (ticket : Ticket)
    (body : UpdateTicketRequest) : Except EditError Ticket :=
  match applyContentEdits casefold ticket body with
  | .error reason => .error reason
  | .ok edited =>
    let edited := applyCriteriaChecks edited body
    if body.priority.any fun priority => priority < 1 ∨ 3 < priority then .error .priorityRange
    else
      let priority := body.priority.getD edited.priority
      if contentFields edited ≠ contentFields ticket ∨ edited.priority ≠ priority then
        .ok { edited with
              priority := priority, revision := edited.revision + 1, lastUpdatedBy := "human" }
      else .ok edited

def applyStateEdit (ticket : Ticket) (body : UpdateTicketRequest) : Except EditError Ticket :=
  let pinned : Ticket :=
    if body.autoState = some true then { ticket with stateLocked := false }
    else if body.autoState = some false ∨ body.state.isSome then { ticket with stateLocked := true }
    else ticket
  match body.state with
  | none => .ok pinned
  | some target =>
    match choose pinned target "human" with
    | .error reason => .error reason
    | .ok chosen =>
      if target = .wontDo then .ok { chosen with stateLocked := true } else .ok chosen

/-- `reparent_ticket`, what it does to the row. -/
def reparentTicket (ticket : Ticket) (taken : Bool) : Except EditError Ticket :=
  if taken then .ok { ticket with revision := ticket.revision + 1, lastUpdatedBy := "human" }
  else .error .parentRefused

/-- The edit of the branch: it counts also where the branch stays. -/
def applyBranch (ticket : Ticket) (body : UpdateTicketRequest) : Ticket :=
  match body.branch with
  | none => ticket
  | some branch =>
    { ticket with
      branch := stripped branch, revision := ticket.revision + 1, lastUpdatedBy := "human" }

/-- `_apply_manual_stage_edits`, what it does to the row. -/
def applyManualStageEdits (ticket : Ticket) (body : UpdateTicketRequest) : Ticket :=
  match body.recomputed with
  | none => ticket
  | some target => derive ticket target "workflow"

/-- `update_ticket_manual`, up to its commit. -/
def updateTicketManual (casefold : String → String) (ticket : Ticket)
    (body : UpdateTicketRequest) : Except EditError Ticket := do
  let edited ← applyOperatorEdits casefold ticket body
  let moved ← applyStateEdit edited body
  let placed ← (body.parent.elim (.ok moved) (reparentTicket moved))
  return applyManualStageEdits (applyBranch placed body) body

/-! ## Sessions over one row -/

/-- `claim_ticket_revision`: the row after the statement, where it matched. -/
def claimTicketRevision (row : Ticket) (expected : Nat) : Option Ticket :=
  if row.revision = expected then some { row with revision := row.revision + 1 } else none

/-- What a column is after a session that may have changed it is flushed. -/
def flushed {α : Type} [DecidableEq α] (loaded edited row : α) : α :=
  if edited = loaded then row else edited

/-- The columns a session changed are written over the row. -/
def flush (loaded edited row : Ticket) : Ticket where
  title := flushed loaded.title edited.title row.title
  description := flushed loaded.description edited.description row.description
  acceptanceCriteria :=
    flushed loaded.acceptanceCriteria edited.acceptanceCriteria row.acceptanceCriteria
  checkedCriteria := flushed loaded.checkedCriteria edited.checkedCriteria row.checkedCriteria
  tags := flushed loaded.tags edited.tags row.tags
  priority := flushed loaded.priority edited.priority row.priority
  state := flushed loaded.state edited.state row.state
  stateLocked := flushed loaded.stateLocked edited.stateLocked row.stateLocked
  branch := flushed loaded.branch edited.branch row.branch
  lastUpdatedBy := flushed loaded.lastUpdatedBy edited.lastUpdatedBy row.lastUpdatedBy
  revision := flushed loaded.revision edited.revision row.revision

structure World where
  row : Ticket
  /-- The row as each session loaded it. -/
  loaded : Nat → Option Ticket := fun _ => none
  /-- The rows before this one, the last first, and the revisions that were claimed: kept to be
      told about, read by nothing. -/
  earlier : List Ticket := []
  claims : List Nat := []

def World.history (w : World) : List Ticket := w.row :: w.earlier

inductive Event where
  | load (session : Nat)
  /-- An edit through the patch edge or the MCP handler, guarded where a revision is expected. -/
  | edit (session : Nat) (body : UpdateTicketRequest) (expected : Option Nat)
  | choose (session : Nat) (target : TicketState) (actor : String)
  | derive (session : Nat) (target : TicketState) (actor : String)

def Event.session : Event → Nat
  | .load session | .edit session _ _ | .choose session _ _ | .derive session _ _ => session

/-- `guard_ticket_revision`: the row the edit goes on, where it is not refused. -/
def guarded (row : Ticket) : Option Nat → Option Ticket
  | none => some row
  | some expected => claimTicketRevision row expected

def edits (casefold : String → String) (ticket : Ticket) : Event → Option Ticket
  | .load _ => none
  | .edit _ body _ => (updateTicketManual casefold ticket body).toOption
  | .choose _ target actor => (choose ticket target actor).toOption
  | .derive _ target actor => some (derive ticket target actor)

def Event.expected : Event → Option Nat
  | .edit _ _ expected => expected
  | _ => none

/-- The row after the transaction of an event; none where nothing is committed. -/
def committed (casefold : String → String) (w : World) (e : Event) : Option Ticket := do
  let ticket ← w.loaded e.session
  let row ← guarded w.row e.expected
  let edited ← edits casefold ticket e
  return flush ticket edited row

/-- A session that loads, or ends with its transaction. -/
def step (casefold : String → String) (w : World) (e : Event) : World :=
  match e with
  | .load session => { w with loaded := Function.update w.loaded session (some w.row) }
  | e =>
    match committed casefold w e with
    | none => { w with loaded := Function.update w.loaded e.session none }
    | some row =>
      { row := row
        loaded := Function.update w.loaded e.session none
        earlier := w.history
        claims := e.expected.toList ++ w.claims }

def Step (casefold : String → String) (w : World) (e : Event) (w' : World) : Prop :=
  step casefold w e = w'

end Loregarden.TicketRevision
