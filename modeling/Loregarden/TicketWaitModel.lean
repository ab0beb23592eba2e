import Loregarden.GraphSearchProofs

/-! # Ticket hierarchy and dependency edges

The two tables a ticket waits through, and the calls that write them: `add_dependency` and
`remove_dependency` (`ticket_dependencies.py`) write the prerequisite edges, `reparent_ticket`
(`hierarchy_service.py`) writes the parent links. A refusal is an error with the text the code
raises; a refused call has written nothing.

A ticket id is a UUID the code compares and never takes apart, so a number stands for it, and an
absent parent (null or empty) is `none`. Left out: the respelling of external ids at the end of
`reparent_ticket`, which writes neither table's links. -/

namespace Loregarden.TicketWait

open GraphSearch

abbrev TicketId := Nat
abbrev WorkspaceId := Nat

inductive WorkItemType where
  | initiative | milestone | feature | capability | task | bug
  deriving DecidableEq

def WorkItemType.value : WorkItemType → String
  | .initiative => "initiative"
  | .milestone => "milestone"
  | .feature => "feature"
  | .capability => "capability"
  | .task => "task"
  | .bug => "bug"

/-- `VALID_HIERARCHY`: what each type may contain. -/
def validHierarchy : WorkItemType → List WorkItemType
  | .initiative => [.milestone, .feature, .bug]
  | .milestone => [.feature, .bug]
  | .feature => [.capability, .bug]
  | .capability => [.task, .bug]
  | .task => []
  | .bug => [.task]

structure Ticket where
  id : TicketId
  workspaceId : Option WorkspaceId
  workItemType : WorkItemType
  parentTicketId : Option TicketId
  isIntegrationReview : Bool
  revision : Nat
  lastUpdatedBy : String
  deriving DecidableEq

/-- `ticketId` depends on `dependsOnTicketId` and should run after it. -/
structure TicketDependency where
  ticketId : TicketId
  dependsOnTicketId : TicketId
  createdBy : String
  deriving DecidableEq

/-- The two tables. The ticket id is the primary key. -/
structure Database where
  tickets : List Ticket
  dependencies : List TicketDependency
  ids_nodup : (tickets.map Ticket.id).Nodup

namespace Database

/-- `session.get(Ticket, id)`. -/
def get (db : Database) (id : TicketId) : Option Ticket := db.tickets.find? (fun t => t.id = id)

def parentOf (db : Database) (id : TicketId) : Option TicketId :=
  (db.get id).bind Ticket.parentTicketId

def parentLinks (db : Database) : List (TicketId × TicketId) :=
  db.tickets.filterMap (fun t => t.parentTicketId.map (fun p => (p, t.id)))

/-- Prerequisite edges, from the dependent to what it waits for. -/
def dependencyEdges (db : Database) : List (TicketId × TicketId) :=
  db.dependencies.map (fun e => (e.ticketId, e.dependsOnTicketId))

def updateTicket (db : Database) (id : TicketId) (f : Ticket → Ticket)
    (hf : ∀ t, (f t).id = t.id) : Database where
  tickets := db.tickets.map (fun t => if t.id = id then f t else t)
  dependencies := db.dependencies
  ids_nodup := by
    have h : (db.tickets.map (fun t => if t.id = id then f t else t)).map Ticket.id
        = db.tickets.map Ticket.id := by
      rw [List.map_map]
      refine List.map_congr_left fun t _ => ?_
      show (if t.id = id then f t else t).id = t.id
      split
      · exact hf t
      · rfl
    rw [h]
    exact db.ids_nodup

end Database

/-! ## `ticket_dependencies.py` -/

def ancestorWaitRefused : String :=
  "A ticket cannot depend on an ancestor; a parent is done only when its children are"

def reparentOntoPrerequisiteRefused : String :=
  "Cannot reparent under a ticket this subtree already depends on"

/-- Every parent walking up from `ticketId`, bounded by a seen-set. -/
def ancestorIds (db : Database) (ticketId : TicketId) : List TicketId :=
  climb db.parentOf (db.tickets.length + 2) ticketId []

/-- Refuse a prerequisite that sits above the ticket in the tree. -/
def refuseWaitOnAncestor (db : Database) (ticketId dependsOnTicketId : TicketId) :
    Except String Unit :=
  if dependsOnTicketId ∈ ancestorIds db ticketId then .error ancestorWaitRefused else .ok ()

/-- `_subtree_ids`: the ticket and everything under it, one level per turn. -/
def subtreeIds (db : Database) (rootId : TicketId) : List TicketId :=
  spread db.parentLinks (db.parentLinks.length + 2) [rootId] [rootId]

/-- Refuse a parent that would make a ticket of the subtree wait on a new ancestor. -/
def refuseReparentOntoAPrerequisite (db : Database) (ticketId newParentId : TicketId) :
    Except String Unit :=
  let newAncestors := newParentId :: ancestorIds db newParentId
  let subtree := subtreeIds db ticketId
  let rows := db.dependencies.filter (fun row => row.ticketId ∈ subtree)
  if rows.any (fun row => row.dependsOnTicketId ∈ newAncestors) then
    .error reparentOntoPrerequisiteRefused
  else .ok ()

/-- `_reaches`: whether `start` reaches `target` by following depends-on edges. -/
def reaches (db : Database) (start target : TicketId) : Bool :=
  search db.dependencyEdges target (db.dependencyEdges.length + 2) [start] []

/-- The stored edge between two tickets, if there is one. -/
def existingEdge (db : Database) (ticketId dependsOnTicketId : TicketId) :
    Option TicketDependency :=
  db.dependencies.find?
    (fun e => e.ticketId = ticketId ∧ e.dependsOnTicketId = dependsOnTicketId)

def addDependency (db : Database) (ticketId dependsOnTicketId : TicketId)
    (createdBy : String) : Except String (Database × TicketDependency) := do
  if ticketId = dependsOnTicketId then
    throw "A ticket cannot depend on itself"
  refuseWaitOnAncestor db ticketId dependsOnTicketId
  match existingEdge db ticketId dependsOnTicketId with
  | some existing => return (db, existing)
  | none =>
    if reaches db dependsOnTicketId ticketId then
      throw s!"{dependsOnTicketId} already depends on {ticketId}; edge would cycle"
    let edge : TicketDependency := ⟨ticketId, dependsOnTicketId, createdBy⟩
    return ({ db with dependencies := db.dependencies ++ [edge] }, edge)

/-- `TicketDependencyService.remove_dependency`; the answer is whether there was
    an edge to remove. -/
def removeDependency (db : Database) (ticketId dependsOnTicketId : TicketId) : Database × Bool :=
  match existingEdge db ticketId dependsOnTicketId with
  | none => (db, false)
  | some edge => ({ db with dependencies := db.dependencies.erase edge }, true)

/-! ## `hierarchy_service.py` -/

def reprList (values : List String) : String :=
  "[" ++ ", ".intercalate (values.map (fun v => "\x27" ++ v ++ "\x27")) ++ "]"

def validateParentChild (parentType childType : WorkItemType) : Except String Unit :=
  let allowed := validHierarchy parentType
  if childType ∈ allowed then .ok ()
  else .error (parentType.value ++ " cannot contain " ++ childType.value ++ "; allowed: "
    ++ reprList (allowed.map WorkItemType.value))

def parentlessTypes : List WorkItemType := [.initiative, .milestone]

/-- Parent-link rules for create, reparent, import and finalize. -/
def validateParentAssignment (childType : WorkItemType) (parentType : Option WorkItemType) :
    Except String Unit :=
  match parentType with
  | none =>
    if childType ∈ parentlessTypes then .ok ()
    else .error (childType.value ++ " requires a parent work item")
  | some parentType => validateParentChild parentType childType

/-- `_is_descendant`: whether `candidate` sits somewhere under `ancestor`. -/
def isDescendant (db : Database) (candidate ancestor : Ticket) : Bool :=
  climbsTo db.parentOf ancestor.id (db.tickets.length + 2) candidate.id []

/-- The write at the end of `reparent_ticket`. -/
def writeParent (db : Database) (ticket : Ticket) (parentTicketId : Option TicketId) : Database :=
  db.updateTicket ticket.id
    (fun t => { t with
      parentTicketId := parentTicketId
      revision := t.revision + 1
      lastUpdatedBy := "human" })
    (fun _ => rfl)

/-- `reparent_ticket`: move a work item under a different parent. -/
def reparentTicket (db : Database) (ticket : Ticket) (parentTicketId : Option TicketId) :
    Except String Database := do
  match parentTicketId with
  | none =>
    validateParentAssignment ticket.workItemType none
    return writeParent db ticket none
  | some parentTicketId =>
    match db.get parentTicketId with
    | none => throw "Parent work item not found in workspace"
    | some parent =>
      if parent.workspaceId.isSome ∧ parent.workspaceId ≠ ticket.workspaceId then
        throw "Parent work item not found in workspace"
      if parent.id = ticket.id then
        throw "A work item cannot be its own parent"
      if isDescendant db parent ticket then
        throw "Cannot reparent a work item beneath one of its own descendants"
      validateParentAssignment ticket.workItemType (some parent.workItemType)
      if ticket.isIntegrationReview ∧ parent.workItemType = .initiative then
        throw "An integration review stays with the work it reviews"
      refuseReparentOntoAPrerequisite db ticket.id parent.id
      return writeParent db ticket (some parent.id)

inductive Edit where
  | addDependency (ticketId dependsOnTicketId : TicketId) (createdBy : String)
  | removeDependency (ticketId dependsOnTicketId : TicketId)
  | reparentTicket (ticketId : TicketId) (parentTicketId : Option TicketId)

/-- One call. The ticket to move is loaded by its caller; `remove_dependency` on an edge that is not
    there changes nothing. -/
def exec (db : Database) : Edit → Except String Database
  | .addDependency ticketId dependsOnTicketId createdBy =>
    Prod.fst <$> addDependency db ticketId dependsOnTicketId createdBy
  | .removeDependency ticketId dependsOnTicketId =>
    .ok (removeDependency db ticketId dependsOnTicketId).1
  | .reparentTicket ticketId parentTicketId =>
    match db.get ticketId with
    | none => .error "Ticket not found"
    | some ticket => reparentTicket db ticket parentTicketId

def Succeeds (db : Database) (edit : Edit) (db' : Database) : Prop := exec db edit = .ok db'

end Loregarden.TicketWait
