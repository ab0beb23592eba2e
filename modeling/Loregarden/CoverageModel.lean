import Loregarden.RollupModel
import Loregarden.StageGroupModel

/-! # The tickets an initiative covers

`descendants_by_root` of `hierarchy_service.py` and `initiative_coverage.py`: the roots of an
initiative, which are its children and its members, and the subtree of each, found level by level
for all of them at once. Ids are row numbers, and a query answers in any order. -/

namespace Loregarden.Coverage

open Rollup (BlockKind InitiativeMember)
open Lanes (TicketState Instant)
open TicketWait (WorkItemType)
open Stages (StageStatus)

abbrev TicketId := Nat

structure Ticket where
  id : TicketId
  parentTicketId : Option TicketId := none
  workItemType : WorkItemType := .feature
  priority : Int := 3
  createdAt : Instant := 0
  state : TicketState := .backlog
  workflowStageStatus : StageStatus := .pending
  blockKind : Option BlockKind := none
  tags : List String := []
  deriving DecidableEq

structure Session where
  tickets : List Ticket
  members : List InitiativeMember := []
  /-- The order a query answers in. -/
  rowOrder : List Ticket → List Ticket := id
  ids_nodup : (tickets.map (·.id)).Nodup
  rowOrder_perm : ∀ rows, (rowOrder rows).Perm rows

def Session.childrenOf (s : Session) (parents : List TicketId) : List Ticket :=
  s.rowOrder (s.tickets.filter fun t => t.parentTicketId.any (· ∈ parents))

/-- What the walk has found of each root, who owns a ticket, and the level it has reached. -/
structure Walk where
  owner : TicketId → Option TicketId
  found : TicketId → List Ticket := fun _ => []
  frontier : List TicketId

def Walk.meet (walk : Walk) (child : Ticket) : Walk :=
  if (walk.owner child.id).isSome then walk
  else
    match child.parentTicketId.bind walk.owner with
    -- its parent is in the frontier, so it has an owner
    | none => walk
    | some root =>
      { owner := Function.update walk.owner child.id (some root)
        found := Function.update walk.found root (walk.found root ++ [child])
        frontier := walk.frontier ++ [child.id] }

def Walk.level (s : Session) (walk : Walk) : Walk :=
  (s.childrenOf walk.frontier).foldl Walk.meet { walk with frontier := [] }

/-- So many levels, as long as the frontier is not empty. -/
def Walk.levels (s : Session) : Nat → Walk → Walk
  | 0, walk => walk
  | n + 1, walk => if walk.frontier = [] then walk else Walk.levels s n (walk.level s)

/-- The walk before its first level: a root owns itself. -/
def Walk.start (rootIds : List TicketId) : Walk where
  owner id := if id ∈ rootIds then some id else none
  frontier := rootIds

/-- The walk of `descendants_by_root`. -/
def walkRoots (s : Session) (rootIds : List TicketId) : Walk :=
  Walk.levels s (s.tickets.length + 1) (Walk.start rootIds)

def descendantsByRoot (s : Session) (rootIds : List TicketId) : TicketId → List Ticket :=
  (walkRoots s rootIds).found

/-! ## `initiative_coverage` -/

structure InitiativeRoots where
  roots : List Ticket
  memberIds : List TicketId

structure InitiativeCoverage where
  roots : List Ticket
  memberIds : List TicketId
  /-- Each root's subtree, the root itself excluded. -/
  trees : TicketId → List Ticket

def InitiativeCoverage.tickets (coverage : InitiativeCoverage) : List Ticket :=
  coverage.roots ++ coverage.roots.flatMap fun root => coverage.trees root.id

/-- `_order`, as a comparison. -/
def orderLe (a c : Ticket) : Bool :=
  a.priority < c.priority || (a.priority = c.priority &&
    (a.createdAt < c.createdAt || (a.createdAt = c.createdAt && a.id ≤ c.id)))

/-- The tickets that the members of an initiative name, as the join gives them. -/
def memberTickets (s : Session) (initiativeId : TicketId) : List Ticket :=
  s.rowOrder (s.tickets.filter fun t =>
    s.members.any fun row => row.initiativeId = initiativeId ∧ row.ticketId = t.id)

/-- `initiative_roots` of one initiative: a member that is a child is one root, and no member. -/
def initiativeRoots (s : Session) (initiativeId : TicketId) : InitiativeRoots :=
  let children := s.childrenOf [initiativeId]
  let tracked := (memberTickets s initiativeId).filter fun t => t.id ∉ children.map (·.id)
  { roots := (children ++ tracked).insertionSort (orderLe · ·), memberIds := tracked.map (·.id) }

def initiativeCoverage (s : Session) (initiativeId : TicketId) : InitiativeCoverage :=
  let roots := initiativeRoots s initiativeId
  { roots := roots.roots, memberIds := roots.memberIds
    trees := descendantsByRoot s (roots.roots.map (·.id)) }

def planCoverage (s : Session) (root : Ticket) : InitiativeCoverage :=
  if root.workItemType = .initiative then initiativeCoverage s root.id
  else { roots := [root], memberIds := [], trees := descendantsByRoot s [root.id] }

end Loregarden.Coverage
