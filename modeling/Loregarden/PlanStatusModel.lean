import Loregarden.CoverageModel
import Loregarden.PlanGraphModel

/-! # What each ticket of a plan waits for

`initiative_graph.py` up to the statuses: the nodes that a coverage makes, the prerequisites that
join them, and whether a node is done, under way, ready or waiting. The nodes are a dictionary in
the order of its insertions; what the runs say of a ticket is given. Lanes and durations, which no
status depends on, are left out. -/

namespace Loregarden.PlanStatus

open Coverage (Ticket TicketId InitiativeCoverage)
open GraphSearch (climb)
open Plan (NodeStatus)
open Lanes (TicketState)
open Rollup (BlockKind)
open Stages (StageStatus)

inductive TicketActivity where
  | running | awaiting | queued | idle
  deriving DecidableEq

structure PlanNode where
  ticket : Ticket
  /-- The phase it belongs to; none for an outside prerequisite. -/
  milestoneId : Option TicketId
  deps : List TicketId := []
  dependents : List TicketId := []
  status : NodeStatus := .waiting
  holdsLane : Bool := false
  waitingOn : List TicketId := []
  external : Bool := false

def PlanNode.id (node : PlanNode) : TicketId := node.ticket.id

structure Session extends Coverage.Session where
  /-- A ticket, and one it depends on. -/
  dependencies : List (TicketId × TicketId) := []

/-- `nodes[ticket.id] = node`. -/
def put (nodes : List PlanNode) (node : PlanNode) : List PlanNode :=
  if node.id ∈ nodes.map (·.id) then nodes.map fun n => if n.id = node.id then node else n
  else nodes ++ [node]

/-- `nodes.get(id)`. -/
def lookup (nodes : List PlanNode) (id : TicketId) : Option PlanNode := nodes.find? (·.id = id)

def phaseItems (coverage : InitiativeCoverage) (milestone : Ticket) : List Ticket :=
  let items := (coverage.trees milestone.id).filter fun t =>
    t.workItemType ∉ [.initiative, .milestone]
  if items = [] then [milestone] else items

/-- `_nodes`. -/
def planNodes (coverage : InitiativeCoverage) : List PlanNode :=
  coverage.roots.foldl (fun nodes milestone =>
    (phaseItems coverage milestone).foldl (fun nodes ticket =>
      put nodes { ticket := ticket, milestoneId := some milestone.id }) nodes) []

def edgesOf (s : Session) (nodes : List PlanNode) : List (TicketId × TicketId) :=
  s.dependencies.filter fun edge => edge.1 ∈ nodes.map (·.id)

def outsideNodes (s : Session) (nodes : List PlanNode) : List PlanNode :=
  (s.rowOrder (s.tickets.filter fun t => t.id ∉ nodes.map (·.id) ∧
    t.id ∈ (edgesOf s nodes).map (·.2))).map fun ticket =>
      { ticket := ticket, milestoneId := none, external := true }

/-- `_edges`: an edge to a ticket that is nowhere is dropped. -/
def withEdges (s : Session) (nodes : List PlanNode) : List PlanNode :=
  let edges := edgesOf s nodes
  let all := nodes ++ outsideNodes s nodes
  all.map fun node =>
    { node with
      deps := ((edges.filter (·.1 = node.id)).map (·.2)).filter (· ∈ all.map (·.id))
      dependents := (edges.filter (·.2 = node.id)).map (·.1) }

def graphNodes (s : Session) (coverage : InitiativeCoverage) : List PlanNode :=
  withEdges s (planNodes coverage)

/-! ## The statuses -/

def needsPersonTag : String := "needs-person"

def personBlocks : List BlockKind := [.decision, .humanAction]

/-- `_status`: the status before dependencies are considered, and whether it holds its lane. -/
def statusOf (ticket : Ticket) (activity : TicketActivity) : NodeStatus × Bool :=
  if ticket.state ∈ [TicketState.done, .wontDo] then (.done, false)
  else if activity = .awaiting ∨ ticket.workflowStageStatus = .awaiting then (.needsPerson, true)
  else if activity ∈ [.running, .queued] then (.running, true)
  else if ticket.state = .parked ∨ ticket.blockKind.any (· ∈ personBlocks) ∨
      needsPersonTag ∈ ticket.tags then (.needsPerson, false)
  else if ticket.state = .blocked then (.blocked, false)
  else (.ready, false)

/-- The parent of a node, where that is a node as well. -/
def nodeParent (nodes : List PlanNode) (id : TicketId) : Option TicketId :=
  (lookup nodes id).bind fun node => node.ticket.parentTicketId.filter (· ∈ nodes.map (·.id))

/-- What the loop of `_mark_ancestors_underway` sees from a node on: the node, and its parents as
    long as they are nodes and it has not seen them. -/
def seenFrom (nodes : List PlanNode) (node : PlanNode) : List TicketId :=
  climb (nodeParent nodes) (nodes.length + 1) node.id [node.id]

def markFrom (nodes : List PlanNode) (held : PlanNode) : List PlanNode :=
  let seen := seenFrom nodes held
  nodes.map fun node =>
    if node.id ∈ seen ∧ node.status = .ready then { node with status := held.status } else node

def markAncestorsUnderway (nodes : List PlanNode) : List PlanNode :=
  (nodes.filter (·.holdsLane)).foldl markFrom nodes

def ownStatuses (activity : TicketId → TicketActivity) (nodes : List PlanNode) : List PlanNode :=
  nodes.map fun node =>
    let own := statusOf node.ticket (activity node.id)
    { node with status := own.1, holdsLane := own.2 }

def statuses (activity : TicketId → TicketActivity) (nodes : List PlanNode) : List PlanNode :=
  let marked := markAncestorsUnderway (ownStatuses activity nodes)
  marked.map fun node =>
    let waitingOn := node.deps.filter fun d => (lookup marked d).any (·.status ≠ .done)
    { node with
      waitingOn := waitingOn
      status := if node.status = .ready ∧ waitingOn ≠ [] then .waiting else node.status }

end Loregarden.PlanStatus
