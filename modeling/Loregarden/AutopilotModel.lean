import Mathlib.Algebra.Order.Ring.Rat
import Mathlib.Data.String.Basic
import Loregarden.GraphSearchProofs
import Loregarden.SortedRowProofs

/-! # A tick of an initiative's autopilot

`initiative_autopilot.py`: the statuses `initiative_graph` gives a plan's nodes, the picks of
`select_next`, the checks of `_dispatch` and the tick over them. The schedule, the stops, the
breaker's count, the gates answered and what each check reads are given; the log of events is left
out. -/

namespace Loregarden.Autopilot

open GraphSearch Ranked

abbrev TicketId := Nat

inductive TicketState where
  | backlog | inProgress | blocked | parked | done | wontDo
  deriving DecidableEq

/-- `TicketActivity`. -/
inductive Activity where
  | running | awaiting | queued | idle
  deriving DecidableEq

inductive NodeStatus where
  | done | running | ready | waiting | needsPerson | blocked
  deriving DecidableEq

structure Ticket where
  id : TicketId
  externalId : String
  state : TicketState := .backlog
  /-- `workflow_stage_status` is `AWAITING`. -/
  stageAwaiting : Bool := false
  /-- `block_kind` is of `_PERSON_BLOCKS`. -/
  personBlock : Bool := false
  /-- `NEEDS_PERSON_TAG` is among its tags. -/
  needsPersonTag : Bool := false
  deriving DecidableEq

/-- `_status`: the status before dependencies are considered, and whether it holds its lane. -/
def statusOf (ticket : Ticket) (activity : Activity) : NodeStatus × Bool :=
  if ticket.state = .done ∨ ticket.state = .wontDo then (.done, false)
  else if activity = .awaiting ∨ ticket.stageAwaiting then (.needsPerson, true)
  else if activity = .running ∨ activity = .queued then (.running, true)
  else if ticket.state = .parked ∨ ticket.personBlock ∨ ticket.needsPersonTag then
    (.needsPerson, false)
  else if ticket.state = .blocked then (.blocked, false)
  else (.ready, false)

structure PlanNode where
  ticket : Ticket
  deps : List TicketId := []
  status : NodeStatus := .waiting
  holdsLane : Bool := false
  waitingOn : List TicketId := []
  start : Option ℚ := none
  rank : ℚ := 0
  critical : Bool := false
  external : Bool := false
  phase : Int
  deriving DecidableEq

abbrev PlanNode.id (n : PlanNode) : TicketId := n.ticket.id

abbrev Tree := TicketId → Option TicketId

variable (parent : Tree) (nodes : List PlanNode)

def planParent (id : TicketId) : Option TicketId :=
  if id ∈ nodes.map PlanNode.id then (parent id).filter (· ∈ nodes.map PlanNode.id) else none

def ancestorIds (node : PlanNode) : List TicketId :=
  climb (planParent parent nodes) (nodes.length + 2) node.id []

/-- What a node that holds its lane makes of a ready node above it. -/
def markUnderway (holder : PlanNode) (nodes : List PlanNode) : List PlanNode :=
  nodes.map fun n =>
    if n.id ∈ ancestorIds parent nodes holder ∧ n.id ≠ holder.id ∧ n.status = .ready then
      { n with status := holder.status }
    else n

def markAncestorsUnderway : List PlanNode :=
  (nodes.filter (·.holdsLane)).foldl (fun nodes holder => markUnderway parent holder nodes) nodes

/-- `nodes[id].status`. -/
def statusIn (id : TicketId) : Option NodeStatus := (nodes.find? (·.id = id)).map PlanNode.status

def statuses (activity : TicketId → Activity) : List PlanNode :=
  let read := nodes.map fun n =>
    let (status, holdsLane) := statusOf n.ticket (activity n.id)
    { n with status := status, holdsLane := holdsLane }
  let marked := markAncestorsUnderway parent read
  marked.map fun n =>
    let waitingOn := n.deps.filter fun d => statusIn marked d ≠ some .done
    let status := if n.status = .ready ∧ waitingOn ≠ [] then .waiting else n.status
    { n with waitingOn := waitingOn, status := status }

/-! ## `select_next` -/

/-- What of a `PlanContext` a tick reads. -/
structure Context where
  initiative : TicketId
  nodes : List PlanNode
  now : ℚ
  /-- Nodes stand under their ids. -/
  nodup : (nodes.map PlanNode.id).Nodup

namespace Context

variable (ctx : Context)

/-- The plan's own nodes: neither outside prerequisites nor the root itself. -/
def own : List PlanNode := ctx.nodes.filter fun n => !n.external && n.id ≠ ctx.initiative

def inFlight : List PlanNode := ctx.own.filter (·.holdsLane)

def key (n : PlanNode) : Bool ×ₗ Int ×ₗ ℚ ×ₗ ℚ ×ₗ String :=
  toLex (!n.critical, toLex (n.phase, toLex (n.start.getD ctx.now, toLex (-n.rank,
    n.ticket.externalId))))

def startable (retryable : TicketId → Bool) (n : PlanNode) : Bool :=
  n.status = .ready ∨ (n.status = .blocked ∧ retryable n.id ∧ n.waitingOn = [])

def candidates (retryable : TicketId → Bool) : List PlanNode :=
  ranked ctx.key (ctx.own.filter (startable retryable))

def related (parent : Tree) (node : PlanNode) : List TicketId :=
  ancestorIds parent ctx.nodes node
    ++ (ctx.nodes.filter fun other => node.id ∈ ancestorIds parent ctx.nodes other).map PlanNode.id

/-- The loop of `select_next`. -/
def pick (parent : Tree) (budget : Int) :
    List PlanNode → List TicketId → List PlanNode → List PlanNode
  | [], _, picked => picked
  | node :: rest, taken, picked =>
    if budget ≤ picked.length then picked
    else if ∃ id ∈ ctx.related parent node, id ∈ taken then pick parent budget rest taken picked
    else pick parent budget rest (taken ++ [node.id]) (picked ++ [node])

def selectNext (parent : Tree) (maxParallel : Int) (retryable : TicketId → Bool) : List PlanNode :=
  ctx.pick parent (maxParallel - ctx.inFlight.length) (ctx.candidates retryable)
    (ctx.inFlight.map PlanNode.id) []

end Context

inductive Refusal where
  | sandbox
  | noWorkspace
  | ancestorRunning (ancestor : TicketId)
  | unmetPrerequisites
  | subtreeHold
  /-- `prepare_rerun`, `least_busy_lane` or `add_to_lane` raises. -/
  | notQueued

/-- What the checks of `_dispatch` read, behind the picks this tick has dispatched. -/
structure Checks where
  sandbox : Bool
  hasWorkspace : TicketId → Bool
  /-- `find_active_orchestration_run`. -/
  activeRun : List TicketId → TicketId → Bool
  /-- `unmet_prerequisites_for_start` names some. -/
  unmet : List TicketId → TicketId → Bool
  /-- `subtree_start_hold`. -/
  subtreeHold : List TicketId → TicketId → Bool
  /-- The ticket can be prepared for its retry and added to a lane. -/
  queues : List TicketId → TicketId → Bool

/-- `self_and_ancestors`, of a table of `size` tickets. -/
def selfAndAncestors (size : Nat) (id : TicketId) : List TicketId := climb parent (size + 2) id [id]

def ancestorRunning (checks : Checks) (size : Nat) (tried : List TicketId) (id : TicketId) :
    Option TicketId :=
  (selfAndAncestors parent size id).tail.find? (checks.activeRun tried)

/-- `_dispatch`: why it refuses a pick, if it does. -/
def dispatch (checks : Checks) (size : Nat) (tried : List TicketId) (id : TicketId) :
    Option Refusal :=
  if checks.sandbox then some .sandbox
  else if !checks.hasWorkspace id then some .noWorkspace
  else
    match ancestorRunning parent checks size tried id with
    | some ancestor => some (.ancestorRunning ancestor)
    | none =>
      if checks.unmet tried id then some .unmetPrerequisites
      else if checks.subtreeHold tried id then some .subtreeHold
      else if checks.queues tried id then none
      else some .notQueued

def breakerLimit : Nat := 3

/-- One tick: the plan's settings, its context and what else the tick reads. -/
structure Tick where
  autopilot : Bool
  stopReached : Bool
  /-- The tickets `_blocked_since_enabled` counts. -/
  blocked : Nat
  maxParallel : Int
  parent : Tree
  /-- The tickets there are. -/
  tickets : List TicketId
  ctx : Context
  /-- The tickets `_retryable` names. -/
  retryable : TicketId → Bool
  /-- The tickets `_sign_off_parked_gates` answered, and those above them. -/
  resuming : List TicketId
  checks : Checks
  parent_of : ∀ a b, parent a = some b → a ∈ tickets

namespace Tick

variable (t : Tick)

def picks : List PlanNode := t.ctx.selectNext t.parent t.maxParallel t.retryable

/-- The loop over the picks, behind those it has dispatched: how many it queues. -/
def dispatchEach : List PlanNode → List TicketId → Nat
  | [], _ => 0
  | node :: rest, tried =>
    if node.id ∈ t.resuming then dispatchEach rest tried
    else
      (if dispatch t.parent t.checks t.tickets.length tried node.id = none then 1 else 0)
        + dispatchEach rest (tried ++ [node.id])

/-- `run_autopilot`: how many tickets it queues. -/
def runAutopilot : Nat :=
  if !t.autopilot then 0
  else if t.stopReached then 0
  else if breakerLimit ≤ t.blocked then 0
  else t.dispatchEach t.picks []

end Tick

end Loregarden.Autopilot
