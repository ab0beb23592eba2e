import Mathlib.Algebra.Order.Ring.Rat
import Mathlib.Data.List.Sort
import Mathlib.Data.NNRat.Defs
import Mathlib.Data.String.Basic
import Loregarden.KahnProofs

/-! # The plan graph and its schedule

`initiative_graph.py`, from the loaded nodes on: ranks, steps and cycles, then a simulation of the
slots over time, and the chain behind its last finish. A ticket id is a UUID the code compares, so a
number stands for it; the nodes and the sets of nodes stand in the order in which Python iterates
over them, which is any order. Time and durations are exact rational days. -/

namespace Loregarden.Plan

inductive NodeStatus where
  | done | running | ready | waiting | needsPerson | blocked
  deriving DecidableEq

def unplannedOrder : Int := 1000000

/-- `PlanNode`, before it is scheduled. -/
structure PlanNode where
  id : Nat
  externalId : String
  lane : String
  external : Bool := false
  status : NodeStatus := .waiting
  holdsLane : Bool := false
  durationDays : Option ℚ≥0 := none
  resolvedAt : Option ℚ := none
  /-- Longest chain of work from here to the end of the plan, in days. -/
  rank : ℚ := 0
  /-- Dependency depth: 1 for a ticket with no open prerequisites. -/
  step : Nat := 1
  phase : Int := unplannedOrder
  deriving DecidableEq

/-- The nodes of one plan, and an edge from a ticket to each prerequisite. -/
structure PlanGraph where
  nodes : List PlanNode
  /-- A ticket, and one it waits for. -/
  edges : List (Nat × Nat)
  nodup : (nodes.map (·.id)).Nodup
  closed : ∀ e ∈ edges, e.1 ∈ nodes.map (·.id) ∧ e.2 ∈ nodes.map (·.id)
  /-- An outside prerequisite stands in its workspace's lane, `outside:…`. -/
  outside : ∀ n ∈ nodes, n.external = true → n.lane ≠ ""

namespace PlanGraph

def deps (g : PlanGraph) (id : Nat) : List Nat := (g.edges.filter (·.1 = id)).map (·.2)

def dependents (g : PlanGraph) (id : Nat) : List Nat := (g.edges.filter (·.2 = id)).map (·.1)

/-- `nodes[id]`. -/
def node (g : PlanGraph) (id : Nat) : Option PlanNode := g.nodes.find? (·.id = id)

def ids (g : PlanGraph) : List Nat := g.nodes.map (·.id)

def isOpen (g : PlanGraph) (id : Nat) : Bool := (g.node id).any (·.status ≠ .done)

end PlanGraph

/-- `node.duration_days or 0.0`. -/
def PlanNode.work (n : PlanNode) : ℚ := n.durationDays.elim 0 Subtype.val

/-- The order in which `_ranks_and_steps` takes the nodes: `queue.pop()` takes the last. -/
def topo (g : PlanGraph) : List Nat :=
  Kahn.order g.deps g.dependents g.ids (g.ids.filter (g.deps · = [])).reverse

/-- The nodes `_ranks_and_steps` returns. -/
def cyclic (g : PlanGraph) : List Nat := g.ids.filter (· ∉ topo g)

/-- `node.step`, for the nodes in the order they are taken. -/
def steps (g : PlanGraph) : Nat → Nat :=
  (topo g).foldl (fun step id =>
    Function.update step id (1 + (((g.deps id).filter g.isOpen).map step).max?.getD 0)) fun _ => 1

/-- `node.rank`, from the last node taken to the first. -/
def ranks (g : PlanGraph) : Nat → ℚ :=
  (topo g).reverse.foldl (fun rank id =>
    let own : ℚ := if g.isOpen id then (g.node id).elim 0 PlanNode.work else 0
    Function.update rank id
      (own + (((g.dependents id).filter (· ∉ cyclic g)).map rank).max?.getD 0)) fun _ => 0

theorem closed_of_map {nodes : List PlanNode} {f : PlanNode → PlanNode}
    (hf : ∀ n, (f n).id = n.id) : (nodes.map f).map (·.id) = nodes.map (·.id) := by
  rw [List.map_map]
  exact List.map_congr_left fun n _ => hf n

/-- Write every node; a write leaves the ids, the lanes and the edges alone. -/
def PlanGraph.write (g : PlanGraph) (f : PlanNode → PlanNode) (hid : ∀ n, (f n).id = n.id)
    (hlane : ∀ n, (f n).lane = n.lane) (hexternal : ∀ n, (f n).external = n.external) :
    PlanGraph where
  nodes := g.nodes.map f
  edges := g.edges
  nodup := by
    rw [closed_of_map hid]
    exact g.nodup
  closed := by
    rw [closed_of_map hid]
    exact g.closed
  outside := fun n hn => by
    obtain ⟨m, hm, rfl⟩ := List.mem_map.mp hn
    rw [hlane, hexternal]
    exact g.outside m hm

/-- `_ranks_and_steps`: the graph with its ranks and steps, and the cycles. -/
def ranksAndSteps (g : PlanGraph) : PlanGraph × List Nat :=
  (g.write (fun n =>
      if n.id ∈ topo g then { n with rank := ranks g n.id, step := steps g n.id } else n)
    (fun n => by split <;> rfl) (fun n => by split <;> rfl) (fun n => by split <;> rfl),
   cyclic g)

/-! ## The simulation -/

def ownPool : String := ""

def PlanNode.pool (n : PlanNode) : String := if n.external then n.lane else ownPool

/-- `_priority`, its first component. -/
def PlanNode.turn (n : PlanNode) : Int := if n.holdsLane then -1 else n.phase

/-- `_priority(a) <= _priority(c)`. -/
def priorityLe (a c : PlanNode) : Bool :=
  a.turn < c.turn ∨ a.turn = c.turn ∧
    (-a.rank < -c.rank ∨ -a.rank = -c.rank ∧ a.externalId ≤ c.externalId)

structure Booking where
  node : PlanNode
  start : ℚ
  finish : ℚ
  /-- The ticket whose slot it took. -/
  follows : Option Nat := none

structure Slot where
  freeAt : ℚ
  holder : Option Nat := none

/-- The simulation: the dates given so far, newest first, what still waits for one, the
    slots of each pool, and the clock. -/
structure Sim where
  booked : List Booking
  pending : List PlanNode
  pools : List String
  slots : String → List Slot
  /-- None once nothing more will happen. -/
  clock : Option ℚ

def Sim.booking (s : Sim) (id : Nat) : Option Booking := s.booked.find? (·.node.id = id)

/-- `node.start`. -/
def Sim.startOf (s : Sim) (id : Nat) : Option ℚ := (s.booking id).map (·.start)

/-- `node.finish`. -/
def Sim.finishOf (s : Sim) (id : Nat) : Option ℚ := (s.booking id).map (·.finish)

def Sim.finishedBy (s : Sim) (clock : ℚ) (id : Nat) : Bool := (s.finishOf id).any (· ≤ clock)

/-- `zip(free, sorted(candidates))`: each free slot, in order, takes the next candidate. -/
def fill (clock : ℚ) : List Slot → List PlanNode → List Slot × List Booking
  | [], _ => ([], [])
  | slots, [] => (slots, [])
  | slot :: slots, n :: candidates =>
    if slot.freeAt ≤ clock then
      let rest := fill clock slots candidates
      ({ freeAt := clock + n.work, holder := some n.id } :: rest.1,
        { node := n, start := clock, finish := clock + n.work, follows := slot.holder } :: rest.2)
    else
      let rest := fill clock slots (n :: candidates)
      (slot :: rest.1, rest.2)

def Sim.eligible (g : PlanGraph) (s : Sim) (clock : ℚ) : List PlanNode :=
  s.pending.filter fun n => (g.deps n.id).all (s.finishedBy clock)

/-- `sorted(candidates, key=_priority)`, in one pool. -/
def Sim.candidates (g : PlanGraph) (s : Sim) (clock : ℚ) (pool : String) : List PlanNode :=
  ((s.eligible g clock).filter (·.pool = pool)).insertionSort fun a c => priorityLe a c = true

def Sim.filled (g : PlanGraph) (s : Sim) (clock : ℚ) (pool : String) : List Slot × List Booking :=
  fill clock (s.slots pool) (s.candidates g clock pool)

/-- `_start_free_slots`: the tickets it starts. The pools share no slot and no candidate, so each is
    filled as the pass found it. -/
def Sim.started (g : PlanGraph) (s : Sim) (clock : ℚ) : List Booking :=
  ((s.eligible g clock).map (·.pool)).dedup.flatMap fun pool => (s.filled g clock pool).2

/-- `_start_free_slots`, what it leaves. -/
def Sim.startFreeSlots (g : PlanGraph) (s : Sim) (clock : ℚ) : Sim :=
  { s with
    booked := s.started g clock ++ s.booked
    pending := s.pending.filter fun n => n.id ∉ (s.started g clock).map (·.node.id)
    slots := fun pool => (s.filled g clock pool).1 }

/-- The moments at which a slot frees or a prerequisite of a pending ticket finishes. -/
def Sim.upcoming (g : PlanGraph) (s : Sim) (clock : ℚ) : List ℚ :=
  ((s.pools.flatMap s.slots).map (·.freeAt) ++
    s.pending.flatMap fun n => (g.deps n.id).filterMap s.finishOf).filter (clock < ·)

def Sim.nextEvent (g : PlanGraph) (s : Sim) (clock : ℚ) : Option ℚ := (s.upcoming g clock).min?

/-- One turn of the loop of `_schedule`; none when the loop is left. -/
def Sim.pass (g : PlanGraph) (s : Sim) : Option Sim :=
  match s.clock with
  | none => none
  | some clock =>
    if s.pending = [] then none
    else if s.started g clock = [] then some { s with clock := s.nextEvent g clock }
    else some (s.startFreeSlots g clock)

def topological (g : PlanGraph) (ids : List Nat) : List Nat :=
  Kahn.order (fun id => (g.deps id).filter (· ∈ ids)) (fun id => (g.dependents id).filter (· ∈ ids))
    ids ((ids.filter fun id => (g.deps id).filter (· ∈ ids) = []).insertionSort (· ≤ ·)).reverse

/-- The loop of `_priceable`, at one node. -/
def unpriced (g : PlanGraph) (unknown : List Nat) (id : Nat) : List Nat :=
  if ((g.node id).bind (·.durationDays)) = none ∨ (g.deps id).any (· ∈ unknown) then
    id :: unknown
  else unknown

/-- `open_ids`. -/
def openNodes (g : PlanGraph) (cyclic : List Nat) : List PlanNode :=
  g.nodes.filter fun n => n.status ≠ .done ∧ n.id ∉ cyclic

/-- `_priceable`: open tickets that can be dated. -/
def priceable (g : PlanGraph) (cyclic : List Nat) : List PlanNode :=
  let unknown := (topological g ((openNodes g cyclic).map (·.id))).foldl (unpriced g) cyclic
  (openNodes g cyclic).filter (·.id ∉ unknown)

/-- `_schedule`, at the head of its loop. -/
def simulation (g : PlanGraph) (cyclic : List Nat) (maxParallel : Nat) (now : ℚ) : Sim where
  booked := (g.nodes.filter (·.status = .done)).map fun n =>
    { node := n, start := n.resolvedAt.getD now, finish := n.resolvedAt.getD now }
  pending := priceable g cyclic
  pools := ((priceable g cyclic).map (·.pool)).dedup
  slots := fun pool =>
    match (priceable g cyclic).find? (·.pool = pool) with
    | none => []
    | some n => List.replicate (if n.external then 1 else maxParallel) { freeAt := now }
  clock := some now

/-- The loop of `_schedule`, so many turns of it. -/
def Sim.run (g : PlanGraph) : Nat → Sim → Sim
  | 0, s => s
  | turns + 1, s =>
    match s.pass g with
    | none => s
    | some next => Sim.run g turns next

def schedule (g : PlanGraph) (cyclic : List Nat) (maxParallel : Nat) (now : ℚ)
    (turns : Nat) : Sim :=
  (simulation g cyclic maxParallel now).run g turns

/-! ## The critical path

`_critical_path` of `initiative_graph.py`: the chain behind the last finish, traced back through
what held each start back, a prerequisite or the ticket whose slot it took. -/

/-- `_TOLERANCE`, one second in days. -/
def tolerance : ℚ := 1 / 86400

/-- `max(bookings, key=finish)`: the first of the latest. -/
def latest : List Booking → Option Booking
  | [] => none
  | b :: bookings =>
    some (bookings.foldl (fun best b => if best.finish < b.finish then b else best) b)

/-- The dates of a node that is not done, as far as it has them. -/
def Sim.openBooking (g : PlanGraph) (s : Sim) (id : Nat) : Option Booking :=
  if g.isOpen id then s.booking id else none

/-- What may have held a node back: an open prerequisite, or the ticket whose slot it took. -/
def Sim.gates (g : PlanGraph) (s : Sim) (b : Booking) : List Booking :=
  (g.deps b.node.id).filterMap (s.openBooking g) ++ (b.follows.bind s.booking).toList

/-- The loop of `_critical_path`, so many turns of it. -/
def Sim.trace (g : PlanGraph) (s : Sim) : Nat → Booking → List Nat → List Nat
  | 0, _, chain => chain
  | turns + 1, b, chain =>
    if b.node.id ∈ chain then chain
    else
      match latest (s.gates g b) with
      | none => chain ++ [b.node.id]
      | some gate =>
        if b.start - tolerance ≤ gate.finish then
          Sim.trace g s turns gate (chain ++ [b.node.id])
        else chain ++ [b.node.id]

/-- `_critical_path`: the ids of the chain, first to last. -/
def criticalPath (g : PlanGraph) (s : Sim) : List Nat :=
  match latest (g.ids.filterMap (s.openBooking g)) with
  | none => []
  | some last => (s.trace g (g.nodes.length + 1) last []).reverse

end Loregarden.Plan
