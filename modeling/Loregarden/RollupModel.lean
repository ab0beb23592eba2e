import Loregarden.LaneModel
import Loregarden.TicketWaitModel

/-! # The rollup

`ticket_rollup.py`: a parent's state is read off its children, and an initiative's off its children
and its members. The rows stand in the order in which a query without `ORDER BY` returns them, which
is any order; a ticket id is a UUID the code compares, so a number stands for it, and one sweep or
one walk reads the clock once. Columns that no function here reads are left out, and so are the
events a walk publishes after its commit. -/

namespace Loregarden.Rollup

open Ranked
open Lanes (TicketState Instant)
open TicketWait (WorkItemType)

inductive BlockKind where
  | harness | work | decision | humanAction
  /-- Another ticket has to move first; written by the rollup only. -/
  | tickets
  | conflict
  deriving DecidableEq

structure Ticket where
  id : Nat
  parentTicketId : Option Nat := none
  workItemType : WorkItemType := .feature
  state : TicketState := .backlog
  stateLocked : Bool := false
  blockKind : Option BlockKind := none
  priority : Int := 0
  createdAt : Instant := 0
  revision : Nat := 0
  lastUpdatedBy : String := ""
  resolvedAt : Option Instant := none
  deriving DecidableEq

/-- A ticket an initiative tracks without parenting it. -/
structure InitiativeMember where
  initiativeId : Nat
  ticketId : Nat

structure Database where
  tickets : Keyed Ticket Ticket.id
  members : List InitiativeMember

/-- `session.get(Ticket, id)`. -/
def Database.get (db : Database) (id : Nat) : Option Ticket := db.tickets.get id

/-! ## Writing a state -/

def resolvedStates : List TicketState := [.done, .wontDo]

/-- `_write`. -/
def writeState (ticket : Ticket) (target : TicketState) (actor : String) (now : Instant) :
    Bool × Ticket :=
  if ticket.state = target then (false, ticket)
  else
    (true, { ticket with
      state := target
      revision := ticket.revision + 1
      lastUpdatedBy := actor
      resolvedAt :=
        if target ∉ resolvedStates then none
        else if ticket.state ∉ resolvedStates then some now
        else ticket.resolvedAt })

def Ticket.writable (ticket : Ticket) : Bool :=
  ¬ (ticket.stateLocked ∨ ticket.state = .wontDo ∨ ticket.state = .parked)

/-- `derive`: recompute a state; whether it changed. -/
def derive (ticket : Ticket) (target : TicketState) (actor : String) (now : Instant) :
    Bool × Ticket :=
  if ticket.writable then writeState ticket target actor now else (false, ticket)

def deriveParentState (childStates : List TicketState) : Option TicketState :=
  if childStates = [] then none
  else if childStates.any (· = .blocked) then some .blocked
  else if childStates.all (· ∈ resolvedStates) then some .done
  else if childStates.any (· ≠ .backlog) then some .inProgress
  else some .backlog

/-- `_stamp_tickets_kind`: only a kind the rollup owns is ever replaced. -/
def stampTicketsKind (parent : Ticket) (target : TicketState) : Bool × Ticket :=
  let rolledUp := parent.state = .blocked ∧ target = .blocked
  if rolledUp ∧ parent.blockKind = none then
    (true, { parent with blockKind := some .tickets })
  else if ¬ rolledUp ∧ parent.blockKind = some .tickets then
    (true, { parent with blockKind := none })
  else (false, parent)

/-- `reconcile_parent`, past its read of the child states. -/
def reconcileRow (parent : Ticket) (childStates : List TicketState) (now : Instant) :
    Bool × Ticket :=
  match deriveParentState childStates with
  | none => (false, parent)
  | some target =>
    let moved := derive parent target "rollup" now
    let stamped := stampTicketsKind moved.2 target
    (stamped.1 || moved.1, stamped.2)

theorem writeState_id (ticket : Ticket) (target : TicketState) (actor : String) (now : Instant) :
    (writeState ticket target actor now).2.id = ticket.id := by
  rw [writeState]
  split <;> rfl

theorem derive_id (ticket : Ticket) (target : TicketState) (actor : String) (now : Instant) :
    (derive ticket target actor now).2.id = ticket.id := by
  rw [derive]
  split
  · exact writeState_id _ _ _ _
  · rfl

theorem stampTicketsKind_id (parent : Ticket) (target : TicketState) :
    (stampTicketsKind parent target).2.id = parent.id := by
  rw [stampTicketsKind]
  split
  · rfl
  · split <;> rfl

theorem reconcileRow_id (parent : Ticket) (childStates : List TicketState) (now : Instant) :
    (reconcileRow parent childStates now).2.id = parent.id := by
  rw [reconcileRow]
  split
  · rfl
  · exact (stampTicketsKind_id _ _).trans (derive_id _ _ _ _)

def Database.children (db : Database) (id : Nat) : List Ticket :=
  db.tickets.rows.filter (·.parentTicketId = some id)

def Database.memberTickets (db : Database) (id : Nat) : List Ticket :=
  (db.members.filter (·.initiativeId = id)).filterMap fun member => db.get member.ticketId

/-- `_order`: priority, then age. -/
def orderedBefore (a c : Ticket) : Bool :=
  a.priority < c.priority ∨ a.priority = c.priority ∧
    (a.createdAt < c.createdAt ∨ a.createdAt = c.createdAt ∧ a.id ≤ c.id)

/-- `initiative_roots`: an initiative's children and its members, one order. -/
def initiativeRoots (db : Database) (id : Nat) : List Ticket :=
  (db.children id ++
      (db.memberTickets id).filter fun ticket => ticket.id ∉ (db.children id).map (·.id)).dedup
    |>.insertionSort fun a c => orderedBefore a c = true

def childStates (db : Database) (parentId : Nat) : List TicketState :=
  if (db.get parentId).any (·.workItemType = .initiative) then
    (initiativeRoots db parentId).map (·.state)
  else (db.children parentId).map (·.state)

/-- `reconcile_parent`: align one parent with its children; whether it changed. -/
def reconcileParent (db : Database) (parentId : Nat) (now : Instant) : Bool × Database :=
  match db.get parentId with
  | none => (false, db)
  | some parent =>
    ((reconcileRow parent (childStates db parentId) now).1,
      { db with
        tickets := db.tickets.update parentId
          (fun row => (reconcileRow row (childStates db parentId) now).2)
          fun row => reconcileRow_id row _ _ })

/-- `initiatives_tracking`: initiatives holding any of the tickets as a member. -/
def initiativesTracking (db : Database) (ticketIds : List Nat) : List Nat :=
  ((db.members.filter (·.ticketId ∈ ticketIds)).map (·.initiativeId)).dedup.insertionSort (· ≤ ·)

/-- What a walk has done: the tables, the tickets it changed, and those it has seen. -/
structure Walk where
  db : Database
  changed : List Nat := []
  seen : List Nat

/-- The chain of `reconcile_ancestors`: stops at the first ancestor that does not move. -/
def climb (now : Instant) : Nat → Option Nat → Walk → Walk
  | 0, _, walk => walk
  | _ + 1, none, walk => walk
  | fuel + 1, some parentId, walk =>
    if parentId ∈ walk.seen then walk
    else
      match walk.db.get parentId with
      | none => { walk with seen := parentId :: walk.seen }
      | some parent =>
        let reconciled := reconcileParent walk.db parentId now
        let seen := parentId :: walk.seen
        if ¬ reconciled.1 then { walk with db := reconciled.2, seen := seen }
        else
          climb now fuel parent.parentTicketId
            { db := reconciled.2, changed := walk.changed ++ [parentId], seen := seen }

/-- `_reconcile_tracking`, at one initiative. -/
def reconcileTracking (now : Instant) (walk : Walk) (initiativeId : Nat) : Walk :=
  if initiativeId ∈ walk.seen then walk
  else
    let reconciled := reconcileParent walk.db initiativeId now
    { db := reconciled.2
      changed := if reconciled.1 then walk.changed ++ [initiativeId] else walk.changed
      seen := initiativeId :: walk.seen }

/-- `reconcile_ancestors`: the whole chain above a changed ticket, and the initiatives that track a
    ticket that moved. Every step of the chain sees a row it had not seen, so no chain is longer
    than the table. -/
def reconcileAncestors (db : Database) (ticket : Ticket) (now : Instant) : Walk :=
  let walk := climb now (db.tickets.rows.length + 1) ticket.parentTicketId
    { db := db, seen := [ticket.id] }
  (initiativesTracking walk.db (ticket.id :: walk.changed)).foldl (reconcileTracking now) walk

/-- Someone else's write: one ticket's state changes to any value, and with it, or not,
    what says who owns the state. -/
def Database.setState (db : Database) (id : Nat) (state : TicketState) (stateLocked : Bool)
    (blockKind : Option BlockKind) : Database :=
  { db with
    tickets := db.tickets.update id
      (fun row => { row with state := state, stateLocked := stateLocked, blockKind := blockKind })
      fun _ => rfl }

/-- The tickets that some other ticket is summarised by: parents, and initiatives with a member. -/
def summarising (db : Database) : List Ticket :=
  db.tickets.rows.filter fun ticket =>
    ticket.id ∈ db.tickets.rows.filterMap (·.parentTicketId) ∨
      ticket.id ∈ db.members.map (·.initiativeId)

/-- The steps of `depth`: parents above, among those that are swept. -/
def stepsAbove (parents : List Ticket) : Nat → List Nat → Option Nat → Nat
  | 0, _, _ => 0
  | _ + 1, _, none => 0
  | fuel + 1, seen, some current =>
    if current ∈ seen then 0
    else
      1 + stepsAbove parents fuel (current :: seen)
        ((parents.find? (·.id = current)).bind (·.parentTicketId))

/-- `depth`; no chain sees more than the swept parents and one ticket above them. -/
def depth (parents : List Ticket) (parent : Ticket) : Nat :=
  stepsAbove parents (parents.length + 2) [parent.id] parent.parentTicketId

/-- The parents in the order of the sweep: deepest first. -/
def sweepOrder (db : Database) : List Ticket :=
  (summarising db).insertionSort fun a c => depth (summarising db) c ≤ depth (summarising db) a

/-- `reconcile_all_parents`, at one parent. -/
def sweepOne (now : Instant) (done : List Nat × Database) (parent : Ticket) : List Nat × Database :=
  let reconciled := reconcileParent done.2 parent.id now
  (if reconciled.1 then done.1 ++ [parent.id] else done.1, reconciled.2)

/-- `reconcile_all_parents`: the tickets it changed, and the tables. -/
def reconcileAllParents (db : Database) (now : Instant) : List Nat × Database :=
  (sweepOrder db).foldl (sweepOne now) ([], db)

end Loregarden.Rollup
