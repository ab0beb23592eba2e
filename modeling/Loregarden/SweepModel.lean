import Loregarden.OwnershipProofs

/-! # Sweeping the slots while others use them

`reconcile_slots` and `claim_orphaned_orchestrations` read the slots, decide, and write later; other
sessions complete, claim and bind in between. A write goes to the row's id and sets the columns the
session changed: an id column that was null when it was read is not written. A write to a row that
is gone fails, and with it the sweep. -/

namespace Loregarden.Lanes

open Ranked Runs

/-- `_occupant_is_live`, past its check for a repair hold. -/
def inFlight (o : Outside) (s : AgentSlot) : Bool :=
  match s.currentOrchestrationRunId, s.currentRunId with
  | some orch, _ => (o.orchestration orch).any fun orch => orch.status.live && !orch.leaseExpired
  | none, some run => (o.run run).any (·.status.live)
  | none, none => claimIsFresh s (some o.now) none

def Outside.orchestrationOver (o : Outside) (id : Nat) : Bool :=
  (o.orchestration id).all fun orch => !orch.status.live

def Outside.runOver (o : Outside) (id : Nat) : Bool := (o.run id).all fun run => !run.status.live

/-- The slots `reconcile_slots` frees. -/
def deadSlots (b : Board) : List AgentSlot :=
  b.slots.filter fun s => ¬ s.isAvailable ∧ ¬ occupantIsLive b s

/-- The orchestrations among them that are live and whose lease had run out. -/
def lapsedAmong (o : Outside) (rows : List AgentSlot) : List Nat :=
  (rows.filterMap (·.currentOrchestrationRunId)).filter fun id => ¬ o.orchestrationOver id

/-- The orphans `claim_orphaned_orchestrations` adopts, each with the free slot it is to have. -/
def orphanClaims (b : Board) : List (OrchestrationRun × Nat) :=
  let held := heldOrchestrations b
  let orphans := b.outside.orchestrations.filter fun run =>
    run.status.live ∧ run.id ∉ held ∧ ¬ coveredByAncestor b.outside held run.ticketId
      ∧ ticketsHoldingLanes b none run.ticketId = []
  orphans.zip (((b.slots.filter (·.isAvailable)).map (·.slotNumber)).insertionSort (· ≤ ·))

/-! ## Sweeps under way -/

inductive Sweep where
  /-- `reconcile_slots`: the rows it frees, and the leases it saw run out. -/
  | slots (dead : List AgentSlot) (lapsed : List Nat)
  /-- `claim_orphaned_orchestrations`: the orphans and the free rows they get. -/
  | orphans (pairs : List (OrchestrationRun × AgentSlot))

/-- The columns a sweep that read `row` writes to give the slot back. -/
def AgentSlot.givenBack (row s : AgentSlot) : AgentSlot :=
  { s with
    isAvailable := true
    currentRunId := if row.currentRunId.isSome then none else s.currentRunId
    currentOrchestrationRunId :=
      if row.currentOrchestrationRunId.isSome then none else s.currentOrchestrationRunId }

/-- The columns a pass that read `row` writes to point the slot at an orphan. -/
def AgentSlot.adopted (row : AgentSlot) (orch : Nat) (now : Instant) (s : AgentSlot) : AgentSlot :=
  { s with
    isAvailable := false
    currentOrchestrationRunId := some orch
    currentRunId := if row.currentRunId.isSome then none else s.currentRunId
    assignedAt := some now }

def giveBack (b : Board) (row : AgentSlot) : Board := b.updateSlot row.slotNumber row.givenBack

def adopt (b : Board) (p : OrchestrationRun × AgentSlot) : Board :=
  { b.updateSlot p.2.slotNumber (p.2.adopted p.1.id b.outside.now) with
    entries := ensureActiveEntry b.outside b.entries p.2.slotNumber p.1.id }

def Board.hasSlot (b : Board) (row : AgentSlot) : Bool := (b.slot row.slotNumber).isSome

def Sweep.write (b : Board) : Sweep → Board
  | .slots dead _ => if dead.all b.hasSlot then dead.foldl giveBack b else b
  | .orphans pairs => if pairs.all fun p => b.hasSlot p.2 then pairs.foldl adopt b else b

structure Sweeping where
  board : Board
  pending : List Sweep

inductive SweepCall where
  | readSlots
  | readOrphans
  /-- The writes of the `k`-th sweep under way. -/
  | write (k : Nat)
  | onOrchestrationComplete (orch : Nat)
  | claimFreeSlot (preferred : Option Nat)
  | claimLaneSlot (n : Nat)
  | bind (res : Reservation) (run orch : Option Nat)

def SweepCall.isSweep : SweepCall → Bool
  | .readSlots | .readOrphans | .write _ => true
  | _ => false

def Sweeping.readSlots (s : Sweeping) : Sweeping :=
  let dead := deadSlots s.board
  { s with pending := s.pending ++ [.slots dead (lapsedAmong s.board.outside dead)] }

def Sweeping.readOrphans (L : LaneService) (s : Sweeping) : Sweeping :=
  let b := initializeSlots L s.board
  { board := b
    pending := s.pending ++
      [.orphans ((orphanClaims b).filterMap fun p => (b.slot p.2).map fun row => (p.1, row))] }

def Sweeping.write (s : Sweeping) (k : Nat) : Sweeping :=
  s.pending[k]?.elim s fun sweep =>
    { board := sweep.write s.board, pending := s.pending.eraseIdx k }

def SweepCall.serve (L : LaneService) (s : Sweeping) : SweepCall → Sweeping
  | .readSlots => s.readSlots
  | .readOrphans => s.readOrphans L
  | .write k => s.write k
  | .onOrchestrationComplete orch =>
    { s with board := Lanes.onOrchestrationComplete L s.board orch }
  | .claimFreeSlot preferred =>
    { s with board := (Lanes.claimFreeSlot s.board preferred).elim s.board Prod.fst }
  | .claimLaneSlot n => { s with board := (Lanes.claimLaneSlot s.board n).getD s.board }
  | .bind res run orch => { s with board := (res.bind s.board run orch).1 }

/-! ## The rest of the program -/

structure Outside.Onward (o o' : Outside) : Prop where
  clock : o.now ≤ o'.now
  orchestrations : ∀ id, o.orchestrationOver id = true → o'.orchestrationOver id = true
  runs : ∀ id, o.runOver id = true → o'.runOver id = true

/-- A dispatch, or the preparation of a re-run, revives nothing. -/
structure LaneService.Onward (L : LaneService) : Prop where
  prepare : ∀ ticket (o : Outside), o.Onward (L.prepareRerun ticket o).2
  stage : ∀ d, L.dispatcher = some d → ∀ ticket e (o : Outside),
    o.Onward (d.dispatchStage ticket e o).2
  whole : ∀ d, L.dispatcher = some d → ∀ ticket ask (o : Outside),
    o.Onward (d.dispatchOrchestration ticket ask o).2

def Sweeping.standing (s : Sweeping) (o : Outside) : Sweeping :=
  { s with board := { s.board with outside := o } }

def SweepStep (L : LaneService) (s : Sweeping) (step : Outside × SweepCall) (s' : Sweeping) :
    Prop :=
  s.board.outside.Onward step.1 ∧ s' = step.2.serve L (s.standing step.1)

/-- What a sweep decided still stands: a row it frees is as it was read, or free already, and no
    lease it saw run out was renewed; a row it gives to an orphan is still free. -/
def Sweep.Stands (b : Board) (o : Outside) : Sweep → Prop
  | .slots dead lapsed =>
    (∀ row ∈ dead, ∀ slot ∈ b.slot row.slotNumber, slot = row ∨ slot.isAvailable = true) ∧
      ∀ id ∈ lapsed, ∀ orch ∈ o.orchestration id, orch.status.live = true → orch.leaseExpired = true
  | .orphans pairs => ∀ p ∈ pairs, ∀ slot ∈ b.slot p.2.slotNumber, slot.isAvailable = true

/-- The condition on a step: a sweep writes only what still stands. -/
def Undisturbed (s : Sweeping) (step : Outside × SweepCall) : Prop :=
  ∀ k, step.2 = .write k → ∀ sweep ∈ s.pending[k]?, sweep.Stands s.board step.1

abbrev UndisturbedStep (L : LaneService) : Sweeping → Outside × SweepCall → Sweeping → Prop :=
  Guarded (SweepStep L) Undisturbed

/-- Taken, and its occupant is live, or it was claimed within the grace and names nobody yet. -/
def Occupied (o : Outside) (s : AgentSlot) : Prop := s.isAvailable = false ∧ inFlight o s = true

end Loregarden.Lanes
