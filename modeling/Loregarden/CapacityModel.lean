import Mathlib.Data.List.MinMax
import Loregarden.CapacityAmounts

/-! # The capacity ledger: rows, pools and the line

The tables of `docker_tables.py` and the primitives of `docker_ledger.py` and `docker_leases.py`
over them: what a lease is charged, the conditional UPDATE that books a pool, the write that gives a
booking back, the counter that hands out places in line, and the drain, which is the only granter.

A lease id is a fresh UUID, so the place of the row in its table stands for it; a run id is compared
and never taken apart, so a number stands for it, and a missing or empty one is `none`. The cpus,
memory and count columns of one amount are one `Weights` or `Booking`. `load_pool` creates a missing
pool row with its defaults, so both rows are always there. Time is whole seconds; one reading of the
clock stands for those of one call.

`clampChanged` is no column: it records whether a clamp at zero has ever changed a value. -/

namespace Loregarden.Capacity

abbrev LeaseId := Nat
abbrev RunId := Nat
abbrev Instant := Int

inductive CapacityPool where
  | docker | host
  deriving DecidableEq

inductive CapacityResource where
  | cpus | memoryMb | slots

inductive DockerFootprint where
  | none | light | service | stack | heavy | custom
  deriving DecidableEq

inductive DockerLeaseStatus where
  | waiting | held | released | orphaned
  deriving DecidableEq

inductive DockerHolderKind where
  | agentRun | orchestration | adHoc
  deriving DecidableEq

inductive DockerLeaseEndReason where
  | released | parkReleased | runCompleted | ttlExpired | pidGone | containersGone
  | abandoned | forceReleased | parentReleased | commandNotRun
  deriving DecidableEq

inductive DockerCeilingSource where
  | probe | staleProbe | configOverride | unknown
  deriving DecidableEq

structure DockerLease where
  status : DockerLeaseStatus := .waiting
  holderKind : DockerHolderKind := .adHoc
  holderLabel : String := ""
  agentRunId : Option RunId := none
  orchestrationRunId : Option RunId := none
  holderPid : Option Int := none
  parentLeaseId : Option LeaseId := none
  /-- The part of the price the parent's unused allotment paid for. -/
  covered : Weights := 0
  takesSlot : Bool := true
  /-- On a parent: what its live children have drawn from it. -/
  childCovered : Weights := 0
  pool : CapacityPool := .docker
  footprint : DockerFootprint := .custom
  /-- The resolved price. -/
  price : Weights := 0
  composeProject : String := ""
  containerNames : List String := []
  position : Nat := 0
  ttlSeconds : Int := 900
  requestedAt : Instant := 0
  grantedAt : Option Instant := none
  expiresAt : Option Instant := none
  lastRenewedAt : Option Instant := none
  lastPolledAt : Option Instant := none
  releasedAt : Option Instant := none
  endReason : Option DockerLeaseEndReason := none
  lastProbeAt : Option Instant := none
  lastProbeOutcome : String := ""
  lastProbeError : String := ""
  runningContainerCount : Option Nat := none
  note : String := ""
  deriving DecidableEq

structure Ceiling where
  cpus : Rat := 0
  memoryMb : Int := 0
  leases : Int := 0
  source : DockerCeilingSource := .unknown
  probedAt : Option Instant := none
  error : String := ""

def Ceiling.known (c : Ceiling) : Bool := c.source ≠ .unknown

def Ceiling.limit (c : Ceiling) : Booking := ⟨c.cpus, c.memoryMb, c.leases⟩

structure DockerCapacityPool where
  held : Booking := 0
  ceiling : Ceiling := {}
  revision : Nat := 0
  nextPosition : Nat := 1

structure Database where
  dockerPool : DockerCapacityPool := {}
  hostPool : DockerCapacityPool := {}
  leases : List DockerLease := []
  clampChanged : Bool := false

namespace Database

/-- `load_pool`. -/
def pool (db : Database) : CapacityPool → DockerCapacityPool
  | .docker => db.dockerPool
  | .host => db.hostPool

def setPool (db : Database) (name : CapacityPool) (row : DockerCapacityPool) : Database :=
  match name with
  | .docker => { db with dockerPool := row }
  | .host => { db with hostPool := row }

def update (db : Database) (id : LeaseId) (f : DockerLease → DockerLease) : Database :=
  { db with leases := db.leases.modify id f }

def insert (db : Database) (lease : DockerLease) : Database :=
  { db with leases := db.leases ++ [lease] }

/-- The rows a query selects, with their ids, in the order of the table. -/
def select (db : Database) (p : DockerLease → Bool) : List (DockerLease × LeaseId) :=
  db.leases.zipIdx.filter (fun row => p row.1)

end Database

/-! ## `docker_ledger.py` -/

/-- `OCCUPYING`: the statuses that count against the ceiling. -/
def DockerLeaseStatus.occupying : DockerLeaseStatus → Bool
  | .held | .orphaned => true
  | .waiting | .released => false

/-- `CHARGED_POOLS`: the pools a claim is booked against. -/
def chargedPools : CapacityPool → List CapacityPool
  | .docker => [.docker, .host]
  | .host => [.host]

/-- `CHARGED_BY`: which lease pools each pool is charged by. -/
def chargedBy (pool : CapacityPool) : List CapacityPool :=
  [CapacityPool.docker, .host].filter (fun claim => pool ∈ chargedPools claim)

/-- A lease's price less what its parent's grant covered. -/
def booked (lease : DockerLease) : Booking :=
  .of (lease.price - lease.covered) (if lease.takesSlot then 1 else 0)

/-- What a waiter must find free: its whole price, and its slot. -/
def claimOf (lease : DockerLease) : Booking := .of lease.price (booked lease).count

structure Shortfall where
  pool : CapacityPool
  resource : CapacityResource
  needed : Rat
  free : Rat

/-- Every dimension `lease` does not fit in `pool`; empty when it fits. -/
def shortfalls (name : CapacityPool) (pool : DockerCapacityPool) (lease : DockerLease) :
    List Shortfall :=
  let checks : List (CapacityResource × Rat × Rat × Rat) :=
    [(.cpus, lease.price.cpus, pool.held.cpus, pool.ceiling.cpus),
      (.memoryMb, lease.price.memoryMb, pool.held.memoryMb, pool.ceiling.memoryMb),
      (.slots, (booked lease).count, pool.held.count, pool.ceiling.leases)]
  (checks.filter (fun c => c.2.2.1 + c.2.1 > c.2.2.2)).map
    (fun c => ⟨name, c.1, c.2.1, max 0 (c.2.2.2 - c.2.2.1)⟩)

def lastSeenAt (lease : DockerLease) : Instant :=
  ([lease.lastPolledAt, lease.lastRenewedAt].filterMap id).foldl max lease.requestedAt

/-! ## `docker_leases.py`: pool primitives -/

/-- What a call finds outside the database: the clock, what a measurement of a
    pool answers (given the ceiling before it), which pids are alive, and how
    many more turns a contended claim takes before its budget is spent. -/
structure Surroundings where
  now : Instant
  measured : CapacityPool → Ceiling → Ceiling
  pidAlive : Int → Bool
  retries : Nat

/-- Re-measure one pool and record the result on its row. -/
def refreshCeiling (env : Surroundings) (db : Database) (name : CapacityPool) : Database :=
  db.setPool name
    { db.pool name with ceiling := env.measured name (db.pool name).ceiling }

def repairedTotals (db : Database) (name : CapacityPool) : Booking :=
  let rows := db.leases.filter (fun l => l.status.occupying ∧ l.pool ∈ chargedBy name)
  ⟨(rows.map (fun l => l.price.cpus - l.covered.cpus)).sum,
    (rows.map (fun l => l.price.memoryMb - l.covered.memoryMb)).sum,
    (rows.filter (·.takesSlot)).length⟩

/-- What the ledger says a lease's live children have drawn. -/
def repairedCover (db : Database) (id : LeaseId) : Weights :=
  let rows := db.leases.filter (fun c => c.parentLeaseId = some id ∧ c.status.occupying)
  ⟨(rows.map (·.covered.cpus)).sum, (rows.map (·.covered.memoryMb)).sum⟩

def repairTotals (db : Database) (name : CapacityPool) : Database :=
  db.setPool name
    { db.pool name with
      held := repairedTotals db name
      revision := (db.pool name).revision + 1 }

/-- Recompute every pool's totals, and every parent's drawn total, from the ledger. -/
def repairPool (db : Database) : Database :=
  let db := repairTotals (repairTotals db .docker) .host
  { db with
    leases := db.leases.mapIdx (fun id l =>
      if l.status.occupying then { l with childCovered := repairedCover db id } else l) }

/-- Book an amount against one pool, or say it did not fit: one UPDATE whose
    WHERE clause holds the revision and every dimension. -/
def claimPoolCapacity (db : Database) (name : CapacityPool) (booking : Booking)
    (revision : Nat) : Option Database :=
  let row := db.pool name
  if row.revision = revision ∧ row.held + booking ≤ row.ceiling.limit then
    some (db.setPool name
      { row with held := row.held + booking, revision := row.revision + 1 })
  else none

/-- One transaction: every pool is booked, or none is. -/
def claimPools (db : Database) (pools : List CapacityPool) (booking : Booking)
    (revisions : CapacityPool → Nat) : Option Database :=
  pools.foldlM (fun db name => claimPoolCapacity db name booking (revisions name)) db

/-- Give an amount back to one pool, clamped at zero. -/
def returnToPool (db : Database) (name : CapacityPool) (booking : Booking) : Database :=
  let row := db.pool name
  let left := row.held - booking
  { db.setPool name { row with held := left.atLeastZero, revision := row.revision + 1 } with
    clampChanged := db.clampChanged || left.atLeastZero ≠ left }

/-- `_return_capacity`: give a lease's booking back to every pool it was charged to. -/
def returnCapacity (db : Database) (lease : DockerLease) : Database :=
  (chargedPools lease.pool).foldl (fun db name => returnToPool db name (booked lease)) db

/-- `_return_cover`: hand a child's covered share back to its parent, clamped at zero. -/
def returnCover (db : Database) (parentId : LeaseId) (child : DockerLease) : Database :=
  let changed := (db.leases[parentId]?).any (fun p =>
    (p.childCovered - child.covered).atLeastZero ≠ p.childCovered - child.covered)
  { db.update parentId
      (fun p => { p with childCovered := (p.childCovered - child.covered).atLeastZero }) with
    clampChanged := db.clampChanged || changed }

/-! ## `docker_leases.py`: the line -/

/-- `_take_position`: the next place in line. The counter of the docker row serves both pools. -/
def takePosition (db : Database) : Database × Nat :=
  (db.setPool .docker
    { db.pool .docker with nextPosition := (db.pool .docker).nextPosition + 1 },
    (db.pool .docker).nextPosition)

def waiters (db : Database) : List (DockerLease × LeaseId) :=
  db.select (fun l => l.status = .waiting)

/-- `ORDER BY position LIMIT 1`. -/
def firstByPosition (rows : List (DockerLease × LeaseId)) : Option (DockerLease × LeaseId) :=
  rows.argmin (fun row => row.1.position)

/-- `_head_waiter`: the front of the line as it stands now. -/
def headWaiter (db : Database) : Option (DockerLease × LeaseId) := firstByPosition (waiters db)

/-- One try at a lease's price, against the revisions as they stand. -/
def bookOnce (db : Database) (lease : DockerLease) : Option Database :=
  claimPools db (chargedPools lease.pool) (claimOf lease) (fun name => (db.pool name).revision)

def isFull (db : Database) (lease : DockerLease) : Bool :=
  (chargedPools lease.pool).any (fun name => shortfalls name (db.pool name) lease ≠ [])

/-- `_book_capacity_for`: book a lease's price against its pools. A miss means "the pool moved under
    this read" or "it is full", and the numbers say which; only the first is tried again. -/
def bookCapacityFor (db : Database) (lease : DockerLease) : Nat → Option Database
  | 0 => bookOnce db lease
  | retries + 1 =>
    match bookOnce db lease with
    | some booked => some booked
    | none => if isFull db lease then none else bookCapacityFor db lease retries

/-- What `_claim_promotion` writes. -/
def promoted (now : Instant) (lease : DockerLease) : DockerLease :=
  { lease with
    status := .held
    grantedAt := some now
    lastRenewedAt := some now
    expiresAt := some (now + lease.ttlSeconds)
    position := 0 }

/-- `_claim_promotion`: grant one waiter, or report that a peer got there first. -/
def claimPromotion (env : Surroundings) (db : Database) (id : LeaseId) : Option Database :=
  match db.leases[id]? with
  | none => none
  | some lease =>
    if lease.status = .waiting then some (db.update id (promoted env.now)) else none

/-- The loop of `drain_waiters`, for a number of turns; the answer lists the ids promoted. -/
def drainLoop (env : Surroundings) : Nat → Database → Database × List LeaseId
  | 0, db => (db, [])
  | turns + 1, db =>
    match headWaiter db with
    | none => (db, [])
    | some (lease, id) =>
      match bookCapacityFor db lease env.retries with
      | none => (db, [])
      | some booked =>
        match claimPromotion env booked id with
        | none => drainLoop env turns (returnCapacity booked lease)
        | some granted =>
          let (db, rest) := drainLoop env turns granted
          (db, id :: rest)

/-- `drain_waiters`. Every turn but the last promotes a waiter. -/
def drainWaiters (env : Surroundings) (db : Database) : Database × List LeaseId :=
  drainLoop env ((waiters db).length + 1) db

end Loregarden.Capacity
