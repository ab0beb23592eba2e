import Mathlib.Data.Rat.Floor
import Mathlib.Data.List.Sort
import Loregarden.CapacityModel

/-! # How long a queued claim will wait

    `docker_wait_estimate.py`, over the ledger's tables.  Time is exact: a moment is a rational
    number of seconds from now, and only the reported wait is a whole one.  The lookback of the
    history is given. -/

namespace Loregarden.DockerWait

open Capacity

/-- `round`, to the even one of two equally near. -/
def pyRound (q : ℚ) : ℤ :=
  if q - ⌊q⌋ < 1 / 2 then ⌊q⌋
  else if 1 / 2 < q - ⌊q⌋ then ⌊q⌋ + 1
  else if ⌊q⌋ % 2 = 0 then ⌊q⌋ else ⌊q⌋ + 1

/-- `statistics.median`, of something. -/
def median (xs : List ℚ) : ℚ :=
  let data := xs.insertionSort (· ≤ ·)
  if data.length % 2 = 1 then data.getD (data.length / 2) 0
  else (data.getD (data.length / 2 - 1) 0 + data.getD (data.length / 2) 0) / 2

/-- Seconds that leases were held, by footprint and overall. -/
structure HoldStats where
  byFootprint : CapacityPool → DockerFootprint → List ℚ
  overall : List ℚ

def HoldStats.predict (stats : HoldStats) (pool : CapacityPool) (footprint : DockerFootprint)
    (heldFor : ℚ) : Option ℚ :=
  let history := if stats.byFootprint pool footprint = [] then stats.overall
    else stats.byFootprint pool footprint
  let longer := history.filter (heldFor < ·)
  if longer = [] then none else some (median longer - heldFor)

def cleanReleases : List DockerLeaseEndReason := [.released, .runCompleted]

/-- The seconds one lease teaches, where it teaches any. -/
def observedHold (cutoff : Instant) (lease : DockerLease) : Option ℚ :=
  if lease.status = .released ∧ lease.endReason.any (· ∈ cleanReleases) then
    match lease.grantedAt, lease.releasedAt with
    | some granted, some released =>
      if released < cutoff ∨ released - granted ≤ 0 then none else some (released - granted : ℤ)
    | _, _ => none
  else none

def observedHoldTimes (db : Database) (now lookback : Instant) : HoldStats where
  byFootprint pool footprint :=
    (db.leases.filter fun l => l.pool = pool ∧ l.footprint = footprint).filterMap
      (observedHold (now - lookback))
  overall := db.leases.filterMap (observedHold (now - lookback))

inductive DockerWaitBasis where
  | history | ttlBound | unknown
  deriving DecidableEq

structure WaitEstimate where
  seconds : Option ℤ
  basis : DockerWaitBasis

def unknownWait : WaitEstimate := { seconds := none, basis := .unknown }

/-- A lease occupying capacity, and when it is expected to give it back. -/
structure Holder where
  booking : Booking
  pools : List CapacityPool
  /-- Seconds from now; none where nothing predicts it. -/
  releasesIn : Option ℚ
  basis : DockerWaitBasis := .unknown
  deriving DecidableEq

/-- One row of `_holders`. -/
def holderOf (stats : HoldStats) (now : Instant) (lease : DockerLease) : Holder :=
  let remaining := lease.grantedAt.bind fun granted =>
    stats.predict lease.pool lease.footprint (max 0 ((now - granted : ℤ) : ℚ))
  match remaining with
  | some seconds =>
    { booking := booked lease, pools := chargedPools lease.pool, releasesIn := some seconds,
      basis := .history }
  | none =>
    match lease.expiresAt with
    | some expires =>
      { booking := booked lease, pools := chargedPools lease.pool,
        releasesIn := some (max 0 ((expires - now : ℤ) : ℚ)), basis := .ttlBound }
    | none =>
      { booking := booked lease, pools := chargedPools lease.pool, releasesIn := none }

def holders (db : Database) (stats : HoldStats) (now : Instant) : List Holder :=
  (db.select fun l => l.status.occupying).map fun row => holderOf stats now row.1

def line (db : Database) : List (DockerLease × LeaseId) :=
  (waiters db).insertionSort fun a b => a.1.position ≤ b.1.position

/-- The projection as it walks the line: what each pool has free, who holds what, the clock, and
    whether nothing behind can be told. -/
structure Walk where
  free : CapacityPool → Booking
  holders : List Holder
  clock : ℚ := 0
  basis : DockerWaitBasis := .history
  blind : Bool := false

/-- `all(free[name].fits(waiter) for name in charged)`. -/
def Walk.fits (w : Walk) (lease : DockerLease) : Bool :=
  (chargedPools lease.pool).all fun name => claimOf lease ≤ w.free name

/-- `_Free.add`, in some pools. -/
def addIn (free : CapacityPool → Booking) (pools : List CapacityPool) (booking : Booking) :
    CapacityPool → Booking :=
  fun name => if name ∈ pools then free name + booking else free name

/-- `min(pending, key=…)`: the first of the holders with the least predicted release. -/
def soonest (holders : List Holder) : Option Holder :=
  (holders.filter fun h => h.releasesIn.isSome).argmin fun h => h.releasesIn.getD 0

def Walk.turn (w : Walk) : Walk :=
  match soonest w.holders with
  | none => { w with blind := true }
  | some h =>
    if w.holders.any (fun other => other.releasesIn.isNone) then { w with blind := true }
    else
      { w with
        clock := max w.clock (h.releasesIn.getD 0)
        basis := if h.basis = .ttlBound then .ttlBound else w.basis
        free := addIn w.free h.pools h.booking
        holders := w.holders.erase h }

/-- The inner loop, for a number of turns; every turn takes a holder out or goes blind. -/
def Walk.await (lease : DockerLease) : ℕ → Walk → Walk
  | 0, w => w
  | turns + 1, w => if w.blind || w.fits lease then w else Walk.await lease turns w.turn

def Walk.start (stats : HoldStats) (w : Walk) (lease : DockerLease) : Walk :=
  let predicted := stats.predict lease.pool lease.footprint 0
  { w with
    free := addIn w.free (chargedPools lease.pool) (-claimOf lease)
    holders := w.holders ++
      [{ booking := claimOf lease
         pools := chargedPools lease.pool
         releasesIn := predicted.map (w.clock + ·)
         basis := if predicted.isNone then .unknown else .history }] }

/-- The outer loop of `estimate_waits`. -/
def Walk.estimates (stats : HoldStats) : List (DockerLease × LeaseId) → Walk →
    List (LeaseId × WaitEstimate)
  | [], _ => []
  | (lease, id) :: rest, w =>
    let w := w.await lease (w.holders.length + 1)
    if w.blind then (id, unknownWait) :: Walk.estimates stats rest w
    else
      (id, { seconds := some (pyRound w.clock), basis := w.basis }) ::
        Walk.estimates stats rest (w.start stats lease)

def estimateWaits (db : Database) (stats : HoldStats) (now : Instant) :
    List (LeaseId × WaitEstimate) :=
  Walk.estimates stats (line db)
    { free := fun name => (db.pool name).ceiling.limit - (db.pool name).held
      holders := holders db stats now }

/-- `estimate_waits`, of the history that the ledger itself has. -/
def estimateWaitsNow (db : Database) (now lookback : Instant) : List (LeaseId × WaitEstimate) :=
  estimateWaits db (observedHoldTimes db now lookback) now

end Loregarden.DockerWait
