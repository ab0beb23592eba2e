import Loregarden.CapacityCalls

/-! # Sessions that share the line

Any number of sessions reserve, drain and release at once. A `Crowd` is the database with one
`Stage` a session, and one turn is one transaction or one read of one session, so a run of turns is
one interleaving of `docker_leases.py`'s steps: the reads before a place in line is taken, the place
itself, the row, and for every pass of the drain the head, a revision a pool, the two-pool booking,
the re-test of each pool, the promotion and the refund.

Ceilings are fixed, so admission, which reads nothing else, is one step, and what a measurement
would answer is what is there. The reply of `reserve` is read last and moves nothing; it is left out
here.

`Head.known` and `log` are no columns: the number of rows there were when a session read its head,
and what became of the bookings. -/

namespace Loregarden.Capacity

inductive GrantCall where
  | reserve (req : ReserveRequest)
  | drainWaiters
  | releaseLease (id : LeaseId) (reason : DockerLeaseEndReason) (drain : Bool)

/-- The waiter a pass of the drain is about, as its head read found it. -/
structure Head where
  lease : DockerLease
  id : LeaseId
  known : Nat

inductive Stage where
  | starting (call : GrantCall)
  /-- `_pending_duplicate` is read next. -/
  | pending (req : ReserveRequest) (price : Weights)
  /-- `held_for_run` is read next. -/
  | existing (req : ReserveRequest) (price : Weights)
  | positioning (req : ReserveRequest) (price : Weights)
  | inserting (req : ReserveRequest) (price : Weights) (position : Nat)
  | readingHead
  /-- The revisions of `left` are read, and then the pools are booked. -/
  | booking (head : Head) (left : List CapacityPool) (revisions : CapacityPool → Nat)
  /-- A booking missed: the numbers of `left` are read, to tell full from contended. -/
  | checking (head : Head) (left : List CapacityPool)
  | promoting (head : Head)
  | refunding (head : Head)
  | settling (lease : DockerLease) (id : LeaseId) (reason : DockerLeaseEndReason)
      (drain : Bool)
  | withdrawing (id : LeaseId) (reason : DockerLeaseEndReason)
  | done

/-- `_book_capacity_for` from the top of its loop. -/
def Stage.book (head : Head) : Stage := .booking head (chargedPools head.lease.pool) (fun _ => 0)

/-- The head of `reserve`: pricing and admission. -/
def openReserve (settings : Settings) (env : Surroundings) (db : Database) (req : ReserveRequest) :
    Stage :=
  if ¬ settings.dockerCapacityEnabled then .done
  else
    match resolveWeights req.footprint req.cpus req.memoryMb with
    | .error _ => .done
    | .ok price =>
      if (firstRefusal env db price (chargedPools req.pool)).2.isSome then .done
      else .pending req price

def firstStage (settings : Settings) (env : Surroundings) (db : Database) : GrantCall → Stage
  | .reserve req => openReserve settings env db req
  | .drainWaiters => .readingHead
  | .releaseLease id reason drain =>
    match db.leases[id]? with
    | none => .done
    | some lease =>
      if lease.status.occupying then .settling lease id reason drain
      else if lease.status = .waiting then .withdrawing id reason
      else .done

/-- One step of a session. `late` says whether the contention budget of a booking is spent. -/
def advance (settings : Settings) (env : Surroundings) (late : Bool) (db : Database) :
    Stage → Database × Stage
  | .starting call => (db, firstStage settings env db call)
  | .pending req price =>
    (db, if (pendingDuplicate db req price).isSome then .done else .existing req price)
  | .existing req price =>
    (db, if (heldForRun db req).isSome then .done else .positioning req price)
  | .positioning req price => ((takePosition db).1, .inserting req price (takePosition db).2)
  | .inserting req price position =>
    (db.insert (newWaiter settings env req price position), .readingHead)
  | .readingHead =>
    match headWaiter db with
    | none => (db, .done)
    | some (lease, id) => (db, .book ⟨lease, id, db.leases.length⟩)
  | .booking head (name :: left) revisions =>
    (db, .booking head left (Function.update revisions name (db.pool name).revision))
  | .booking head [] revisions =>
    match claimPools db (chargedPools head.lease.pool) (claimOf head.lease) revisions with
    | some booked => (booked, .promoting head)
    | none => (db, .checking head (chargedPools head.lease.pool))
  | .checking head (name :: left) =>
    (db, if shortfalls name (db.pool name) head.lease ≠ [] then .done else .checking head left)
  | .checking head [] => (db, if late then .done else .book head)
  | .promoting head =>
    match claimPromotion env db head.id with
    | some granted => (granted, .readingHead)
    | none => (db, .refunding head)
  | .refunding head => (returnCapacity db head.lease, .readingHead)
  | .settling lease id reason drain =>
    (settle env db id lease reason, if drain then .readingHead else .done)
  | .withdrawing id reason => (db.update id (withdrawn env.now reason), .done)
  | .done => (db, .done)

inductive GrantEvent where
  | booked (id : LeaseId)
  | promoted (id : LeaseId)
  | refunded (id : LeaseId)
  deriving DecidableEq

/-- The event of a step, by the stages before and after it. -/
def eventOf : Stage → Stage → List GrantEvent
  | .booking head [] _, .promoting _ => [.booked head.id]
  | .promoting head, .readingHead => [.promoted head.id]
  | .refunding head, .readingHead => [.refunded head.id]
  | _, _ => []

structure Crowd where
  db : Database
  sessions : List Stage
  log : List GrantEvent

/-- The `i`-th session takes a step. -/
structure Move where
  i : Nat
  env : Surroundings
  late : Bool

def Crowd.advance (settings : Settings) (s : Crowd) (move : Move) : Crowd :=
  match s.sessions[move.i]? with
  | none => s
  | some stage =>
    let next := Capacity.advance settings move.env move.late s.db stage
    { db := next.1
      sessions := s.sessions.set move.i next.2
      log := s.log ++ eventOf stage next.2 }

def Advances (settings : Settings) (s : Crowd) (move : Move) (t : Crowd) : Prop :=
  s.advance settings move = t

/-- An empty ledger that can hold something, and calls about to begin. -/
structure Empty (s : Crowd) : Prop where
  leases : s.db.leases = []
  held : ∀ name, (s.db.pool name).held = 0
  ceiling : ∀ name, 0 ≤ (s.db.pool name).ceiling.limit
  starting : ∀ stage ∈ s.sessions, ∃ call, stage = .starting call
  log : s.log = []

/-- A stage's booking in flight: booked, and neither promoted nor refunded. -/
def inFlight (name : CapacityPool) : Stage → Booking
  | .promoting head | .refunding head =>
    if name ∈ chargedPools head.lease.pool then booked head.lease else 0
  | _ => 0

def Stage.carries (id : LeaseId) : Stage → Bool
  | .promoting head | .refunding head => head.id = id
  | _ => false

/-- A held lease is released at most once, and a place in line is given up while
    it is one: the row a call writes as ended is as the call read it. The runs in which
    a lease is granted, or ended, between the read of its withdrawal and the write are
    left out by the second arm: that write would end it with its capacity held. -/
def endsAsRead (s : Crowd) (move : Move) : Bool :=
  match s.sessions[move.i]? with
  | some (.settling _ id _ _) => (s.db.leases[id]?).all (fun l => l.status.occupying)
  | some (.withdrawing id _) => (s.db.leases[id]?).all (fun l => l.status = .waiting)
  | _ => true

/-- No waiting lease is withdrawn, and every release drains. -/
def drainsOn (s : Crowd) (move : Move) : Bool :=
  match s.sessions[move.i]? with
  | some (.withdrawing _ _) => false
  | some (.settling _ _ _ drain) => drain
  | _ => true

/-- Whether a session is inside `drain_waiters`. -/
def Stage.draining : Stage → Bool
  | .readingHead | .booking _ _ _ | .checking _ _ | .promoting _ | .refunding _ => true
  | _ => false

end Loregarden.Capacity
