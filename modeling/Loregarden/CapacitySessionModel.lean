import Loregarden.CapacityCallProofs

/-! # Sessions that end one lease

Every process works on the ledger through a session of its own, and the calls that end or renew a
lease read its row in one transaction and write it in a later one. A `Scene` is the database with
one `Progress` a session: how far its call about the lease `id` has come, with the row as that call
read it. The read and the write are separate turns, so a run of turns is one interleaving of the
sessions.

Nothing else writes the status of the lease. What the ledger does besides (children and other leases
released, bookings, drains, repairs, polls) is one kind of turn, `elsewhere`. `others` is what each
pool holds for everything but the lease, and `returns` counts the times its booking was given back;
neither is a column. -/

namespace Loregarden.Capacity

inductive LeaseCall where
  | releaseLease (reason : DockerLeaseEndReason)
  | forceReleaseLease (reason : String)
  | reclaimDeadHolders
  | reapDockerLeases
  | renewLease (ttlSeconds : Option Int)
  deriving DecidableEq

/-- How far a call has come; a `lease` is the row as the call read it. -/
inductive Progress where
  | starting (call : LeaseCall)
  /-- `force_release_lease` has read a live row and writes its note next. -/
  | noting (reason : String)
  /-- `release_lease` is called, and has not read the row. -/
  | releasing (reason : DockerLeaseEndReason)
  | withdrawing (reason : DockerLeaseEndReason)
  | settling (lease : DockerLease) (reason : DockerLeaseEndReason)
  | judging (lease : DockerLease)
  | renewing (lease : DockerLease) (ttlSeconds : Option Int)
  /-- The answer of `release_lease`, if the call came to it. -/
  | finished (answer : Option Bool)
  deriving DecidableEq

/-- The test at the head of `release_lease`. -/
def readToRelease (row : Option DockerLease) (reason : DockerLeaseEndReason) : Progress :=
  match row with
  | none => .finished (some false)
  | some lease =>
    if ¬ lease.status.occupying then
      if lease.status ≠ .waiting then .finished (some false) else .withdrawing reason
    else .settling lease reason

/-- The first read of a call. `fresh` says whether the session has committed since its query:
    `release_lease` then reads the row again, and otherwise takes it as the query found it. -/
def readToStart (env : Surroundings) (fresh : Bool) (row : Option DockerLease) :
    LeaseCall → Progress
  | .releaseLease reason => readToRelease row reason
  | .forceReleaseLease reason =>
    match row with
    | none => .finished none
    | some lease =>
      if lease.status = .waiting ∨ lease.status.occupying then .noting reason
      else readToRelease row .forceReleased
  | .reclaimDeadHolders =>
    match row with
    | none => .finished none
    | some lease =>
      if lease.status.occupying ∧ holderGone env lease then
        if fresh then .releasing .pidGone else .settling lease .pidGone
      else .finished none
  | .reapDockerLeases =>
    match row with
    | none => .finished none
    | some lease => if ¬ lease.status.occupying then .finished none else .judging lease
  | .renewLease ttlSeconds =>
    match row with
    | none => .finished none
    | some lease =>
      if ¬ lease.status.occupying then .finished none else .renewing lease ttlSeconds

/-- Where a judgement leads: to the release of the row it judged, or of the row
    read again when the verdict was committed first, or to nothing. -/
def judgedTo (lease : DockerLease) : Option DockerLeaseEndReason → Progress
  | none => .finished none
  | some .containersGone => .releasing .containersGone
  | some reason => .settling lease reason

def act (settings : Settings) (env : SweepSurroundings) (fresh : Bool) (id : LeaseId)
    (db : Database) : Progress → Database × Progress
  | .starting call => (db, readToStart env.toSurroundings fresh db.leases[id]? call)
  | .noting reason => (db.update id (noted reason), .releasing .forceReleased)
  | .releasing reason => (db, readToRelease db.leases[id]? reason)
  | .withdrawing reason => (db.update id (withdrawn env.now reason), .finished (some true))
  | .settling lease reason =>
    (settle env.toSurroundings db id lease reason, .finished (some true))
  | .judging lease =>
    ((judge settings env db id lease).1, judgedTo lease (judge settings env db id lease).2)
  | .renewing lease ttlSeconds =>
    (db.update id (renewed settings env.now ttlSeconds lease), .finished none)
  | .finished answer => (db, .finished answer)

structure Scene where
  db : Database
  sessions : List Progress
  others : CapacityPool → Booking
  returns : Nat

def Progress.returnsBooking : Progress → Bool
  | .settling _ _ => true
  | _ => false

/-- One transaction of the `i`-th session. -/
def Scene.act (settings : Settings) (id : LeaseId) (s : Scene) (i : Nat)
    (env : SweepSurroundings) (fresh : Bool) : Scene :=
  match s.sessions[i]? with
  | none => s
  | some p =>
    { s with
      db := (Capacity.act settings env fresh id s.db p).1
      sessions := s.sessions.set i (Capacity.act settings env fresh id s.db p).2
      returns := s.returns + if p.returnsBooking then 1 else 0 }

inductive Turn where
  | session (i : Nat) (env : SweepSurroundings) (fresh : Bool)
  | elsewhere (db : Database) (others : CapacityPool → Booking)

/-- What the rest of the ledger does to the lease's row: its claim stays, and so
    does its status, unless a drain grants it. -/
structure RowKept (l l' : DockerLease) : Prop where
  same : SameClaim l l'
  status : l'.status = l.status ∨ l.status = .waiting ∧ l'.status = .held

/-- What a pool holds beyond the other claims and the lease's own share. -/
def slack (s : Scene) (l : DockerLease) (name : CapacityPool) : Booking :=
  (s.db.pool name).held - s.others name - share name l

/-- One turn. What happens elsewhere books and returns only the bookings of others, and that of the
    lease when a drain grants it. -/
inductive Takes (settings : Settings) (id : LeaseId) : Scene → Turn → Scene → Prop
  | session {s : Scene} (i : Nat) (env : SweepSurroundings) (fresh : Bool) :
      Takes settings id s (.session i env fresh) (s.act settings id i env fresh)
  | elsewhere {s : Scene} {db : Database} {others : CapacityPool → Booking}
      {l l' : DockerLease} (hl : s.db.leases[id]? = some l) (hl' : db.leases[id]? = some l')
      (hrow : RowKept l l') (hothers : ∀ name, 0 ≤ others name)
      (hpools : ∀ name, slack { s with db := db, others := others } l' name = slack s l name) :
      Takes settings id s (.elsewhere db others) { s with db := db, others := others }

structure Opens (id : LeaseId) (lease : DockerLease) (s : Scene) : Prop where
  row : s.db.leases[id]? = some lease
  starting : ∀ p ∈ s.sessions, ∃ call, p = .starting call
  returns : s.returns = 0
  others : ∀ name, 0 ≤ s.others name
  held : ∀ name, (s.db.pool name).held = s.others name + share name lease

/-- Whether a transaction writes HELD or ORPHANED, as its read decided. -/
def Progress.revives (env : SweepSurroundings) : Progress → Bool
  | .judging lease => orphanVerdict env lease
  | .renewing lease _ => lease.status = .orphaned
  | _ => false

/-- The transactions of a turn find the row in the statuses `ok` asks for. -/
def finds (id : LeaseId) (of : SweepSurroundings → Progress → Bool)
    (ok : DockerLeaseStatus → Bool) (s : Scene) : Turn → Bool
  | .session i env _ =>
    (s.sessions[i]?).all (fun p =>
      ¬ of env p ∨ (s.db.leases[id]?).all (fun l => ok l.status))
  | .elsewhere _ _ => true

/-- No renewal and no orphan verdict is written on a row released since its read. -/
def revivesNone (id : LeaseId) : Scene → Turn → Bool :=
  finds id Progress.revives (fun status => status ≠ .released)

/-- Neither is a release: what a call decided from its read still stands when it writes. -/
def readsStand (id : LeaseId) : Scene → Turn → Bool :=
  finds id (fun env p => p.revives env || p.returnsBooking) (fun status => status.occupying)

/-- How many calls have answered that they ended the lease. -/
def endings (s : Scene) : Nat := s.sessions.countP (fun p => p = .finished (some true))

end Loregarden.Capacity
