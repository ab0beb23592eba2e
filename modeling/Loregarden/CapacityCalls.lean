import Loregarden.CapacityModel

/-! # The capacity ledger: whole calls

Every call that writes the ledger, each run to its end: `reserve`, `release_lease`,
`force_release_lease`, `renew_lease` and `reclaim_dead_holders` of `docker_leases.py`,
`reserve_child` of `capacity_children.py`, and the sweep of `docker_reaper.py`.

A reply keeps its state, its lease, its place in line and its `error_kind`. Left out are the
sentences built around those values and the wait estimate (a forecast from history that no decision
here reads). -/

namespace Loregarden.Capacity

structure Settings where
  dockerCapacityEnabled : Bool := true
  dockerLeaseTtlSeconds : Int := 900
  dockerLeaseMaxTtlSeconds : Int := 7200
  dockerLeaseOrphanGraceSeconds : Int := 300
  dockerWaitingTtlSeconds : Int := 600

inductive DockerGrantState where
  | granted | queued | rejected
  deriving DecidableEq

structure DockerReservation where
  state : DockerGrantState
  leaseId : Option LeaseId := none
  position : Option Nat := none
  ahead : Nat := 0
  price : Weights := 0
  expiresAt : Option Instant := none
  errorKind : String := ""
  reused : Bool := false

def rejected (errorKind : String) (price : Weights) : DockerReservation :=
  { state := .rejected, errorKind := errorKind, price := price }

/-- `ClaimTooVague`, with the values its text quotes. -/
inductive ClaimTooVague where
  | halfPrice (cpus : Rat) (memoryMb : Int)
  | noWeights (footprint : DockerFootprint)

/-- `CLASS_WEIGHTS`: the resolved cost of each named size. -/
def classWeights : DockerFootprint → Option Weights
  | .light => some ⟨1 / 2, 512⟩
  | .service => some ⟨1, 1024⟩
  | .stack => some ⟨2, 4096⟩
  | .heavy => some ⟨4, 8192⟩
  | .none | .custom => Option.none

/-- `resolve_weights`: explicit weights win, and half a price is not a price. -/
def resolveWeights (footprint : DockerFootprint) (cpus : Rat) (memoryMb : Int) :
    Except ClaimTooVague Weights :=
  if cpus > 0 ∧ memoryMb > 0 then .ok ⟨cpus, memoryMb⟩
  else if cpus > 0 ∨ memoryMb > 0 then .error (.halfPrice cpus memoryMb)
  else
    match classWeights footprint with
    | none => .error (.noWeights footprint)
    | some weights => .ok weights

def clampTtl (settings : Settings) (ttlSeconds : Option Int) : Int :=
  max 1 (min (ttlSeconds.getD settings.dockerLeaseTtlSeconds) settings.dockerLeaseMaxTtlSeconds)

/-! ## Reserving -/

/-- Who asks: the columns both kinds of claim copy onto their row. -/
structure Holder where
  holderLabel : String := ""
  holderKind : DockerHolderKind := .adHoc
  agentRunId : Option RunId := none
  orchestrationRunId : Option RunId := none
  holderPid : Option Int := none

structure ReserveRequest extends Holder where
  footprint : DockerFootprint := .custom
  cpus : Rat := 0
  memoryMb : Int := 0
  ttlSeconds : Option Int := none
  pool : CapacityPool := .docker
  takesSlot : Bool := true

/-- `ceiling_refusal`: why a pool can never grant this claim, or `none` when it might. An unknown
    ceiling is measured first. -/
def ceilingRefusal (env : Surroundings) (db : Database) (name : CapacityPool)
    (price : Weights) : Database × Option DockerReservation :=
  let db := if (db.pool name).ceiling.known then db else refreshCeiling env db name
  let ceiling := (db.pool name).ceiling
  if ¬ ceiling.known then
    (db, some (rejected
      (match name with
        | .host => "host_unavailable"
        | .docker => "docker_unavailable") 0))
  else if price.cpus > ceiling.cpus ∨ price.memoryMb > ceiling.memoryMb ∨ ceiling.leases < 1 then
    (db, some (rejected "exceeds_capacity" price))
  else (db, none)

/-- The refusals of every charged pool, in order, up to the first. -/
def firstRefusal (env : Surroundings) (db : Database) (price : Weights) :
    List CapacityPool → Database × Option DockerReservation
  | [] => (db, none)
  | name :: rest =>
    match ceilingRefusal env db name price with
    | (db, some refusal) => (db, some refusal)
    | (db, none) => firstRefusal env db price rest

/-- What `_pending_duplicate` looks for: the run when there is one, and
    otherwise the label together with the exact price. -/
def sameRequest (req : ReserveRequest) (price : Weights) (lease : DockerLease) : Bool :=
  match req.agentRunId, req.orchestrationRunId with
  | some agentRunId, _ => lease.agentRunId = some agentRunId
  | none, some orchestrationRunId => lease.orchestrationRunId = some orchestrationRunId
  | none, none => lease.holderLabel = req.holderLabel ∧ lease.price = price

/-- `_pending_duplicate`: a waiter this same request already put in line. -/
def pendingDuplicate (db : Database) (req : ReserveRequest) (price : Weights) :
    Option (DockerLease × LeaseId) :=
  firstByPosition
    (db.select (fun l => l.status = .waiting ∧ l.pool = req.pool ∧ sameRequest req price l))

def ofRun (req : ReserveRequest) (lease : DockerLease) : Bool :=
  match req.agentRunId, req.orchestrationRunId with
  | some agentRunId, _ => lease.agentRunId = some agentRunId
  | none, some orchestrationRunId => lease.orchestrationRunId = some orchestrationRunId
  | none, none => false

/-- `held_for_run`: a lease of this kind that this run already holds in this pool. -/
def heldForRun (db : Database) (req : ReserveRequest) : Option (DockerLease × LeaseId) :=
  (db.select (fun l => l.status.occupying ∧ l.pool = req.pool ∧
    l.holderKind = req.holderKind ∧ l.parentLeaseId = none ∧ ofRun req l)).head?

/-- `_queued_reservation`: the reply for a claim that waits its turn. -/
def queuedReservation (db : Database) (lease : DockerLease) (id : LeaseId) (reused : Bool) :
    DockerReservation :=
  { state := .queued
    leaseId := some id
    position := some lease.position
    ahead := ((waiters db).filter (fun other => other.1.position < lease.position)).length
    price := lease.price
    reused := reused }

def grantedReservation (lease : DockerLease) (id : LeaseId) (reused : Bool) : DockerReservation :=
  { state := .granted
    leaseId := some id
    price := lease.price
    expiresAt := lease.expiresAt
    reused := reused }

/-- The row `reserve` inserts. -/
def newWaiter (settings : Settings) (env : Surroundings) (req : ReserveRequest)
    (price : Weights) (position : Nat) : DockerLease :=
  { status := .waiting
    holderKind := req.holderKind
    holderLabel := req.holderLabel
    agentRunId := req.agentRunId
    orchestrationRunId := req.orchestrationRunId
    holderPid := req.holderPid
    pool := req.pool
    takesSlot := req.takesSlot
    footprint := req.footprint
    price := price
    position := position
    ttlSeconds := clampTtl settings req.ttlSeconds
    requestedAt := env.now }

/-- The end of `reserve`: insert the row as waiting, drain, and say where it stands. -/
def enqueue (settings : Settings) (env : Surroundings) (db : Database) (req : ReserveRequest)
    (price : Weights) : Database × DockerReservation :=
  let (db, position) := takePosition db
  let id := db.leases.length
  let lease := newWaiter settings env req price position
  let (db, _) := drainWaiters env (db.insert lease)
  -- the row as it stands now: this drain or a peer's may have granted it
  let lease := (db.leases[id]?).getD lease
  if lease.status = .held then (db, grantedReservation lease id false)
  else (db, queuedReservation db lease id false)

/-- `reserve`: claim capacity, take a place in line, or be told why neither. -/
def reserve (settings : Settings) (env : Surroundings) (db : Database) (req : ReserveRequest) :
    Except ClaimTooVague (Database × DockerReservation) :=
  if ¬ settings.dockerCapacityEnabled then .ok (db, rejected "capacity_ledger_disabled" 0)
  else
    match resolveWeights req.footprint req.cpus req.memoryMb with
    | .error vague => .error vague
    | .ok price =>
      match firstRefusal env db price (chargedPools req.pool) with
      | (db, some refusal) => .ok (db, refusal)
      | (db, none) =>
        match pendingDuplicate db req price with
        | some (lease, id) => .ok (db, queuedReservation db lease id true)
        | none =>
          match heldForRun db req with
          | some (lease, id) => .ok (db, grantedReservation lease id true)
          | none => .ok (enqueue settings env db req price)

/-! ## Child leases (`capacity_children.py`) -/

structure ChildRequest extends Holder where
  parentLeaseId : LeaseId
  footprint : DockerFootprint := .custom
  cpus : Rat := 0
  memoryMb : Int := 0
  pool : Option CapacityPool := none
  ttlSeconds : Option Int := none
  drawOnParent : Bool := true

/-- The share of a price the parent's unlent allotment pays for. -/
def coverFor (drawOnParent : Bool) (parent : DockerLease) (price : Weights) : Weights :=
  if drawOnParent then
    let unlent := (parent.price - parent.childCovered).atLeastZero
    ⟨min price.cpus unlent.cpus, min price.memoryMb unlent.memoryMb⟩
  else 0

/-- `_cover`: draw a child's cover from the parent, if the parent's totals are as read. -/
def cover (db : Database) (parentId : LeaseId) (read : DockerLease) (covered : Weights) :
    Option Database :=
  match db.leases[parentId]? with
  | none => none
  | some parent =>
    if parent.status.occupying ∧ parent.childCovered = read.childCovered then
      some (db.update parentId (fun p => { p with childCovered := p.childCovered + covered }))
    else none

def excessFits (db : Database) (pools : List CapacityPool) (excess : Weights) : Bool :=
  pools.all (fun name =>
    let row := db.pool name
    row.held.cpus + excess.cpus ≤ row.ceiling.cpus ∧
      row.held.memoryMb + excess.memoryMb ≤ row.ceiling.memoryMb)

/-- Cover a child and book its excess together, or not at all: `none` says
    which of the two was missed. -/
def coverAndBook (db : Database) (parentId : LeaseId) (parent child : DockerLease) :
    Option (Option Database) :=
  let excess := child.price - child.covered
  match cover db parentId parent child.covered with
  | none => none
  | some covered =>
    if excess.cpus > 0 ∨ excess.memoryMb > 0 then
      some (claimPools covered (chargedPools child.pool) (.of excess 0)
        (fun name => (db.pool name).revision))
    else some (some covered)

def withCover (child : DockerLease) (covered : Weights) : DockerLease :=
  { child with covered := covered }

/-- The clocks a child is inserted with: granted at the moment it was asked for,
    because a child never waits. -/
def stamped (now : Instant) (child : DockerLease) : DockerLease :=
  { child with
    grantedAt := some child.requestedAt
    lastRenewedAt := some now
    expiresAt := some (now + child.ttlSeconds) }

/-- One turn of `_grant`: its answer, or `none` when it lost a race and goes round again. -/
def grantTurn (env : Surroundings) (db : Database) (parentId : LeaseId) (child : DockerLease)
    (drawOnParent : Bool) : Option (Database × DockerReservation) :=
  match db.leases[parentId]? with
  | none => some (db, rejected "parent_not_held" 0)
  | some parent =>
    if ¬ parent.status.occupying then some (db, rejected "parent_not_held" 0)
    else
      let child := withCover child (coverFor drawOnParent parent child.price)
      match coverAndBook db parentId parent child with
      | none => none
      | some none =>
        if ¬ excessFits db (chargedPools child.pool) (child.price - child.covered) then
          some (db, rejected "exceeds_parent_grant" 0)
        else none
      | some (some booked) =>
        let child := stamped env.now child
        some (booked.insert child, grantedReservation child booked.leases.length false)

/-- `_grant`: cover, book the excess, and insert, until it is settled or the
    budget is spent (`_contended`). -/
def grant (env : Surroundings) (db : Database) (parentId : LeaseId) (child : DockerLease)
    (drawOnParent : Bool) : Nat → Database × DockerReservation
  | 0 => (grantTurn env db parentId child drawOnParent).getD
      (db, rejected "exceeds_parent_grant" 0)
  | turns + 1 =>
    match grantTurn env db parentId child drawOnParent with
    | some answer => answer
    | none => grant env db parentId child drawOnParent turns

/-- The row `reserve_child` inserts. -/
def newChild (settings : Settings) (env : Surroundings) (req : ChildRequest)
    (pool : CapacityPool) (price : Weights) : DockerLease :=
  { status := .held
    holderKind := req.holderKind
    holderLabel := req.holderLabel
    parentLeaseId := some req.parentLeaseId
    agentRunId := req.agentRunId
    orchestrationRunId := req.orchestrationRunId
    holderPid := req.holderPid
    pool := pool
    takesSlot := false
    footprint := req.footprint
    price := price
    position := 0
    ttlSeconds := clampTtl settings req.ttlSeconds
    requestedAt := env.now }

/-- `reserve_child`: grant a child now, or refuse it now; never queues. -/
def reserveChild (settings : Settings) (env : Surroundings) (db : Database)
    (req : ChildRequest) : Except ClaimTooVague (Database × DockerReservation) :=
  if ¬ settings.dockerCapacityEnabled then .ok (db, rejected "capacity_ledger_disabled" 0)
  else
    match db.leases[req.parentLeaseId]? with
    | none => .ok (db, rejected "unknown_lease" 0)
    | some parent =>
      if ¬ parent.status.occupying then .ok (db, rejected "parent_not_held" 0)
      else
        let childPool := req.pool.getD parent.pool
        if ¬ chargedPools childPool ⊆ chargedPools parent.pool then
          .ok (db, rejected "parent_pool_mismatch" 0)
        else
          match resolveWeights req.footprint req.cpus req.memoryMb with
          | .error vague => .error vague
          | .ok price =>
            match firstRefusal env db price (chargedPools childPool) with
            | (db, some refusal) => .ok (db, refusal)
            | (db, none) =>
              let child := newChild settings env req childPool price
              .ok (grant env db req.parentLeaseId child req.drawOnParent env.retries)

/-! ## Renewing and releasing -/

/-- The time to live a renewal asks for, or the one the lease was read with. -/
def renewalTtl (settings : Settings) (ttlSeconds : Option Int) (read : DockerLease) : Int :=
  match ttlSeconds with
  | none => read.ttlSeconds
  | some ttl => clampTtl settings (some ttl)

/-- What a renewal writes on a row, having read it as `read`: one read as orphaned is held again. A
    column it does not set is left as it is. -/
def renewed (settings : Settings) (now : Instant) (ttlSeconds : Option Int)
    (read lease : DockerLease) : DockerLease :=
  { lease with
    status := if read.status = .orphaned then .held else lease.status
    ttlSeconds := if ttlSeconds.isSome then renewalTtl settings ttlSeconds read
      else lease.ttlSeconds
    lastRenewedAt := some now
    expiresAt := some (now + renewalTtl settings ttlSeconds read) }

/-- `renew_lease`: push a held lease's expiry out. -/
def renewLease (settings : Settings) (env : Surroundings) (db : Database) (id : LeaseId)
    (ttlSeconds : Option Int) : Database × Option Instant :=
  match db.leases[id]? with
  | none => (db, none)
  | some lease =>
    if ¬ lease.status.occupying then (db, none)
    else
      (db.update id (renewed settings env.now ttlSeconds lease),
        some (env.now + renewalTtl settings ttlSeconds lease))

/-- What `release_lease` writes on a row. -/
def ended (now : Instant) (reason : DockerLeaseEndReason) (lease : DockerLease) : DockerLease :=
  { lease with status := .released, releasedAt := some now, endReason := some reason }

/-- What it writes on the row of a waiter, which leaves the line. -/
def withdrawn (now : Instant) (reason : DockerLeaseEndReason) (lease : DockerLease) : DockerLease :=
  { ended now reason lease with position := 0 }

def childrenOf (db : Database) (id : LeaseId) : List (DockerLease × LeaseId) :=
  db.select (fun l => l.parentLeaseId = some id ∧ l.status.occupying)

/-- The write at the end of `release_lease`: the row, its pools, and its parent's cover. -/
def settle (env : Surroundings) (db : Database) (id : LeaseId) (lease : DockerLease)
    (reason : DockerLeaseEndReason) : Database :=
  let db := returnCapacity (db.update id (ended env.now reason)) lease
  match lease.parentLeaseId with
  | none => db
  | some parentId => returnCover db parentId lease

/-- `release_lease`, `depth` levels of children deep: hand capacity back and start whatever was
    waiting for it. The answer is whether this call was the one that ended the lease. -/
def releaseTo (env : Surroundings) :
    Nat → Database → LeaseId → DockerLeaseEndReason → Bool → Database × Bool
  | 0, db, _, _, _ => (db, false)
  | depth + 1, db, id, reason, drain =>
    match db.leases[id]? with
    | none => (db, false)
    | some lease =>
      if ¬ lease.status.occupying then
        if lease.status ≠ .waiting then (db, false)
        else (db.update id (withdrawn env.now reason), true)
      else
        -- children first: a child draws on this grant
        let db := (childrenOf db id).foldl
          (fun db child => (releaseTo env depth db child.2 .parentReleased false).1) db
        let db := settle env db id lease reason
        (if drain then (drainWaiters env db).1 else db, true)

/-- `release_lease`. A child is inserted after its parent, so the rows after a lease bound the depth
    below it. -/
def releaseLease (env : Surroundings) (db : Database) (id : LeaseId)
    (reason : DockerLeaseEndReason) (drain : Bool) : Database × Bool :=
  releaseTo env (db.leases.length + 1) db id reason drain

def noted (reason : String) (lease : DockerLease) : DockerLease :=
  { lease with note := "force-released: " ++ reason }

/-- `force_release_lease`: an operator ending a grant or a place in line; an
    unknown lease is an error. -/
def forceReleaseLease (env : Surroundings) (db : Database) (id : LeaseId) (reason : String) :
    Option (Database × Bool) :=
  match db.leases[id]? with
  | none => none
  | some lease =>
    let db :=
      if lease.status = .waiting ∨ lease.status.occupying then
        db.update id (noted reason)
      else db
    some (releaseLease env db id .forceReleased true)

/-- `holder_gone`: the lease names a holder process that no longer exists. -/
def holderGone (env : Surroundings) (lease : DockerLease) : Bool :=
  lease.holderPid.any (fun pid => ¬ env.pidAlive pid)

/-- Release several leases in one pass, without draining. -/
def releaseAll (env : Surroundings) (reason : DockerLeaseEndReason) (ids : List LeaseId)
    (db : Database) : Database :=
  ids.foldl (fun db id => (releaseLease env db id reason false).1) db

/-- `reclaim_dead_holders`: release every occupying lease whose holder process is gone. -/
def reclaimDeadHolders (env : Surroundings) (db : Database) : Database × List LeaseId :=
  let dead := ((db.select (fun l => l.status.occupying ∧ l.holderPid.isSome)).filter
    (fun row => holderGone env row.1)).map Prod.snd
  (releaseAll env .pidGone dead db, dead)

/-! ## The sweep (`docker_reaper.py`) -/

inductive DockerLivenessState where
  | alive | gone | unknown
  deriving DecidableEq

structure DockerLiveness where
  state : DockerLivenessState
  running : Nat := 0
  outcome : String := "ok"
  error : String := ""

/-- What the sweep finds outside the ledger: whether the run behind a lease is
    still working, and what docker says of its containers. -/
structure SweepSurroundings extends Surroundings where
  runIsLive : DockerLease → Bool
  probeLeaseLiveness : DockerLease → DockerLiveness

def expired (now : Instant) (lease : DockerLease) : Bool :=
  lease.expiresAt.any (fun expiry => expiry ≤ now)

def hasDockerIdentity (lease : DockerLease) : Bool :=
  lease.composeProject ≠ "" ∨ lease.containerNames ≠ []

/-- `_extend`: push the expiry out by the grace window. -/
def extend (settings : Settings) (now : Instant) (lease : DockerLease) : DockerLease :=
  { lease with expiresAt := some (now + settings.dockerLeaseOrphanGraceSeconds) }

/-- The orphan verdict on a row read as `read`; a status read as orphaned has
    not changed, and is not written. -/
def orphan (read lease : DockerLease) : DockerLease :=
  { lease with status := if read.status = .orphaned then lease.status else .orphaned }

def recordProbe (now : Instant) (probe : DockerLiveness) (lease : DockerLease) : DockerLease :=
  { lease with
    lastProbeAt := some now
    lastProbeOutcome := probe.outcome
    lastProbeError := probe.error
    runningContainerCount := some probe.running }

/-- `_judge`: the end reason for a lease, or none to leave it alone. -/
def judge (settings : Settings) (env : SweepSurroundings) (db : Database) (id : LeaseId)
    (lease : DockerLease) : Database × Option DockerLeaseEndReason :=
  if holderGone env.toSurroundings lease then (db, some .pidGone)
  else
    match lease.parentLeaseId with
    | some parentId =>
      if (db.leases[parentId]?).all (fun parent => ¬ parent.status.occupying) then
        (db, some .parentReleased)
      else if expired env.now lease then (db.update id (extend settings env.now), none)
      else (db, none)
    | none =>
      if ¬ expired env.now lease then (db, none)
      else if env.runIsLive lease then (db.update id (extend settings env.now), none)
      else if ¬ hasDockerIdentity lease then (db, some .ttlExpired)
      else
        let probe := env.probeLeaseLiveness lease
        let record := recordProbe env.now probe
        match probe.state with
        | .gone => (db.update id record, some .containersGone)
        | .alive =>
          (db.update id (fun l => orphan lease (extend settings env.now (record l))), none)
        | .unknown => (db.update id (fun l => extend settings env.now (record l)), none)

def sweepLease (settings : Settings) (env : SweepSurroundings) (db : Database) (id : LeaseId) :
    Database :=
  match db.leases[id]? with
  | none => db
  | some lease =>
    -- ended earlier in this sweep, with the parent it ran inside
    if ¬ lease.status.occupying then db
    else
      match judge settings env db id lease with
      | (db, none) => db
      | (db, some outcome) => (releaseLease env.toSurroundings db id outcome false).1

/-- The turn of `_drop_abandoned_waiters` for one waiter. -/
def dropWaiter (settings : Settings) (env : SweepSurroundings) (db : Database)
    (row : DockerLease × LeaseId) : Database :=
  if holderGone env.toSurroundings row.1 then
    (releaseLease env.toSurroundings db row.2 .pidGone false).1
  else if env.now - lastSeenAt row.1 > settings.dockerWaitingTtlSeconds then
    (releaseLease env.toSurroundings db row.2 .abandoned false).1
  else db

/-- `_drop_abandoned_waiters`: take waiters nobody is polling for out of the line. -/
def dropAbandonedWaiters (settings : Settings) (env : SweepSurroundings) (db : Database) :
    Database :=
  (waiters db).foldl (dropWaiter settings env) db

def hasDockerClaims (db : Database) : Bool :=
  db.leases.any (fun l => l.pool = .docker ∧ (l.status.occupying ∨ l.status = .waiting))

/-- `reap_docker_leases`: one sweep over the ledger. -/
def reapDockerLeases (settings : Settings) (env : SweepSurroundings) (db : Database) : Database :=
  if ¬ settings.dockerCapacityEnabled then db
  else
    let leases := db.select (fun l => l.status.occupying)
    if leases = [] ∧ waiters db = [] then db
    else
      let db := refreshCeiling env.toSurroundings db .host
      let db := if hasDockerClaims db then refreshCeiling env.toSurroundings db .docker else db
      let db := (leases.map Prod.snd).foldl (sweepLease settings env) db
      let db := dropAbandonedWaiters settings env db
      (drainWaiters env.toSurroundings (repairPool db)).1

inductive Call where
  | reserve (env : Surroundings) (req : ReserveRequest)
  | reserveChild (env : Surroundings) (req : ChildRequest)
  | drainWaiters (env : Surroundings)
  | releaseLease (env : Surroundings) (id : LeaseId) (reason : DockerLeaseEndReason)
      (drain : Bool)
  | forceReleaseLease (env : Surroundings) (id : LeaseId) (reason : String)
  | renewLease (env : Surroundings) (id : LeaseId) (ttlSeconds : Option Int)
  | reclaimDeadHolders (env : Surroundings)
  | repairPool
  | refreshCeiling (env : Surroundings) (pool : CapacityPool)
  | reapDockerLeases (env : SweepSurroundings)

/-- What a call leaves in the database. A call that raises has written nothing. -/
def exec (settings : Settings) (db : Database) : Call → Database
  | .reserve env req =>
    match reserve settings env db req with
    | .error _ => db
    | .ok (db, _) => db
  | .reserveChild env req =>
    match reserveChild settings env db req with
    | .error _ => db
    | .ok (db, _) => db
  | .drainWaiters env => (drainWaiters env db).1
  | .releaseLease env id reason drain => (releaseLease env db id reason drain).1
  | .forceReleaseLease env id reason =>
    match forceReleaseLease env db id reason with
    | none => db
    | some (db, _) => db
  | .renewLease env id ttlSeconds => (renewLease settings env db id ttlSeconds).1
  | .reclaimDeadHolders env => (reclaimDeadHolders env db).1
  | .repairPool => repairPool db
  | .refreshCeiling env pool => refreshCeiling env db pool
  | .reapDockerLeases env => reapDockerLeases settings env db

def Completes (settings : Settings) (db : Database) (call : Call) (db' : Database) : Prop :=
  exec settings db call = db'

end Loregarden.Capacity
