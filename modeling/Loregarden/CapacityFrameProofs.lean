import Mathlib.Tactic.Linarith
import Loregarden.TableProofs
import Loregarden.CapacityCalls

/-! # What each primitive of the ledger reads and writes

One equation or one inversion lemma for each primitive, so that no later proof unfolds it: a booking
is a change of the charged pools alone (`bookOnce_eq_some`), a promotion is a change of one row
alone, a queue read is the waiting row of least position (`headWaiter_eq_some`). `Evolves` is what
any call may do to a row that is already there. -/

namespace Loregarden.Capacity

open Tables List

namespace Database

section

variable (db : Database)
include db

/-- A pool is written for itself. -/
@[simp] theorem pool_setPool (name p : CapacityPool) (row : DockerCapacityPool) :
    (db.setPool name row).pool p = if p = name then row else db.pool p := by
  cases name <;> cases p <;> rfl

@[simp] theorem leases_setPool (name : CapacityPool) (row : DockerCapacityPool) :
    (db.setPool name row).leases = db.leases := by
  cases name <;> rfl

@[simp] theorem clampChanged_setPool (name : CapacityPool)
    (row : DockerCapacityPool) : (db.setPool name row).clampChanged = db.clampChanged := by
  cases name <;> rfl

/-- A write of a lease leaves the pools alone. -/
@[simp] theorem pool_update (id : LeaseId) (f : DockerLease → DockerLease)
    (p : CapacityPool) : (db.update id f).pool p = db.pool p := by
  cases p <;> rfl

@[simp] theorem leases_update (id : LeaseId) (f : DockerLease → DockerLease) :
    (db.update id f).leases = db.leases.modify id f := rfl

/-- So does a new lease. -/
@[simp] theorem pool_insert (lease : DockerLease) (p : CapacityPool) :
    (db.insert lease).pool p = db.pool p := by
  cases p <;> rfl

@[simp] theorem leases_insert (lease : DockerLease) :
    (db.insert lease).leases = db.leases ++ [lease] := rfl

omit db in
/-- A database is its pools, its leases and the mark of a changed clamp. -/
theorem ext_rows {a b : Database} (hp : ∀ p, a.pool p = b.pool p) (hl : a.leases = b.leases)
    (hc : a.clampChanged = b.clampChanged) : a = b := by
  obtain ⟨ad, ah, al, ac⟩ := a
  obtain ⟨bd, bh, bl, bc⟩ := b
  obtain rfl : ad = bd := hp .docker
  obtain rfl : ah = bh := hp .host
  obtain rfl : al = bl := hl
  obtain rfl : ac = bc := hc
  rfl

/-- All pools are rewritten, each by itself. -/
def mapPools (db : Database) (f : CapacityPool → DockerCapacityPool → DockerCapacityPool) :
    Database :=
  { db with dockerPool := f .docker db.dockerPool, hostPool := f .host db.hostPool }

@[simp] theorem pool_mapPools
    (f : CapacityPool → DockerCapacityPool → DockerCapacityPool) (p : CapacityPool) :
    (db.mapPools f).pool p = f p (db.pool p) := by
  cases p <;> rfl

end

/-- The rows a query finds, with their ids. -/
theorem mem_select {db : Database} {p : DockerLease → Bool} {lease : DockerLease}
    {id : LeaseId} : (lease, id) ∈ db.select p ↔ db.leases[id]? = some lease ∧ p lease = true := by
  simp [select, mem_zipIdx_iff_getElem?]

end Database

/-! ## Booking and giving back -/

/-- A booking more on the pool; a negative one gives back. -/
def DockerCapacityPool.book (row : DockerCapacityPool) (booking : Booking) : DockerCapacityPool :=
  { row with held := row.held + booking, revision := row.revision + 1 }

/-- Every pool a claim is charged to, with an amount added. -/
def bookCharged (db : Database) (claim : CapacityPool) (booking : Booking) : Database :=
  db.mapPools (fun p row => if p ∈ chargedPools claim then row.book booking else row)

@[simp] theorem leases_bookCharged (db : Database) (claim : CapacityPool) (booking : Booking) :
    (bookCharged db claim booking).leases = db.leases := rfl

/-- A claim is booked on the pools it is charged to. -/
theorem pool_bookCharged (db : Database) (claim p : CapacityPool) (booking : Booking) :
    (bookCharged db claim booking).pool p
      = if p ∈ chargedPools claim then (db.pool p).book booking else db.pool p := by
  simp [bookCharged]

/-- The two-pool transaction: it books every charged pool exactly when each is
    as read and has the room. -/
theorem claimPools_eq_some {db db' : Database} {claim : CapacityPool} {booking : Booking}
    {revisions : CapacityPool → Nat} :
    claimPools db (chargedPools claim) booking revisions = some db' ↔
      (∀ p ∈ chargedPools claim, (db.pool p).revision = revisions p ∧
        (db.pool p).held + booking ≤ (db.pool p).ceiling.limit) ∧
      db' = bookCharged db claim booking := by
  have hone : ∀ p, claimPoolCapacity db p booking (revisions p)
      = if (db.pool p).revision = revisions p ∧
          (db.pool p).held + booking ≤ (db.pool p).ceiling.limit
        then some (db.setPool p ((db.pool p).book booking)) else none := fun _ => rfl
  have hhost : claimPools db [.host] booking revisions
      = claimPoolCapacity db .host booking (revisions .host) := by
    simp [claimPools]
  cases claim with
  | host =>
    show claimPools db [.host] booking revisions = some db' ↔ _
    rw [hhost, hone]
    by_cases h : (db.pool .host).revision = revisions .host ∧
        (db.pool .host).held + booking ≤ (db.pool .host).ceiling.limit
    · have hbook : db.setPool .host ((db.pool .host).book booking)
          = bookCharged db .host booking := rfl
      rw [hbook]
      simp [chargedPools, h, eq_comm]
    · simp [chargedPools, h]
  | docker =>
    have htwo : claimPools db [.docker, .host] booking revisions
        = (claimPoolCapacity db .docker booking (revisions .docker)).bind
            (fun db => claimPoolCapacity db .host booking (revisions .host)) := by
      simp [claimPools]
    show claimPools db [.docker, .host] booking revisions = some db' ↔ _
    rw [htwo, hone]
    by_cases h : (db.pool .docker).revision = revisions .docker ∧
        (db.pool .docker).held + booking ≤ (db.pool .docker).ceiling.limit
    · rw [if_pos h, Option.bind_some]
      -- the second UPDATE reads the host row, which the first has not moved
      have hsecond : claimPoolCapacity (db.setPool .docker ((db.pool .docker).book booking))
            .host booking (revisions .host)
          = if (db.pool .host).revision = revisions .host ∧
              (db.pool .host).held + booking ≤ (db.pool .host).ceiling.limit
            then some (bookCharged db .docker booking) else none := rfl
      rw [hsecond]
      by_cases h' : (db.pool .host).revision = revisions .host ∧
          (db.pool .host).held + booking ≤ (db.pool .host).ceiling.limit
      · simp [chargedPools, h, h', eq_comm]
      · rw [if_neg h']
        simp [chargedPools, h']
    · simp [chargedPools, h]

/-- A booking is made where the claim fits each of them. -/
theorem bookOnce_eq_some {db db' : Database} {lease : DockerLease} : bookOnce db lease = some db' ↔
      (∀ p ∈ chargedPools lease.pool,
        (db.pool p).held + claimOf lease ≤ (db.pool p).ceiling.limit) ∧
      db' = bookCharged db lease.pool (claimOf lease) := by
  rw [bookOnce, claimPools_eq_some]
  simp

/-- Without another session in between, the first try decides. -/
theorem bookCapacityFor_eq (db : Database) (lease : DockerLease) (retries : Nat) :
    bookCapacityFor db lease retries = bookOnce db lease := by
  induction retries with
  | zero => rfl
  | succ retries ih =>
    unfold bookCapacityFor
    cases hb : bookOnce db lease with
    | some booked => rfl
    | none =>
      by_cases hfull : isFull db lease = true
      · rw [if_pos hfull]
      · rw [if_neg hfull, ih, hb]

/-- There is no shortfall where the claim fits. -/
theorem shortfalls_eq_nil_iff {name : CapacityPool} {pool : DockerCapacityPool}
    {lease : DockerLease} :
    shortfalls name pool lease = [] ↔ pool.held + claimOf lease ≤ pool.ceiling.limit := by
  simp only [shortfalls, map_eq_nil_iff, filter_eq_nil_iff, mem_cons,
    not_mem_nil, or_false, forall_eq_or_imp, forall_eq, gt_iff_lt, decide_eq_true_eq, not_lt,
    Booking.le_iff, claimOf, Booking.add_cpus, Booking.add_memoryMb, Booking.add_count,
    Booking.of_cpus, Booking.of_memoryMb, Booking.of_count, Ceiling.limit]
  norm_cast

/-- There is room where it fits all of the pools. -/
theorem isFull_eq_false {db : Database} {lease : DockerLease} :
    isFull db lease = false ↔ ∀ p ∈ chargedPools lease.pool,
      (db.pool p).held + claimOf lease ≤ (db.pool p).ceiling.limit := by
  simp [isFull, shortfalls_eq_nil_iff]

/-- A booking is refused where there is no room. -/
theorem bookOnce_eq_none {db : Database} {lease : DockerLease} :
    bookOnce db lease = none ↔ isFull db lease = true := by
  rw [← Bool.not_eq_false, isFull_eq_false]
  constructor
  · intro hnone hfits
    have hsome := bookOnce_eq_some.mpr ⟨hfits, rfl⟩
    rw [hnone] at hsome
    cases hsome
  · intro hshort
    cases hb : bookOnce db lease with
    | none => rfl
    | some booked => exact absurd (bookOnce_eq_some.mp hb).1 hshort

@[simp] theorem leases_returnToPool (db : Database) (name : CapacityPool) (booking : Booking) :
    (returnToPool db name booking).leases = db.leases := by
  simp [returnToPool]

@[simp] theorem leases_returnCapacity (db : Database) (lease : DockerLease) :
    (returnCapacity db lease).leases = db.leases := by
  unfold returnCapacity
  cases lease.pool <;> simp [chargedPools]

/-- What was booked is given back in full. -/
theorem returnToPool_eq {db : Database} {name : CapacityPool} {booking : Booking}
    (h : booking ≤ (db.pool name).held) :
    returnToPool db name booking = db.setPool name ((db.pool name).book (-booking)) := by
  have hclamp : ((db.pool name).held - booking).atLeastZero = (db.pool name).held - booking :=
    Booking.atLeastZero_eq (sub_nonneg.mpr h)
  refine Database.ext_rows (fun p => ?_) (by simp) ?_
  · show (db.setPool name _).pool p = _
    rw [hclamp]
    simp [DockerCapacityPool.book, sub_eq_add_neg]
  · simp [returnToPool, hclamp]

/-- The same over all pools it was charged to. -/
theorem returnCapacity_eq {db : Database} {lease : DockerLease}
    (h : ∀ p ∈ chargedPools lease.pool, booked lease ≤ (db.pool p).held) :
    returnCapacity db lease = bookCharged db lease.pool (-(booked lease)) := by
  unfold returnCapacity
  cases hq : lease.pool with
  | host =>
    rw [hq] at h
    show returnToPool db .host (booked lease) = _
    rw [returnToPool_eq (h .host (by decide))]
    rfl
  | docker =>
    rw [hq] at h
    show returnToPool (returnToPool db .docker (booked lease)) .host (booked lease) = _
    rw [returnToPool_eq (h .docker (by decide)), returnToPool_eq]
    · rfl
    · exact h .host (by decide)

/-- The leases that wait. -/
theorem mem_waiters {db : Database} {lease : DockerLease} {id : LeaseId} :
    (lease, id) ∈ waiters db ↔ db.leases[id]? = some lease ∧ lease.status = .waiting := by
  simp [waiters, Database.mem_select]

/-- There is a first where there are any. -/
theorem firstByPosition_eq_none {rows : List (DockerLease × LeaseId)} :
    firstByPosition rows = none ↔ rows = [] :=
  argmin_eq_none

/-- The first has the least position. -/
theorem firstByPosition_mem {rows : List (DockerLease × LeaseId)}
    {row : DockerLease × LeaseId} (h : firstByPosition rows = some row) :
    row ∈ rows ∧ ∀ other ∈ rows, row.1.position ≤ other.1.position :=
  ⟨argmin_mem h, fun _ hother =>
    le_of_mem_argmin (f := fun row => row.1.position) hother h⟩

/-- The head of the line waits, and none before it does. -/
theorem headWaiter_eq_some {db : Database} {lease : DockerLease} {id : LeaseId}
    (h : headWaiter db = some (lease, id)) :
    db.leases[id]? = some lease ∧ lease.status = .waiting ∧
      ∀ (j : LeaseId) (l : DockerLease), db.leases[j]? = some l → l.status = .waiting →
        lease.position ≤ l.position := by
  obtain ⟨hmem, hmin⟩ := firstByPosition_mem h
  obtain ⟨hrow, hst⟩ := mem_waiters.mp hmem
  exact ⟨hrow, hst, fun j l hl hw => hmin (l, j) (mem_waiters.mpr ⟨hl, hw⟩)⟩

/-- There is none where nothing waits. -/
theorem headWaiter_eq_none {db : Database} : headWaiter db = none ↔
      ∀ (j : LeaseId) (l : DockerLease), db.leases[j]? = some l → l.status ≠ .waiting := by
  rw [headWaiter, firstByPosition_eq_none, eq_nil_iff_forall_not_mem]
  constructor
  · intro h j l hl hw
    exact h (l, j) (mem_waiters.mpr ⟨hl, hw⟩)
  · rintro h ⟨l, j⟩ hmem
    obtain ⟨hl, hw⟩ := mem_waiters.mp hmem
    exact h j l hl hw

/-- A lease is promoted where it still waits. -/
theorem claimPromotion_eq_some {env : Surroundings} {db db' : Database} {id : LeaseId} :
    claimPromotion env db id = some db' ↔
      ∃ lease, db.leases[id]? = some lease ∧ lease.status = .waiting ∧
        db' = db.update id (promoted env.now) := by
  unfold claimPromotion
  cases hl : db.leases[id]? with
  | none => simp
  | some lease =>
    by_cases hw : lease.status = .waiting
    · simp [hw, eq_comm]
    · simp [hw]

end Loregarden.Capacity
