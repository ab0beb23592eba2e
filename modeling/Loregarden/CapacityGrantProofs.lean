import Loregarden.CapacityCallProofs
import Loregarden.CapacityGrantModel

/-! # Granting from many sessions

While several drains run, a booking may belong to no row: its session has not promoted the waiter
yet, or has lost it to a peer and has not refunded it. `Granted` is the account of the pools that
counts those bookings in; what one step does to it is said once for each kind of step (`Effect`),
and `granting_never_overbooks` is the run. -/

namespace Loregarden.Capacity

open Tables Runs List Database Stage

variable {settings : Settings}
variable {id : LeaseId} {stage stage' : Stage} {limits : CapacityPool → Ceiling} {s : Crowd}
variable {db' db : Database} {head : Head} {env : Surroundings}

/-! ## Rows of the line -/

structure TopRow (l : DockerLease) : Prop where
  parentLeaseId : l.parentLeaseId = none
  covered : l.covered = 0
  price : 0 ≤ l.price

theorem TopRow.booked_nonneg {l : DockerLease} (h : TopRow l) : 0 ≤ booked l := by
  rw [booked, h.covered, sub_zero]
  refine ⟨h.price.1, h.price.2, ?_⟩
  show 0 ≤ if l.takesSlot = true then (1 : Int) else 0
  split <;> decide

theorem TopRow.share_nonneg {l : DockerLease} (h : TopRow l) (name : CapacityPool) :
    0 ≤ share name l := by
  rw [share]
  split
  · exact h.booked_nonneg
  · exact le_refl _

def KeepsClaims (leases leases' : List DockerLease) : Prop :=
  ∀ (id : LeaseId) (l : DockerLease), leases[id]? = some l →
    ∃ l', leases'[id]? = some l' ∧ SameClaim l l'

theorem KeepsClaims.refl (leases : List DockerLease) : KeepsClaims leases leases :=
  fun _ l hl => ⟨l, hl, SameClaim.refl l⟩

theorem KeepsClaims.modify {leases : List DockerLease}
    {f : DockerLease → DockerLease} (hf : ∀ l, SameClaim l (f l)) :
    KeepsClaims leases (leases.modify id f) := by
  intro j l hl
  by_cases hj : id = j
  · subst hj
    exact ⟨f l, by rw [getElem?_modify_self, hl]; rfl, hf l⟩
  · exact ⟨l, by rw [getElem?_modify_of_ne hj]; exact hl, SameClaim.refl l⟩

theorem KeepsClaims.append (leases : List DockerLease) (new : DockerLease) :
    KeepsClaims leases (leases ++ [new]) :=
  fun _ l hl => ⟨l, getElem?_append_of_some hl, SameClaim.refl l⟩

/-- How often a lease was promoted, as its row tells. -/
def PromotedAs (n : Nat) : Option DockerLease → Prop
  | none => n = 0
  | some l =>
    match l.status with
    | .waiting => n = 0
    | .held | .orphaned => n = 1
    | .released => n ≤ 1

def StageOk (leases : List DockerLease) : Stage → Prop
  | .pending _ price | .existing _ price | .positioning _ price | .inserting _ price _ =>
    0 ≤ price
  | .booking head _ _ | .checking head _ | .promoting head | .refunding head =>
    TopRow head.lease ∧ ∃ l, leases[head.id]? = some l ∧ SameClaim head.lease l
  | .settling lease id _ _ =>
    TopRow lease ∧ ∃ l, leases[id]? = some l ∧ SameClaim lease l
  | _ => True

theorem StageOk.keeps {leases leases' : List DockerLease}
    (h : StageOk leases stage) (hk : KeepsClaims leases leases') : StageOk leases' stage := by
  have hread : ∀ (lease : DockerLease) (id : LeaseId),
      (TopRow lease ∧ ∃ l, leases[id]? = some l ∧ SameClaim lease l) →
      TopRow lease ∧ ∃ l, leases'[id]? = some l ∧ SameClaim lease l := by
    rintro lease id ⟨htop, l, hl, hsame⟩
    obtain ⟨l', hl', hsame'⟩ := hk id l hl
    exact ⟨htop, l', hl', hsame.trans hsame'⟩
  cases stage with
  | booking head left revisions | checking head left | promoting head | refunding head
  | settling lease id reason drain => exact hread _ _ h
  | _ => exact h

structure Granted (limits : CapacityPool → Ceiling) (s : Crowd) : Prop where
  ceiling : ∀ name, (s.db.pool name).ceiling = limits name
  rows : Rows (fun _ l => TopRow l) s.db.leases
  stages : ∀ stage ∈ s.sessions, StageOk s.db.leases stage
  held : ∀ name, (s.db.pool name).held
    = bookedTotal s.db.leases name + total (inFlight name) s.sessions
  within : ∀ name, (s.db.pool name).held ≤ (limits name).limit
  bookings : ∀ id, s.log.count (.booked id)
    = s.log.count (.promoted id) + s.log.count (.refunded id) + s.sessions.countP (Stage.carries id)
  promoted : ∀ id, PromotedAs (s.log.count (.promoted id)) s.db.leases[id]?

structure Effect (db db' : Database) (stage stage' : Stage) : Prop where
  ceiling : ∀ name, (db'.pool name).ceiling = (db.pool name).ceiling
  rows : Rows (fun _ l => TopRow l) db'.leases
  claims : KeepsClaims db.leases db'.leases
  ok : StageOk db'.leases stage'
  held : ∀ name, (db'.pool name).held - (db.pool name).held
    = (bookedTotal db'.leases name - bookedTotal db.leases name)
      + (inFlight name stage' - inFlight name stage)
  within : ∀ name, (db'.pool name).held ≤ (db.pool name).held ∨
    (db'.pool name).held ≤ (db.pool name).ceiling.limit
  bookings : ∀ id, (eventOf stage stage').count (.booked id) + (if stage.carries id then 1 else 0)
    = (eventOf stage stage').count (.promoted id) + (eventOf stage stage').count (.refunded id)
      + if stage'.carries id then 1 else 0
  promoted : ∀ (id : LeaseId) (n : Nat), PromotedAs n db.leases[id]? →
    PromotedAs (n + (eventOf stage stage').count (.promoted id)) db'.leases[id]?

theorem Granted.effect {i : Nat} (h : Granted limits s)
    (hp : s.sessions[i]? = some stage) (he : Effect s.db db' stage stage') :
    Granted limits
      { db := db', sessions := s.sessions.set i stage', log := s.log ++ eventOf stage stage' } := by
  have hset : s.sessions.set i stage' = s.sessions.modify i (fun _ => stage') := set_eq_modify _ _ _
  refine ⟨fun name => (he.ceiling name).trans (h.ceiling name), he.rows, fun q hq => ?_,
    fun name => ?_, fun name => ?_, fun id => ?_, fun id => ?_⟩
  · rcases mem_or_eq_of_mem_set hq with hold | rfl
    · exact (h.stages q hold).keeps he.claims
    · exact he.ok
  · show (db'.pool name).held = bookedTotal db'.leases name + total (inFlight name) _
    rw [hset, total_modify _ hp, ← sub_eq_zero]
    have hmoved := he.held name
    rw [h.held name, ← sub_eq_zero] at hmoved
    rw [← hmoved]
    abel
  · rcases he.within name with hle | hle
    · exact hle.trans (h.within name)
    · rw [← h.ceiling name]
      exact hle
  · obtain ⟨hi, rfl⟩ := List.getElem?_eq_some_iff.mp hp
    have hcarry : (if s.sessions[i].carries id then 1 else 0)
        ≤ s.sessions.countP (carries id) := by
      split
      next hc => exact countP_pos_iff.mpr ⟨_, getElem_mem hi, hc⟩
      next => exact Nat.zero_le _
    have hbook := h.bookings id
    have hstep := he.bookings id
    simp only [count_append, countP_set hi]
    omega
  · simp only [count_append]
    exact he.promoted id _ (h.promoted id)

/-! ## The steps -/

def Stage.idle : Stage → Bool
  | .promoting _ | .refunding _ => false
  | _ => true

section

variable (h : stage.idle = true)
include h

theorem inFlight_of_idle (name : CapacityPool) : inFlight name stage = 0 := by
  cases stage <;> first | rfl | cases h

theorem carries_of_idle (id : LeaseId) : stage.carries id = false := by
  cases stage <;> first | rfl | cases h

theorem eventOf_idle (h' : stage'.idle = true) : eventOf stage stage' = [] := by
  cases stage with
  | promoting head | refunding head => cases h
  | booking head left revisions =>
    cases left with
    | nil => cases stage' <;> first | rfl | cases h'
    | cons name left => rfl
  | _ => rfl

end

section

variable
    (hheld : ∀ name, (db'.pool name).held = (db.pool name).held)
    (hceiling : ∀ name, (db'.pool name).ceiling = (db.pool name).ceiling)
    (hrows : Rows (fun _ l => TopRow l) db'.leases) (hclaims : KeepsClaims db.leases db'.leases)
    (hok : StageOk db'.leases stage')
    (htotal : ∀ name, bookedTotal db'.leases name = bookedTotal db.leases name)
    (hpromoted : ∀ (id : LeaseId) (n : Nat), PromotedAs n db.leases[id]? →
      PromotedAs n db'.leases[id]?)
include hheld hceiling hrows hclaims hok htotal hpromoted

theorem Effect.quiet
    (hflight : ∀ name, inFlight name stage' = inFlight name stage)
    (hcarries : ∀ id, stage'.carries id = stage.carries id)
    (hevent : eventOf stage stage' = []) : Effect db db' stage stage' where
  ceiling := hceiling
  rows := hrows
  claims := hclaims
  ok := hok
  held name := by rw [hheld, htotal, hflight, sub_self, sub_self, sub_self, add_zero]
  within name := .inl (le_of_eq (hheld name))
  bookings id := by simp [hevent, hcarries]
  promoted id n hn := by
    rw [hevent]
    exact hpromoted id n hn

theorem Effect.idle (h : stage.idle = true) (h' : stage'.idle = true) :
    Effect db db' stage stage' :=
  Effect.quiet hheld hceiling hrows hclaims hok htotal hpromoted
    (fun name => (inFlight_of_idle h' name).trans (inFlight_of_idle h name).symm)
    (fun id => (carries_of_idle h' id).trans (carries_of_idle h id).symm) (eventOf_idle h h')

end

theorem Effect.still
    (hrows : Rows (fun _ l => TopRow l) db.leases) (hok : StageOk db.leases stage')
    (hflight : ∀ name, inFlight name stage' = inFlight name stage)
    (hcarries : ∀ id, stage'.carries id = stage.carries id)
    (hevent : eventOf stage stage' = []) : Effect db db stage stage' :=
  Effect.quiet (fun _ => rfl) (fun _ => rfl) hrows (KeepsClaims.refl _) hok (fun _ => rfl)
    (fun _ _ hn => hn) hflight hcarries hevent

theorem Effect.read (hrows : Rows (fun _ l => TopRow l) db.leases) (h : stage.idle = true)
    (h' : stage'.idle = true) (hok : StageOk db.leases stage') : Effect db db stage stage' :=
  Effect.idle (fun _ => rfl) (fun _ => rfl) hrows (KeepsClaims.refl _) hok (fun _ => rfl)
    (fun _ _ hn => hn) h h'

theorem held_bookCharged (db : Database) (claim : CapacityPool) (booking : Booking)
    (name : CapacityPool) :
    ((bookCharged db claim booking).pool name).held - (db.pool name).held
      = if name ∈ chargedPools claim then booking else 0 := by
  rw [pool_bookCharged]
  split
  · exact add_sub_cancel_left _ _
  · exact sub_self _

theorem ceiling_bookCharged (db : Database) (claim : CapacityPool) (booking : Booking)
    (name : CapacityPool) :
    ((bookCharged db claim booking).pool name).ceiling = (db.pool name).ceiling := by
  rw [pool_bookCharged]
  split <;> rfl

section

variable (name : CapacityPool)
include name

@[simp] theorem inFlight_booking (head : Head) (left : List CapacityPool)
    (revisions : CapacityPool → Nat) : inFlight name (.booking head left revisions) = 0 := rfl

@[simp] theorem inFlight_promoting (head : Head) : inFlight name (.promoting head)
      = if name ∈ chargedPools head.lease.pool then booked head.lease else 0 := rfl

@[simp] theorem inFlight_refunding (head : Head) : inFlight name (.refunding head)
      = if name ∈ chargedPools head.lease.pool then booked head.lease else 0 := rfl

@[simp] theorem inFlight_readingHead : inFlight name .readingHead = 0 := rfl

end

section

variable (hrows : Rows (fun _ l => TopRow l) db.leases)
include hrows

theorem Effect.book {revisions : CapacityPool → Nat}
    (hok : StageOk db.leases (.booking head [] revisions))
    (hb : claimPools db (chargedPools head.lease.pool) (claimOf head.lease) revisions = some db') :
    Effect db db' (.booking head [] revisions) (.promoting head) := by
  obtain ⟨hroom, rfl⟩ := claimPools_eq_some.mp hb
  have hclaim : booked head.lease = claimOf head.lease := booked_of_uncovered hok.1.covered
  refine ⟨fun name => ceiling_bookCharged db _ _ name, hrows, KeepsClaims.refl _, hok,
    fun name => ?_, fun name => ?_, fun id => ?_, fun id n hn => ?_⟩
  · rw [held_bookCharged, leases_bookCharged, sub_self, zero_add, inFlight_booking,
      inFlight_promoting, hclaim, sub_zero]
  · by_cases hname : name ∈ chargedPools head.lease.pool
    · refine .inr ?_
      rw [pool_bookCharged, if_pos hname]
      exact (hroom name hname).2
    · refine .inl (le_of_eq ?_)
      rw [pool_bookCharged, if_neg hname]
  · by_cases hid : head.id = id
    · simp [eventOf, carries, hid]
    · simp [eventOf, carries, hid]
  · simpa [eventOf] using hn

theorem Effect.promote
    (hok : StageOk db.leases (.promoting head)) (hc : claimPromotion env db head.id = some db') :
    Effect db db' (.promoting head) .readingHead := by
  obtain ⟨l, hl, hw, rfl⟩ := claimPromotion_eq_some.mp hc
  obtain ⟨htop, l', hl', hsame⟩ := hok
  obtain rfl : l' = l := Option.some.inj (hl'.symm.trans hl)
  have hself : (db.update head.id (Capacity.promoted env.now)).leases[head.id]?
      = some (Capacity.promoted env.now l') := by
    rw [leases_update, getElem?_modify_self, hl]
    rfl
  refine ⟨fun name => by rw [pool_update], ?_, KeepsClaims.modify fun l => ?_, trivial,
    fun name => ?_, fun name => .inl (by rw [pool_update]), fun id => ?_,
    fun id n hn => ?_⟩
  · exact hrows.modify (fun _ _ _ _ hr => hr)
      fun r _ hr => ⟨hr.parentLeaseId, hr.covered, hr.price⟩
  · exact ⟨rfl, rfl, rfl, rfl, rfl, rfl, rfl, rfl⟩
  · have hnew : share name (Capacity.promoted env.now l')
        = if name ∈ chargedPools head.lease.pool then booked head.lease else 0 := by
      have hpromoted : SameClaim head.lease (Capacity.promoted env.now l') :=
        hsame.trans ⟨rfl, rfl, rfl, rfl, rfl, rfl, rfl, rfl⟩
      rw [share, hpromoted.booked, hpromoted.pool]
      simp [Capacity.promoted, DockerLeaseStatus.occupying]
    rw [pool_update, sub_self, leases_update, bookedTotal,
      total_modify _ hl, hnew, share_of_not_occupying (by rw [hw]; rfl),
      inFlight_readingHead, inFlight_promoting, bookedTotal]
    abel
  · by_cases hid : head.id = id
    · simp [eventOf, carries, hid]
    · simp [eventOf, carries, hid]
  · by_cases hid : head.id = id
    · subst hid
      rw [hl] at hn
      rw [hself]
      have hzero : n = 0 := by simpa [PromotedAs, hw] using hn
      simp [eventOf, PromotedAs, Capacity.promoted, hzero]
    · simpa [eventOf, hid] using hn

theorem Effect.refund (hok : StageOk db.leases (.refunding head))
    (hroom : ∀ name ∈ chargedPools head.lease.pool, booked head.lease ≤ (db.pool name).held) :
    Effect db (returnCapacity db head.lease) (.refunding head) .readingHead := by
  rw [returnCapacity_eq hroom]
  refine ⟨fun name => ceiling_bookCharged db _ _ name, hrows, KeepsClaims.refl _, trivial,
    fun name => ?_, fun name => ?_, fun id => ?_, fun id n hn => ?_⟩
  · rw [held_bookCharged, leases_bookCharged, sub_self, zero_add, inFlight_readingHead,
      inFlight_refunding, zero_sub]
    split
    · rfl
    · exact neg_zero.symm
  · refine .inl (sub_nonpos.mp ?_)
    rw [held_bookCharged]
    split
    · exact neg_nonpos.mpr hok.1.booked_nonneg
    · exact le_refl _
  · by_cases hid : head.id = id
    · simp [eventOf, carries, hid]
    · simp [eventOf, carries, hid]
  · simpa [eventOf] using hn

theorem Effect.settle {lease : DockerLease} {reason : DockerLeaseEndReason} {drain : Bool}
    (hok : StageOk db.leases (.settling lease id reason drain))
    (ho : ∀ l, db.leases[id]? = some l → l.status.occupying = true)
    (hroom : ∀ name ∈ chargedPools lease.pool, booked lease ≤ (db.pool name).held) :
    Effect db (settle env db id lease reason) (.settling lease id reason drain)
      (if drain then .readingHead else .done) := by
  obtain ⟨htop, l, hl, hsame⟩ := hok
  have hocc := ho l hl
  have hsettle : Capacity.settle env db id lease reason
      = (bookCharged db lease.pool (-(booked lease))).update id (ended env.now reason) := by
    unfold Capacity.settle
    rw [htop.parentLeaseId, returnCapacity_eq (by simpa using hroom)]
    rfl
  have hquiet : ∀ (name : CapacityPool),
      inFlight name (if drain then .readingHead else .done) = 0 := by
    intro name
    split <;> rfl
  have hidle : ∀ (j : LeaseId),
      carries j (if drain then .readingHead else .done) = false := by
    intro j
    split <;> rfl
  have hevent : eventOf (.settling lease id reason drain) (if drain then .readingHead else .done)
      = [] := by
    split <;> rfl
  rw [hsettle]
  refine ⟨fun name => ?_, ?_, KeepsClaims.modify fun l => ?_, ?_, fun name => ?_, fun name => ?_,
    fun j => ?_, fun j n hn => ?_⟩
  · rw [pool_update, ceiling_bookCharged]
  · exact hrows.modify (fun _ _ _ _ hr => hr)
      fun r _ hr => ⟨hr.parentLeaseId, hr.covered, hr.price⟩
  · exact ⟨rfl, rfl, rfl, rfl, rfl, rfl, rfl, rfl⟩
  · split <;> exact trivial
  · have hold : share name l = if name ∈ chargedPools lease.pool then booked lease else 0 := by
      rw [share, hsame.booked, hsame.pool]
      simp [hocc]
    rw [pool_update, held_bookCharged, leases_update, leases_bookCharged,
      bookedTotal, total_modify _ hl, hold, share_of_not_occupying (l := ended env.now reason l) rfl,
      hquiet, bookedTotal]
    show _ = _ + (0 - (0 : Booking))
    split <;> abel
  · refine .inl (sub_nonpos.mp ?_)
    rw [pool_update, held_bookCharged]
    split
    · exact neg_nonpos.mpr htop.booked_nonneg
    · exact le_refl _
  · rw [hevent, hidle]
    rfl
  · by_cases hj : id = j
    · subst hj
      rw [leases_update, getElem?_modify_self, leases_bookCharged, hl]
      rw [hl] at hn
      show n + 0 ≤ 1
      cases hst : l.status with
      | waiting | released => rw [hst] at hocc; cases hocc
      | held | orphaned => exact le_of_eq (by simpa [PromotedAs, hst] using hn)
    · rw [leases_update, getElem?_modify_of_ne hj, leases_bookCharged]
      exact hn

omit hrows in
theorem admit_spec (settings : Settings) (env : Surroundings) (db : Database)
    (req : ReserveRequest) (leases : List DockerLease) :
    (openReserve settings env db req).idle = true ∧
      StageOk leases (openReserve settings env db req) := by
  unfold openReserve
  split
  · exact ⟨rfl, trivial⟩
  · cases hw : resolveWeights req.footprint req.cpus req.memoryMb with
    | error vague => exact ⟨rfl, trivial⟩
    | ok price =>
      dsimp only
      split
      · exact ⟨rfl, trivial⟩
      · exact ⟨rfl, resolveWeights_nonneg hw⟩

omit hrows in
theorem firstStage_spec (settings : Settings) (env : Surroundings)
    (hrows : Rows (fun _ l => TopRow l) db.leases) (call : GrantCall) :
    (firstStage settings env db call).idle = true ∧
      StageOk db.leases (firstStage settings env db call) := by
  cases call with
  | reserve req => exact admit_spec settings env db req db.leases
  | drainWaiters => exact ⟨rfl, trivial⟩
  | releaseLease id reason drain =>
    dsimp only [firstStage]
    cases hl : db.leases[id]? with
    | none => exact ⟨rfl, trivial⟩
    | some lease =>
      dsimp only
      split
      · exact ⟨rfl, hrows id lease hl, lease, hl, SameClaim.refl lease⟩
      · split
        · exact ⟨rfl, trivial⟩
        · exact ⟨rfl, trivial⟩

omit hrows in
theorem held_takePosition (db : Database) (name : CapacityPool) :
    ((takePosition db).1.pool name).held = (db.pool name).held ∧
      ((takePosition db).1.pool name).ceiling = (db.pool name).ceiling ∧
      ((takePosition db).1.pool name).revision = (db.pool name).revision := by
  cases name with
  | docker | host => exact ⟨rfl, rfl, rfl⟩

omit hrows in
theorem newWaiter_topRow {price : Weights} (h : 0 ≤ price) (env : Surroundings)
    (req : ReserveRequest) (position : Nat) :
    TopRow (newWaiter settings env req price position) :=
  ⟨rfl, rfl, h⟩

theorem Effect.withdraw {reason : DockerLeaseEndReason}
    (hw : ∀ l, db.leases[id]? = some l → l.status = .waiting) :
    Effect db (db.update id (withdrawn env.now reason)) (.withdrawing id reason) .done := by
  refine Effect.idle (fun name => by rw [pool_update]) (fun name => by rw [pool_update])
    (hrows.modify (fun _ _ _ _ hr => hr) fun r _ hr => ⟨hr.parentLeaseId, hr.covered, hr.price⟩)
    (KeepsClaims.modify fun l => ⟨rfl, rfl, rfl, rfl, rfl, rfl, rfl, rfl⟩) trivial
    (fun name => ?_) (fun j n hn => ?_) rfl rfl
  · refine total_modify_of_eq _ fun l hl => ?_
    rw [share_of_not_occupying rfl, share_of_not_occupying (by rw [hw l hl]; rfl)]
  · by_cases hj : id = j
    · subst hj
      rw [leases_update, getElem?_modify_self]
      cases hl : db.leases[id]? with
      | none =>
        rw [hl] at hn
        exact hn
      | some l =>
        rw [hl] at hn
        have hzero : n = 0 := by simpa [PromotedAs, hw l hl] using hn
        show n ≤ 1
        omega
    · rw [leases_update, getElem?_modify_of_ne hj]
      exact hn

theorem Effect.insert {new : DockerLease} (h : stage.idle = true) (hnew : TopRow new)
    (hw : new.status = .waiting) : Effect db (db.insert new) stage .readingHead := by
  refine Effect.idle (fun name => by rw [pool_insert]) (fun name => by rw [pool_insert])
    (hrows.append (fun _ _ _ hr => hr) hnew) (KeepsClaims.append _ new) trivial (fun name => ?_)
    (fun id n hn => ?_) h rfl
  · rw [leases_insert, bookedTotal, total_append_singleton,
      share_of_not_occupying (by rw [hw]; rfl), add_zero, bookedTotal]
  · rw [leases_insert]
    cases hl : db.leases[id]? with
    | some l =>
      rw [hl] at hn
      rw [getElem?_append_of_some hl]
      exact hn
    | none =>
      rw [hl] at hn
      cases hnew' : (db.leases ++ [new])[id]? with
      | none => exact hn
      | some l =>
        rcases of_getElem?_append_singleton hnew' with hold | ⟨-, rfl⟩
        · rw [hl] at hold
          cases hold
        · simpa [PromotedAs, hw] using hn

end

theorem Granted.room (h : Granted limits s) (name : CapacityPool) :
    (∀ (id : LeaseId) (l : DockerLease), s.db.leases[id]? = some l →
      share name l ≤ (s.db.pool name).held) ∧
    ∀ stage ∈ s.sessions, inFlight name stage ≤ (s.db.pool name).held := by
  have hflight : ∀ stage ∈ s.sessions, 0 ≤ inFlight name stage := by
    intro stage hmem
    have hok := h.stages stage hmem
    cases stage with
    | promoting head =>
      rw [inFlight_promoting]
      split
      · exact hok.1.booked_nonneg
      · exact le_refl _
    | refunding head =>
      rw [inFlight_refunding]
      split
      · exact hok.1.booked_nonneg
      · exact le_refl _
    | _ => exact le_refl _
  have hbooked : ∀ l ∈ s.db.leases, 0 ≤ share name l := by
    intro l hmem
    obtain ⟨id, hl⟩ := List.getElem?_of_mem hmem
    exact (h.rows id l hl).share_nonneg name
  rw [h.held name]
  constructor
  · intro id l hl
    exact le_add_of_le_of_nonneg (le_total hbooked (mem_of_getElem? hl))
      (total_nonneg hflight)
  · intro stage hmem
    exact le_add_of_nonneg_of_le (total_nonneg hbooked) (le_total hflight hmem)

/-- Every step of a session has its effect, as long as what it ends is as it read it. -/
theorem Granted.advance {i : Nat} (h : Granted limits s) (hp : s.sessions[i]? = some stage)
    (settings : Settings) (env : Surroundings) (late : Bool)
    (hends : endsAsRead s ⟨i, env, late⟩ = true) :
    Effect s.db (advance settings env late s.db stage).1 stage
      (advance settings env late s.db stage).2 := by
  have hok := h.stages stage (mem_of_getElem? hp)
  have hread : ∀ stage' : Stage, stage.idle = true → stage'.idle = true →
      StageOk s.db.leases stage' → Effect s.db s.db stage stage' :=
    fun stage' hi hi' => Effect.read h.rows hi hi'
  have hgoOn : ∀ (c : Prop) [Decidable c] (stage' : Stage), stage.idle = true →
      stage'.idle = true → StageOk s.db.leases stage' →
      Effect s.db s.db stage (if c then .done else stage') := by
    intro c _ stage' hi hi' hok'
    split
    · exact hread _ hi rfl trivial
    · exact hread _ hi hi' hok'
  cases stage with
  | starting call =>
    obtain ⟨hi, hst⟩ := firstStage_spec settings env h.rows call
    exact hread _ rfl hi hst
  | pending req price | existing req price => exact hgoOn _ _ rfl rfl hok
  | positioning req price =>
    have hpos := held_takePosition s.db
    exact Effect.idle (fun name => (hpos name).1) (fun name => (hpos name).2.1) h.rows
      (KeepsClaims.refl _) hok (fun _ => rfl) (fun _ _ hn => hn) rfl rfl
  | inserting req price position =>
    exact Effect.insert h.rows rfl (newWaiter_topRow hok env req position) rfl
  | readingHead =>
    dsimp only [Capacity.advance]
    cases hhead : headWaiter s.db with
    | none => exact hread _ rfl rfl trivial
    | some row =>
      obtain ⟨lease, id⟩ := row
      obtain ⟨hl, -, -⟩ := headWaiter_eq_some hhead
      exact hread _ rfl rfl ⟨h.rows _ _ hl, lease, hl, SameClaim.refl _⟩
  | booking head left revisions =>
    cases left with
    | cons name left => exact hread _ rfl rfl hok
    | nil =>
      dsimp only [Capacity.advance]
      cases hb : claimPools s.db (chargedPools head.lease.pool) (claimOf head.lease)
          revisions with
      | some booked => exact Effect.book h.rows hok hb
      | none => exact hread _ rfl rfl hok
  | checking head left =>
    cases left with
    | cons name left | nil => exact hgoOn _ _ rfl rfl hok
  | promoting head =>
    dsimp only [Capacity.advance]
    cases hc : claimPromotion env s.db head.id with
    | some granted => exact Effect.promote h.rows hok hc
    | none =>
      exact Effect.still h.rows hok (fun _ => rfl) (fun _ => rfl) rfl
  | refunding head =>
    refine Effect.refund h.rows hok fun name hname => ?_
    have hroom := (h.room name).2 _ (mem_of_getElem? hp)
    rw [inFlight_refunding, if_pos hname] at hroom
    exact hroom
  | settling lease id reason drain =>
    have hocc : ∀ l, s.db.leases[id]? = some l → l.status.occupying = true := by
      intro l hl
      simpa [endsAsRead, hp, hl] using hends
    refine Effect.settle h.rows hok hocc fun name hname => ?_
    obtain ⟨-, l, hl, hsame⟩ := hok
    have hroom := (h.room name).1 id l hl
    rw [share, hsame.booked, hsame.pool, if_pos ⟨hocc l hl, hname⟩] at hroom
    exact hroom
  | withdrawing id reason =>
    exact Effect.withdraw h.rows fun l hl => by simpa [endsAsRead, hp, hl] using hends
  | done => exact hread _ rfl rfl trivial

theorem Granted.step {t : Crowd} {move : Move}
    (h : Granted limits s) (hends : endsAsRead s move = true) (hs : Advances settings s move t) :
    Granted limits t := by
  have heq : s.advance settings move = t := hs
  rw [← heq, Crowd.advance]
  cases hp : s.sessions[move.i]? with
  | none => exact h
  | some stage => exact h.effect hp (h.advance hp settings move.env move.late hends)

theorem Empty.granted (h : Empty s) : Granted (fun name => (s.db.pool name).ceiling) s := by
  have hquiet : ∀ name, ∀ stage ∈ s.sessions, inFlight name stage = 0 := by
    intro name stage hmem
    obtain ⟨call, rfl⟩ := h.starting stage hmem
    rfl
  refine ⟨fun _ => rfl, ?_, fun stage hmem => ?_, fun name => ?_, fun name => ?_, fun id => ?_,
    fun id => ?_⟩
  · rw [h.leases]
    exact Rows.nil _
  · obtain ⟨call, rfl⟩ := h.starting stage hmem
    exact trivial
  · rw [h.held, h.leases, total_eq_zero (hquiet name), add_zero]
    rfl
  · rw [h.held]
    exact h.ceiling name
  · have hnone : s.sessions.countP (carries id) = 0 := by
      refine countP_eq_zero.mpr fun stage hmem => ?_
      obtain ⟨call, rfl⟩ := h.starting stage hmem
      simp [carries]
    rw [h.log, hnone]
    rfl
  · rw [h.log, h.leases]
    rfl

/-- **Concurrent granting never over-books.** In every state that any number of sessions reach from
    an empty ledger, when each held lease is released at most once: each pool holds what the
    occupying leases charged to it book and what is in flight, within the ceiling it had at first;
    and a lease that was promoted was promoted once, on the one booking for it that was neither
    refunded nor is in flight. -/
theorem granting_never_overbooks {s₀ s : Crowd} {trace : List Move} (h : Empty s₀)
    (hr : Run (Guarded (Advances settings) fun s move => endsAsRead s move = true) s₀ trace s) :
    (∀ name, (s.db.pool name).held
        = bookedTotal s.db.leases name + total (inFlight name) s.sessions ∧
      (s.db.pool name).held ≤ (s₀.db.pool name).ceiling.limit) ∧
    ∀ (id : LeaseId) (l : DockerLease), s.db.leases[id]? = some l →
      (l.status.occupying = true → s.log.count (.promoted id) = 1) ∧
      s.log.count (.promoted id) ≤ 1 ∧
      s.log.count (.booked id) = s.log.count (.promoted id) + s.log.count (.refunded id)
        + s.sessions.countP (Stage.carries id) := by
  have hg : Granted (fun name => (s₀.db.pool name).ceiling) s :=
    Run.invariant (P := Granted _) (fun s move t hs hstep => hs.step hstep.1 hstep.2) h.granted hr
  refine ⟨fun name => ⟨hg.held name, hg.within name⟩, fun id l hl => ?_⟩
  have hp := hg.promoted id
  rw [hl] at hp
  refine ⟨fun ho => ?_, ?_, hg.bookings id⟩
  · cases hst : l.status with
    | waiting | released => rw [hst] at ho; cases ho
    | held | orphaned => simpa [PromotedAs, hst] using hp
  · cases hst : l.status with
    | waiting => exact Nat.le_succ_of_le (le_of_eq (by simpa [PromotedAs, hst] using hp))
    | released => simpa [PromotedAs, hst] using hp
    | held | orphaned => exact le_of_eq (by simpa [PromotedAs, hst] using hp)

/-! ## Two drains book for one waiter -/

/-- A host of eight cpus with nothing on it, and some calls about to begin. -/
def emptyHost (calls : List GrantCall) : Crowd where
  db := { hostPool :=
    { ceiling := { cpus := 8, memoryMb := 16384, leases := 4, source := .probe } } }
  sessions := calls.map .starting
  log := []

theorem emptyHost_empty (calls : List GrantCall) : Empty (emptyHost calls) where
  leases := rfl
  held name := by cases name <;> rfl
  ceiling name := by
    show 0 ≤ ((emptyHost []).db.pool name).ceiling.limit
    cases name <;> decide +kernel
  starting stage hmem := by
    obtain ⟨call, -, rfl⟩ := mem_map.mp hmem
    exact ⟨call, rfl⟩
  log := rfl

/-- Steps of the sessions, in an order of their numbers. -/
def steps (order : List Nat) : List Move := order.map (fun i => ⟨i, eightCpus, false⟩)

def Crowd.play (s : Crowd) (order : List Nat) : Crowd := (steps order).foldl (Crowd.advance {}) s

theorem run_steps {cond : Crowd → Move → Bool} (order : List Nat)
    (h : meets (Crowd.advance {}) cond s (steps order) = true) :
    Run (Guarded (Advances {}) fun s move => cond s move = true) s (steps order)
      (s.play order) :=
  Run.of_meets (fun _ _ hcond => ⟨hcond, rfl⟩) h

def halfHost (label : String) : GrantCall :=
  .reserve { holderLabel := label, pool := .host, footprint := .heavy }

/-- A reservation and a drain have both booked for the same waiter, and neither has promoted it. -/
def bookedTwice : Crowd :=
  (emptyHost [halfHost "suite", .drainWaiters]).play [0, 0, 0, 0, 0, 0, 0, 0, 1, 1, 1, 1]

/-- The account of that moment: the host holds two bookings and no row has one. -/
theorem granting_never_overbooks_twoDrains :
    (bookedTwice.db.pool .host).held = ⟨8, 16384, 2⟩ ∧ bookedTotal bookedTwice.db.leases .host = 0 ∧
    (bookedTwice.db.pool .host).held
      = bookedTotal bookedTwice.db.leases .host
        + total (inFlight .host) bookedTwice.sessions := by
  have hgrant := granting_never_overbooks (emptyHost_empty [halfHost "suite", .drainWaiters])
    (run_steps [0, 0, 0, 0, 0, 0, 0, 0, 1, 1, 1, 1] (by decide +kernel))
  exact ⟨by decide +kernel, by decide +kernel, (hgrant.1 .host).1⟩

end Loregarden.Capacity

