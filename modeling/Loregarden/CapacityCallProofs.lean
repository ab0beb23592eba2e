import Loregarden.CapacityReleaseProofs

/-! # Every run of whole calls keeps the books

What each call comes to, in terms of the writes already taken apart: a release withdraws a waiter,
or releases downwards and may then drain (`releaseLease_waiting`, `releaseLease_released`,
`releaseLease_drains`); a reservation refuses, finds a lease, or enqueues one (`Reserved`); a sweep
refreshes, releases, drops and drains. From them `Books.exec`, and by induction over the run
`ledger_books`. -/

namespace Loregarden.Capacity

open Tables Runs List Option Except Database

variable {settings : Settings}
variable {env : Surroundings} {db db' a b : Database} {id : LeaseId} {lease : DockerLease}
variable {pools : List CapacityPool} {price : Weights} {req : ReserveRequest}
variable {answer : Database × DockerReservation}

/-! ## Releases -/

theorem releaseLease_waiting (hl : db.leases[id]? = some lease) (hw : lease.status = .waiting)
    (reason : DockerLeaseEndReason) (drain : Bool) :
    releaseLease env db id reason drain = (db.update id (withdrawn env.now reason), true) := by
  unfold releaseLease releaseTo
  rw [hl]
  dsimp only
  rw [if_pos (by rw [hw]; decide), if_neg (by simp [hw])]

theorem releaseLease_released (h : Books db)
    (hnw : ∀ l, db.leases[id]? = some l → l.status ≠ .waiting) (env : Surroundings)
    (reason : DockerLeaseEndReason) :
    Released id db (releaseLease env db id reason false).1 :=
  releaseTo_spec env _ reason h (Nat.le_trans (Nat.le_succ _) (Nat.le_add_left _ _)) hnw

theorem releaseLease_drains (hl : db.leases[id]? = some lease)
    (ho : lease.status.occupying = true) (reason : DockerLeaseEndReason) :
    (releaseLease env db id reason true).1
      = (drainWaiters env (releaseLease env db id reason false).1).1 := by
  unfold releaseLease releaseTo
  simp [hl, ho]

theorem releaseLease_of_not_occupying
    (hno : ∀ l, db.leases[id]? = some l → l.status.occupying = false)
    (reason : DockerLeaseEndReason) :
    releaseLease env db id reason true = releaseLease env db id reason false := by
  unfold releaseLease releaseTo
  cases hl : db.leases[id]? with
  | none => rfl
  | some lease =>
    simp [hno lease hl]

theorem SameClaim.withdrawn (now : Instant) (reason : DockerLeaseEndReason) (l : DockerLease) :
    SameClaim l (withdrawn now reason l) :=
  ⟨rfl, rfl, rfl, rfl, rfl, rfl, rfl, rfl⟩

theorem Books.withdraw (h : Books db)
    (hl : db.leases[id]? = some lease) (hw : lease.status = .waiting) (now : Instant)
    (reason : DockerLeaseEndReason) : Books (db.update id (withdrawn now reason)) := by
  refine h.update_quiet fun l hl' => ?_
  obtain rfl : lease = l := some.inj (hl.symm.trans hl')
  exact ⟨SameClaim.withdrawn now reason lease, by rw [hw]; rfl, (fun hc => by cases hc), rfl⟩

theorem Books.releaseLease (h : Books db) (env : Surroundings) (id : LeaseId)
    (reason : DockerLeaseEndReason) (drain : Bool) :
    Books (releaseLease env db id reason drain).1 := by
  have hquiet : Books (Capacity.releaseLease env db id reason false).1 := by
    by_cases hw : ∃ l, db.leases[id]? = some l ∧ l.status = .waiting
    · obtain ⟨lease, hl, hw⟩ := hw
      rw [releaseLease_waiting hl hw]
      exact h.withdraw hl hw env.now reason
    · exact (releaseLease_released h (fun l hl hl' => hw ⟨l, hl, hl'⟩) env reason).books
  cases drain with
  | false => exact hquiet
  | true =>
    by_cases ho : ∃ l, db.leases[id]? = some l ∧ l.status.occupying = true
    · obtain ⟨lease, hl, ho⟩ := ho
      rw [releaseLease_drains hl ho]
      exact hquiet.drainWaiters env
    · rw [releaseLease_of_not_occupying]
      · exact hquiet
      · intro l hl
        exact Bool.eq_false_iff.mpr fun hl' => ho ⟨l, hl, hl'⟩

theorem Books.releaseAll (env : Surroundings) (reason : DockerLeaseEndReason)
    (ids : List LeaseId) (h : Books db) :
    Books (releaseAll env reason ids db) := by
  induction ids generalizing db with
  | nil => exact h
  | cons id rest ih => exact ih (h.releaseLease env id reason false)

theorem Books.forceReleaseLease {reason : String} {ended : Bool} (h : Books db)
    (hf : forceReleaseLease env db id reason = some (db', ended)) : Books db' := by
  unfold Capacity.forceReleaseLease at hf
  cases hl : db.leases[id]? with
  | none =>
    rw [hl] at hf
    cases hf
  | some lease =>
    rw [hl] at hf
    obtain rfl := congrArg Prod.fst (some.inj hf)
    refine Books.releaseLease ?_ env id _ true
    split
    · exact h.update_quiet fun l _ =>
        ⟨⟨rfl, rfl, rfl, rfl, rfl, rfl, rfl, rfl⟩, rfl, fun hw => hw, rfl⟩
    · exact h

/-! ## Renewals, measurements and repairs -/

theorem renewed_occupying (settings : Settings) (now : Instant) (ttlSeconds : Option Int)
    (read : DockerLease) (ho : lease.status.occupying = true) :
    (renewed settings now ttlSeconds read lease).status.occupying = true := by
  dsimp only [renewed]
  split
  · rfl
  · exact ho

theorem Books.renewLease (h : Books db) (env : Surroundings) (id : LeaseId)
    (ttlSeconds : Option Int) : Books (renewLease settings env db id ttlSeconds).1 := by
  unfold Capacity.renewLease
  cases hl : db.leases[id]? with
  | none => exact h
  | some lease =>
    dsimp only
    by_cases ho : lease.status.occupying = true
    · rw [if_neg (by simp [ho])]
      refine h.update_quiet fun l hl' => ?_
      obtain rfl : lease = l := some.inj (hl.symm.trans hl')
      have hocc := renewed_occupying settings env.now ttlSeconds lease ho
      refine ⟨⟨rfl, rfl, rfl, rfl, rfl, rfl, rfl, rfl⟩, hocc.trans ho.symm, fun hw => ?_, rfl⟩
      rw [hw] at hocc
      cases hocc
    · rw [if_pos ho]
      exact h

theorem refreshCeiling_pool (env : Surroundings) (db : Database) (name p : CapacityPool) :
    (refreshCeiling env db name).pool p
      = if p = name then
          { db.pool p with ceiling := env.measured p (db.pool p).ceiling }
        else db.pool p := by
  rw [refreshCeiling, pool_setPool]
  split
  · subst p; rfl
  · rfl

theorem Books.refreshCeiling (h : Books db) (env : Surroundings)
    (name : CapacityPool) : Books (refreshCeiling env db name) := by
  refine h.of_same_held (fun p => ?_) (by simp [Capacity.refreshCeiling])
    (by simp [Capacity.refreshCeiling])
  rw [refreshCeiling_pool]
  split <;> rfl

theorem mem_chargedBy {claim pool : CapacityPool} :
    claim ∈ chargedBy pool ↔ pool ∈ chargedPools claim := by
  cases claim <;> cases pool <;> decide

theorem repairedTotals_eq (db : Database) (name : CapacityPool) :
    repairedTotals db name = bookedTotal db.leases name := by
  unfold repairedTotals bookedTotal
  induction db.leases with
  | nil => rfl
  | cons l rest ih =>
    rw [total_cons, ← ih]
    by_cases hc : l.status.occupying = true ∧ l.pool ∈ chargedBy name
    · rw [filter_cons_of_pos (by simpa using hc), share, if_pos ⟨hc.1, mem_chargedBy.mp hc.2⟩]
      ext
      · simp [booked]
      · simp [booked]
      · cases hslot : l.takesSlot with
        | false => simp [booked, hslot]
        | true => simp [booked, hslot, add_comm]
    · rw [filter_cons_of_neg (by simpa using hc), share,
        if_neg fun hc' => hc ⟨hc'.1, mem_chargedBy.mpr hc'.2⟩, zero_add]

theorem repairedCover_eq (db : Database) (id : LeaseId) :
    repairedCover db id = drawnTotal db.leases id := by
  unfold repairedCover drawnTotal
  induction db.leases with
  | nil => rfl
  | cons l rest ih =>
    rw [total_cons, ← ih]
    by_cases hc : l.parentLeaseId = some id ∧ l.status.occupying = true
    · rw [filter_cons_of_pos (by simpa using hc), drawn, if_pos ⟨hc.2, hc.1⟩]
      ext <;> simp
    · rw [filter_cons_of_neg (by simpa using hc), drawn,
        if_neg fun hc' => hc ⟨hc'.2, hc'.1⟩, zero_add]

/-- **On books that are right a repair changes no total**: it bumps the revisions. -/
theorem repairPool_eq (h : Books db) :
    repairPool db = db.mapPools (fun _ row => { row with revision := row.revision + 1 }) := by
  have htotal : ∀ db', db'.leases = db.leases → ∀ name,
      repairedTotals db' name = (db.pool name).held := by
    intro db' hl name
    rw [repairedTotals_eq, hl, h.held name]
  have hcover : ∀ db', db'.leases = db.leases → ∀ id l, db.leases[id]? = some l →
      repairedCover db' id = l.childCovered := by
    intro db' hl id l hrow
    rw [repairedCover_eq, hl, (h.row hrow).drawn]
  have hfirst : repairTotals db .docker = db.setPool .docker
      { db.pool .docker with revision := (db.pool .docker).revision + 1 } := by
    rw [repairTotals, htotal db rfl]
  have hsecond : repairTotals (repairTotals db .docker) .host
      = db.mapPools (fun _ row => { row with revision := row.revision + 1 }) := by
    rw [hfirst, repairTotals, htotal _ (by simp)]
    rfl
  unfold repairPool
  rw [hsecond]
  refine ext_rows (fun p => rfl) ?_ rfl
  apply ext_getElem?
  intro id
  rw [List.getElem?_mapIdx]
  show (db.leases[id]?).map _ = db.leases[id]?
  cases hrow : db.leases[id]? with
  | none => rfl
  | some l =>
    rw [map_some, hcover (db.mapPools _) rfl id l hrow]
    split <;> rfl

theorem Books.repairPool (h : Books db) : Books (repairPool db) := by
  rw [repairPool_eq h]
  exact h.of_same_held (fun p => by simp) rfl rfl

/-! ## Reserving -/

/-- What admission may write: the first measurement of a charged pool that had none. -/
structure Refreshed (env : Surroundings) (pools : List CapacityPool) (db db' : Database) :
    Prop where
  leases : db'.leases = db.leases
  clampChanged : db'.clampChanged = db.clampChanged
  held : ∀ p, (db'.pool p).held = (db.pool p).held
  nextPosition : ∀ p, (db'.pool p).nextPosition = (db.pool p).nextPosition
  ceiling : ∀ p, (db'.pool p).ceiling = (db.pool p).ceiling ∨
    p ∈ pools ∧ (db.pool p).ceiling.known = false ∧
      (db'.pool p).ceiling = env.measured p (db.pool p).ceiling

theorem Refreshed.refl (env : Surroundings) (pools : List CapacityPool) (db : Database) :
    Refreshed env pools db db :=
  ⟨rfl, rfl, fun _ => rfl, fun _ => rfl, fun _ => .inl rfl⟩

section

variable (h : Refreshed env pools a b)
include h

theorem Refreshed.known {p : CapacityPool} (hk : (a.pool p).ceiling.known = true) :
    (b.pool p).ceiling = (a.pool p).ceiling := by
  rcases h.ceiling p with heq | ⟨-, hun, -⟩
  · exact heq
  · rw [hk] at hun
    cases hun

theorem Refreshed.uncharged {p : CapacityPool} (hp : p ∉ pools) :
    (b.pool p).ceiling = (a.pool p).ceiling := by
  rcases h.ceiling p with heq | ⟨hmem, -, -⟩
  · exact heq
  · exact absurd hmem hp

theorem Refreshed.books (hb : Books a) : Books b := hb.of_same_held h.held h.leases h.clampChanged

end

theorem Refreshed.cons {name : CapacityPool}
    {c : Database} (hn : name ∉ pools) (hab : Refreshed env [name] a b)
    (hbc : Refreshed env pools b c) : Refreshed env (name :: pools) a c where
  leases := hbc.leases.trans hab.leases
  clampChanged := hbc.clampChanged.trans hab.clampChanged
  held p := (hbc.held p).trans (hab.held p)
  nextPosition p := (hbc.nextPosition p).trans (hab.nextPosition p)
  ceiling p := by
    by_cases hp : p = name
    · subst hp
      rw [hbc.uncharged hn]
      rcases hab.ceiling p with heq | ⟨-, hun, hm⟩
      · exact .inl heq
      · exact .inr ⟨mem_cons_self, hun, hm⟩
    · have hsame := hab.uncharged (p := p) (by simpa using hp)
      rcases hbc.ceiling p with heq | ⟨hmem, hun, hm⟩
      · exact .inl (heq.trans hsame)
      · rw [hsame] at hun hm
        exact .inr ⟨mem_cons_of_mem _ hmem, hun, hm⟩

def Admits (db : Database) (price : Weights) (p : CapacityPool) : Prop :=
  (db.pool p).ceiling.known = true ∧ price.cpus ≤ (db.pool p).ceiling.cpus ∧
    price.memoryMb ≤ (db.pool p).ceiling.memoryMb ∧ 1 ≤ (db.pool p).ceiling.leases

theorem ceilingRefusal_spec {name : CapacityPool} {refusal : Option DockerReservation}
    (h : ceilingRefusal env db name price = (db', refusal)) :
    Refreshed env [name] db db' ∧ (∀ reply, refusal = some reply → reply.state = .rejected) ∧
      (refusal = none → Admits db' price name) := by
  generalize hdb : (if (db.pool name).ceiling.known then db else refreshCeiling env db name)
    = db₁
  have hfresh : Refreshed env [name] db db₁ := by
    rw [← hdb]
    by_cases hk : (db.pool name).ceiling.known = true
    · rw [if_pos hk]
      exact Refreshed.refl env _ db
    · rw [if_neg hk]
      refine ⟨by simp [refreshCeiling], by simp [refreshCeiling], fun p => ?_, fun p => ?_,
        fun p => ?_⟩
      · rw [refreshCeiling_pool]
        split <;> rfl
      · rw [refreshCeiling_pool]
        split <;> rfl
      · rw [refreshCeiling_pool]
        split
        · subst p
          exact .inr ⟨mem_singleton_self _, Bool.eq_false_iff.mpr hk, rfl⟩
        · exact .inl rfl
  unfold ceilingRefusal at h
  rw [hdb] at h
  by_cases hk : (db₁.pool name).ceiling.known = true
  · rw [if_neg (by simp [hk])] at h
    split at h
    · obtain ⟨rfl, rfl⟩ := Prod.mk.inj h
      exact ⟨hfresh, fun reply hr => some.inj hr ▸ rfl, fun hn => by cases hn⟩
    · rename_i hfits
      obtain ⟨rfl, rfl⟩ := Prod.mk.inj h
      obtain ⟨hc, hrest⟩ := not_or.mp hfits
      obtain ⟨hm, hn⟩ := not_or.mp hrest
      exact ⟨hfresh, (fun reply hr => by cases hr),
        fun _ => ⟨hk, not_lt.mp hc, not_lt.mp hm, not_lt.mp hn⟩⟩
  · rw [if_pos hk] at h
    obtain ⟨rfl, rfl⟩ := Prod.mk.inj h
    exact ⟨hfresh, fun reply hr => some.inj hr ▸ rfl, fun hn => by cases hn⟩

theorem firstRefusal_spec (pools : List CapacityPool) (hnodup : pools.Nodup)
    {refusal : Option DockerReservation} (h : firstRefusal env db price pools = (db', refusal)) :
    Refreshed env pools db db' ∧ (∀ reply, refusal = some reply → reply.state = .rejected) ∧
      (refusal = none → ∀ p ∈ pools, Admits db' price p) := by
  induction pools generalizing db with
  | nil =>
    obtain ⟨rfl, rfl⟩ := Prod.mk.inj h
    exact ⟨Refreshed.refl env _ _, (fun _ hr => by cases hr), (fun _ _ hp => by cases hp)⟩
  | cons name rest ih =>
    obtain ⟨hname, hrest⟩ := nodup_cons.mp hnodup
    unfold firstRefusal at h
    cases hone : ceilingRefusal env db name price with
    | mk db₁ first =>
      rw [hone] at h
      obtain ⟨hfresh, hrej, hadm⟩ := ceilingRefusal_spec hone
      cases first with
      | some reply =>
        obtain ⟨rfl, rfl⟩ := Prod.mk.inj h
        exact ⟨hfresh.cons hname (Refreshed.refl env _ _), hrej, fun hn => by cases hn⟩
      | none =>
        obtain ⟨hfresh', hrej', hadm'⟩ := ih hrest h
        refine ⟨hfresh.cons hname hfresh', hrej', fun hn p hp => ?_⟩
        rcases mem_cons.mp hp with rfl | hp
        · obtain ⟨hk, hfits⟩ := hadm rfl
          unfold Admits
          rw [hfresh'.known hk]
          exact ⟨hk, hfits⟩
        · exact hadm' hn p hp

theorem chargedPools_nodup (claim : CapacityPool) : (chargedPools claim).Nodup := by
  cases claim <;> decide

section

variable {footprint : DockerFootprint} {cpus : Rat} {memoryMb : Int}
  (h : resolveWeights footprint cpus memoryMb = .ok price)
include h

theorem resolveWeights_pos :
    0 < price.cpus ∧ 0 < price.memoryMb := by
  unfold resolveWeights at h
  by_cases hboth : cpus > 0 ∧ memoryMb > 0
  · rw [if_pos hboth] at h
    obtain rfl := ok.inj h
    exact hboth
  · rw [if_neg hboth] at h
    by_cases hone : cpus > 0 ∨ memoryMb > 0
    · rw [if_pos hone] at h
      cases h
    · rw [if_neg hone] at h
      cases footprint with
      | none | custom => cases h
      | light | service | stack | heavy => obtain rfl := ok.inj h; norm_num

theorem resolveWeights_nonneg : 0 ≤ price :=
  ⟨(resolveWeights_pos h).1.le, (resolveWeights_pos h).2.le⟩

end

/-- What a reservation comes to, from the database its admission left: a
    refusal, a lease it found, or a new one in line. -/
inductive Reserved (settings : Settings) (env : Surroundings) (req : ReserveRequest)
    (db : Database) : Database × DockerReservation → Prop where
  | refused {reply : DockerReservation} :
      reply.state = .rejected → Reserved settings env req db (db, reply)
  | pending {price : Weights} {lease : DockerLease} {id : LeaseId} :
      pendingDuplicate db req price = some (lease, id) →
      Reserved settings env req db (db, queuedReservation db lease id true)
  | held {price : Weights} {lease : DockerLease} {id : LeaseId} :
      pendingDuplicate db req price = none → heldForRun db req = some (lease, id) →
      Reserved settings env req db (db, grantedReservation lease id true)
  | enqueued {price : Weights} : (0 < price.cpus ∧ 0 < price.memoryMb) →
      (∀ p ∈ chargedPools req.pool, Admits db price p) →
      pendingDuplicate db req price = none → heldForRun db req = none →
      Reserved settings env req db (enqueue settings env db req price)

theorem reserve_cases (h : reserve settings env db req = .ok answer) :
    ∃ db₁, Refreshed env (chargedPools req.pool) db db₁ ∧ Reserved settings env req db₁ answer := by
  unfold reserve at h
  by_cases hon : settings.dockerCapacityEnabled = true
  · rw [if_neg (by simp [hon])] at h
    cases hw : resolveWeights req.footprint req.cpus req.memoryMb with
    | error vague =>
      rw [hw] at h
      cases h
    | ok price =>
      rw [hw] at h
      dsimp only at h
      cases hr : firstRefusal env db price (chargedPools req.pool) with
      | mk db₁ refusal =>
        rw [hr] at h
        obtain ⟨hfresh, hrej, hadm⟩ := firstRefusal_spec _ (chargedPools_nodup _) hr
        refine ⟨db₁, hfresh, ?_⟩
        cases refusal with
        | some reply =>
          obtain rfl := ok.inj h
          exact .refused (hrej reply rfl)
        | none =>
          dsimp only at h
          cases hp : pendingDuplicate db₁ req price with
          | some row =>
            rw [hp] at h
            obtain rfl := ok.inj h
            exact .pending hp
          | none =>
            rw [hp] at h
            cases hh : heldForRun db₁ req with
            | some row =>
              rw [hh] at h
              obtain rfl := ok.inj h
              exact .held hp hh
            | none =>
              rw [hh] at h
              obtain rfl := ok.inj h
              exact .enqueued (resolveWeights_pos hw) (hadm rfl) hp hh
  · rw [if_pos hon] at h
    obtain rfl := ok.inj h
    exact ⟨db, Refreshed.refl env _ db, .refused rfl⟩

/-- The database in which a new waiter stands in line, before its drain. -/
def placed (settings : Settings) (env : Surroundings) (db : Database) (req : ReserveRequest)
    (price : Weights) : Database :=
  (takePosition db).1.insert (newWaiter settings env req price (takePosition db).2)

theorem leases_placed (env : Surroundings) (db : Database) (req : ReserveRequest)
    (price : Weights) :
    (placed settings env db req price).leases
      = db.leases ++ [newWaiter settings env req price (takePosition db).2] := by
  rw [placed, leases_insert, takePosition, leases_setPool]

theorem pool_placed_ceiling (env : Surroundings) (db : Database) (req : ReserveRequest)
    (price : Weights) (p : CapacityPool) :
    ((placed settings env db req price).pool p).ceiling = (db.pool p).ceiling := by
  rw [placed, pool_insert, takePosition, pool_setPool]
  split
  · subst p; rfl
  · rfl

theorem enqueue_fst (env : Surroundings) (db : Database) (req : ReserveRequest) (price : Weights) :
    (enqueue settings env db req price).1
      = (drainWaiters env (placed settings env db req price)).1 := by
  unfold enqueue
  dsimp only
  split <;> rfl

section

variable (h : Books db)
include h

theorem Books.placed (hp : 0 ≤ price) : Books (placed settings env db req price) := by
  refine Books.insertWaiter ?_ rfl rfl rfl rfl hp
  refine h.of_same_held (fun p => ?_) (by simp [takePosition]) (by simp [takePosition])
  rw [takePosition, pool_setPool]
  split
  · subst p; rfl
  · rfl

theorem Books.reserve (hr : reserve settings env db req = .ok answer) : Books answer.1 := by
  obtain ⟨db₁, hfresh, hres⟩ := reserve_cases hr
  have hbooks := hfresh.books h
  cases hres with
  | refused _ | pending _ | held _ _ => exact hbooks
  | enqueued hprice _ _ _ =>
    rw [enqueue_fst]
    exact (hbooks.placed ⟨hprice.1.le, hprice.2.le⟩).drainWaiters env

theorem reserveChild_cases {req : ChildRequest}
    (hr : reserveChild settings env db req = .ok answer) :
    ∃ pools db₁, Refreshed env pools db db₁ ∧ (answer.1 = db₁ ∨
        Books answer.1 ∧ ∃ child, Nested db₁ answer.1 req.parentLeaseId child) := by
  unfold reserveChild at hr
  by_cases hon : settings.dockerCapacityEnabled = true
  · rw [if_neg (by simp [hon])] at hr
    cases hp : db.leases[req.parentLeaseId]? with
    | none =>
      rw [hp] at hr
      obtain rfl := ok.inj hr
      exact ⟨[], db, Refreshed.refl env _ db, .inl rfl⟩
    | some parent =>
      rw [hp] at hr
      dsimp only at hr
      by_cases ho : parent.status.occupying = true
      · rw [if_neg (by simp [ho])] at hr
        by_cases hsub : chargedPools (req.pool.getD parent.pool) ⊆ chargedPools parent.pool
        · rw [if_neg (by simpa using hsub)] at hr
          cases hw : resolveWeights req.footprint req.cpus req.memoryMb with
          | error vague =>
            rw [hw] at hr
            cases hr
          | ok price =>
            rw [hw] at hr
            dsimp only at hr
            cases hf : firstRefusal env db price
                (chargedPools (req.pool.getD parent.pool)) with
            | mk db₁ refusal =>
              rw [hf] at hr
              obtain ⟨hfresh, -, -⟩ := firstRefusal_spec _ (chargedPools_nodup _) hf
              refine ⟨_, db₁, hfresh, ?_⟩
              cases refusal with
              | some reply =>
                obtain rfl := ok.inj hr
                exact .inl rfl
              | none =>
                obtain rfl := ok.inj hr
                exact grant_cases (hfresh.books h)
                  ⟨rfl, rfl, rfl, rfl, resolveWeights_nonneg hw⟩ env.retries
        · rw [if_pos hsub] at hr
          obtain rfl := ok.inj hr
          exact ⟨[], db, Refreshed.refl env _ db, .inl rfl⟩
      · rw [if_pos ho] at hr
        obtain rfl := ok.inj hr
        exact ⟨[], db, Refreshed.refl env _ db, .inl rfl⟩
  · rw [if_pos hon] at hr
    obtain rfl := ok.inj hr
    exact ⟨[], db, Refreshed.refl env _ db, .inl rfl⟩

/-! ## The sweep -/

/-- The verdict of `_judge` that writes a status: the lease has expired with no live run behind it,
    docker finds its containers running, and the row was not read as orphaned already. -/
def orphanVerdict (env : SweepSurroundings) (lease : DockerLease) : Bool :=
  lease.status ≠ .orphaned ∧ ¬ holderGone env.toSurroundings lease ∧
    lease.parentLeaseId = none ∧ expired env.now lease ∧ ¬ env.runIsLive lease ∧
    hasDockerIdentity lease ∧ (env.probeLeaseLiveness lease).state = .alive

/-- A write of clocks and probes, which sets the status only by that verdict. -/
structure Judges (env : SweepSurroundings) (lease r r' : DockerLease) : Prop where
  same : SameClaim r r'
  childCovered : r'.childCovered = r.childCovered
  position : r'.position = r.position
  status : r'.status = if orphanVerdict env lease then .orphaned else r.status

omit h in
theorem judge_cases (settings : Settings) (env : SweepSurroundings) (db : Database)
    (id : LeaseId) (lease : DockerLease) :
    ∃ f : DockerLease → DockerLease, (judge settings env db id lease).1 = db.update id f ∧
      ∀ r, Judges env lease r (f r) := by
  have hsame : ∀ r : DockerLease, SameClaim r r := SameClaim.refl
  have hstay (hv : orphanVerdict env lease = false) : ∃ f : DockerLease → DockerLease,
      db = db.update id f ∧ ∀ r, Judges env lease r (f r) := by
    refine ⟨fun l => l, ?_, fun r => ⟨hsame r, rfl, rfl, by rw [hv]; rfl⟩⟩
    refine ext_rows (fun p => (pool_update db id _ p).symm) ?_ rfl
    exact (modify_id _ _).symm
  unfold judge
  split
  next hgone => exact hstay (by simp [orphanVerdict, hgone])
  next hgone =>
    split
    next parentId hparent =>
      have hv : orphanVerdict env lease = false := by simp [orphanVerdict, hparent]
      split
      · exact hstay hv
      · split
        · exact ⟨_, rfl, fun r => ⟨⟨rfl, rfl, rfl, rfl, rfl, rfl, rfl, rfl⟩, rfl, rfl,
            by rw [hv]; rfl⟩⟩
        · exact hstay hv
    next hparent =>
      split
      next hfresh => exact hstay (by simp [orphanVerdict, hfresh])
      next hexpired =>
        split
        next hlive =>
          exact ⟨_, rfl, fun r => ⟨⟨rfl, rfl, rfl, rfl, rfl, rfl, rfl, rfl⟩, rfl, rfl,
            by simp [orphanVerdict, hlive, extend]⟩⟩
        next hdead =>
          split
          next hno => exact hstay (by simp [orphanVerdict, hno])
          next hid =>
            dsimp only
            cases hprobe : (env.probeLeaseLiveness lease).state with
            | gone =>
              exact ⟨_, rfl, fun r => ⟨⟨rfl, rfl, rfl, rfl, rfl, rfl, rfl, rfl⟩, rfl, rfl,
                by simp [orphanVerdict, hprobe, recordProbe]⟩⟩
            | unknown =>
              exact ⟨_, rfl, fun r => ⟨⟨rfl, rfl, rfl, rfl, rfl, rfl, rfl, rfl⟩, rfl, rfl,
                by simp [orphanVerdict, hprobe, recordProbe, extend]⟩⟩
            | alive =>
              refine ⟨_, rfl, fun r => ⟨⟨rfl, rfl, rfl, rfl, rfl, rfl, rfl, rfl⟩, rfl, rfl, ?_⟩⟩
              by_cases hor : lease.status = .orphaned
              · simp [orphanVerdict, orphan, extend, recordProbe, hor]
              · have hv : orphanVerdict env lease = true := by
                  simp_all [orphanVerdict]
                rw [hv]
                simp [orphan, hor]

omit h in
theorem Judges.occupying {env : SweepSurroundings} {r' : DockerLease}
    (h : Judges env lease lease r') (ho : lease.status.occupying = true) :
    r'.status.occupying = true := by
  rw [h.status]
  split
  · rfl
  · exact ho

theorem Books.judge
    (settings : Settings) (env : SweepSurroundings) (hl : db.leases[id]? = some lease)
    (ho : lease.status.occupying = true) : Books (judge settings env db id lease).1 := by
  obtain ⟨f, heq, hf⟩ := judge_cases settings env db id lease
  rw [heq]
  refine h.update_quiet fun l hl' => ?_
  obtain rfl : lease = l := some.inj (hl.symm.trans hl')
  have hocc := (hf lease).occupying ho
  refine ⟨(hf lease).same, hocc.trans ho.symm, fun hw => ?_, (hf lease).childCovered⟩
  rw [hw] at hocc
  cases hocc

theorem Books.sweepLease (env : SweepSurroundings)
    (id : LeaseId) : Books (sweepLease settings env db id) := by
  unfold Capacity.sweepLease
  cases hl : db.leases[id]? with
  | none => exact h
  | some lease =>
    dsimp only
    by_cases ho : lease.status.occupying = true
    · rw [if_neg (by simp [ho])]
      have hj := h.judge settings env hl ho
      cases hjudge : Capacity.judge settings env db id lease with
      | mk db₁ outcome =>
        rw [hjudge] at hj
        cases outcome with
        | none => exact hj
        | some reason => exact hj.releaseLease env.toSurroundings id reason false
    · rw [if_pos ho]
      exact h

theorem Books.dropWaiter (env : SweepSurroundings)
    (row : DockerLease × LeaseId) : Books (dropWaiter settings env db row) := by
  unfold Capacity.dropWaiter
  split
  · exact h.releaseLease _ _ _ _
  · split
    · exact h.releaseLease _ _ _ _
    · exact h

omit h in
theorem foldl_keeps {α : Type*} {P : Database → Prop} {turn : Database → α → Database}
    (hturn : ∀ db a, P db → P (turn db a)) (l : List α) (h : P db) :
    P (l.foldl turn db) := by
  induction l generalizing db with
  | nil => exact h
  | cons a rest ih => exact ih (hturn db a h)

theorem Books.reapDockerLeases (env : SweepSurroundings) :
    Books (reapDockerLeases settings env db) := by
  unfold Capacity.reapDockerLeases
  split
  · exact h
  · dsimp only
    split
    · exact h
    · refine Books.drainWaiters (Books.repairPool ?_) env.toSurroundings
      refine foldl_keeps (fun db row hdb => hdb.dropWaiter env row) _ ?_
      refine foldl_keeps (fun db id hdb => hdb.sweepLease env id) _ ?_
      split
      · exact (h.refreshCeiling _ _).refreshCeiling _ _
      · exact h.refreshCeiling _ _

/-! ## Runs -/

omit h in
theorem Books.empty : Books {} where
  held name := by cases name <;> rfl
  rows := Rows.nil _
  unclamped := rfl

theorem Books.exec (settings : Settings) (call : Call) : Books (exec settings db call) := by
  cases call with
  | reserve env req =>
    dsimp only [Capacity.exec]
    cases hr : Capacity.reserve settings env db req with
    | error _ => exact h
    | ok answer => exact h.reserve hr
  | reserveChild env req =>
    dsimp only [Capacity.exec]
    cases hr : Capacity.reserveChild settings env db req with
    | error _ => exact h
    | ok answer =>
      obtain ⟨pools, db₁, hfresh, hcase⟩ := reserveChild_cases h hr
      rcases hcase with heq | ⟨hbooks, -⟩
      · show Books answer.1
        rw [heq]
        exact hfresh.books h
      · exact hbooks
  | drainWaiters env => exact h.drainWaiters env
  | releaseLease env id reason drain => exact h.releaseLease env id reason drain
  | forceReleaseLease env id reason =>
    dsimp only [Capacity.exec]
    cases hf : Capacity.forceReleaseLease env db id reason with
    | none => exact h
    | some answer => exact h.forceReleaseLease hf
  | renewLease env id ttlSeconds => exact h.renewLease env id ttlSeconds
  | reclaimDeadHolders env => exact Books.releaseAll _ _ _ h
  | repairPool => exact h.repairPool
  | refreshCeiling env pool => exact h.refreshCeiling env pool
  | reapDockerLeases env => exact h.reapDockerLeases env

end

theorem run_foldl (db : Database) (calls : List Call) :
    Run (Completes settings) db calls (calls.foldl (exec settings) db) :=
  Run.of_foldl (fun _ _ => rfl) db calls

theorem run_of_meets {cond : Database → Call → Bool} {calls : List Call}
    (h : meets (exec settings) cond db calls = true) :
    Run (Guarded (Completes settings) fun db call => cond db call = true) db calls
      (calls.foldl (exec settings) db) :=
  Run.of_meets (fun _ _ hcond => ⟨hcond, rfl⟩) h

theorem Books.run {calls : List Call} (h : Books db)
    (hr : Run (Completes settings) db calls db') : Books db' :=
  Run.invariant (P := Books) (fun db call db' hb hs => by
    have heq : Capacity.exec settings db call = db' := hs
    exact heq ▸ hb.exec settings call) h hr

/-- **The ledger adds up.** After every sequence of completed calls from an empty ledger: each pool
    holds what the occupying leases charged to it book; each occupying lease has lent what its
    occupying children draw, and no more than its price; each occupying child has an occupying
    parent; no clamp at zero has changed a value; and a repair changes no total. -/
theorem ledger_books {db : Database} {calls : List Call}
    (hr : Run (Completes settings) {} calls db) :
    (∀ name, (db.pool name).held = bookedTotal db.leases name) ∧
    (∀ (id : LeaseId) (l : DockerLease), db.leases[id]? = some l → l.status.occupying = true →
      l.childCovered = drawnTotal db.leases id ∧ l.childCovered ≤ l.price) ∧
    (∀ (id : LeaseId) (l : DockerLease) (p : LeaseId), db.leases[id]? = some l →
      l.status.occupying = true → l.parentLeaseId = some p →
      ∃ parent, db.leases[p]? = some parent ∧ parent.status.occupying = true) ∧
    db.clampChanged = false ∧
    (∀ name, ((repairPool db).pool name).held = (db.pool name).held) ∧
    (repairPool db).leases = db.leases := by
  have h : Books db := Books.empty.run hr
  refine ⟨h.held, fun id l hl _ => ⟨(h.row hl).drawn, (h.row hl).lent⟩,
    fun id l p hl ho hp => (h.row hl).parent_live ho p hp, h.unclamped, fun name => ?_, ?_⟩
  · rw [repairPool_eq h, Database.pool_mapPools]
  · rw [repairPool_eq h]
    rfl

def eightCpus : Surroundings :=
  { now := 0
    measured := fun _ _ => { cpus := 8, memoryMb := 16384, leases := 4, source := .probe }
    pidAlive := fun _ => true
    retries := 0 }

/-- A suite on the host, two children inside it (the second has an excess of two
    cpus to book), and the end of the first child. -/
def nestedCalls : List Call :=
  [.reserve eightCpus { agentRunId := some 1, pool := .host, footprint := .heavy },
    .reserveChild eightCpus { parentLeaseId := 0, footprint := .stack },
    .reserveChild eightCpus { parentLeaseId := 0, footprint := .heavy },
    .releaseLease eightCpus 1 .released true]

/-- The books at that ledger, with six cpus held and two drawn from the suite. -/
theorem ledger_books_nested : ((nestedCalls.foldl (exec {}) {}).pool .host).held = ⟨6, 12288, 1⟩ ∧
    ((nestedCalls.foldl (exec {}) {}).pool .host).held
      = bookedTotal (nestedCalls.foldl (exec {}) {}).leases .host ∧
    (repairPool (nestedCalls.foldl (exec {}) {})).leases
      = (nestedCalls.foldl (exec {}) {}).leases := by
  obtain ⟨hheld, -, -, -, -, hleases⟩ := ledger_books (run_foldl {} nestedCalls)
  exact ⟨by decide +kernel, hheld .host, hleases⟩

end Loregarden.Capacity

