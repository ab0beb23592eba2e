import Loregarden.CapacityEvolveProofs

/-! # When a waiter wedges the line

When nothing occupies, a pool holds nothing, so the head of the line is promoted exactly when it
fits the whole ceilings (`drain_promotes_iff`). Admission checks that once, when the claim is made;
it stays so as long as no later measurement leaves a ceiling that a waiting claim no longer fits
(`line_never_wedges`). One that does wedges the line (`shrunk_ceiling_wedges`). -/

namespace Loregarden.Capacity

open Tables Runs List

variable {settings : Settings}
variable {db db' : Database} {env : Surroundings} {l : DockerLease}

/-- A claim fits the whole ceiling of each pool it is charged to. -/
def FitsWhole (db : Database) (lease : DockerLease) : Prop :=
  ∀ p ∈ chargedPools lease.pool, claimOf lease ≤ (db.pool p).ceiling.limit

def Idle (db : Database) : Prop :=
  ∀ (id : LeaseId) (l : DockerLease), db.leases[id]? = some l → l.status.occupying = false

theorem idle_of_all (h : db.leases.all (fun l => l.status.occupying = false) = true) : Idle db :=
  fun _ l hl => of_decide_eq_true (all_eq_true.mp h l (mem_of_getElem? hl))

theorem Books.held_of_idle (h : Books db) (hidle : Idle db)
    (p : CapacityPool) : (db.pool p).held = 0 := by
  rw [h.held p]
  refine total_eq_zero fun l hl => ?_
  obtain ⟨id, hid⟩ := mem_iff_getElem?.mp hl
  exact share_of_not_occupying (hidle id l hid) p

/-- **An idle ledger promotes its front waiter exactly when it fits.** -/
theorem drain_promotes_iff {lease : DockerLease} {id : LeaseId} (h : Books db) (hidle : Idle db)
    (hhead : headWaiter db = some (lease, id)) (env : Surroundings) :
    (∃ rest, (drainWaiters env db).2 = id :: rest) ↔ FitsWhole db lease := by
  have hroom : (∀ p ∈ chargedPools lease.pool,
      (db.pool p).held + claimOf lease ≤ (db.pool p).ceiling.limit) ↔ FitsWhole db lease := by
    refine forall_congr' fun p => forall_congr' fun _ => ?_
    rw [h.held_of_idle hidle p, zero_add]
  rw [← hroom]
  unfold drainWaiters
  cases hbook : bookOnce db lease with
  | none =>
    rw [drainLoop_succ_of_none _ hhead hbook]
    constructor
    · rintro ⟨rest, hrest⟩
      cases hrest
    · intro hfits
      have hsome := bookOnce_eq_some.mpr ⟨hfits, rfl⟩
      rw [hbook] at hsome
      cases hsome
  | some booked =>
    rw [drainLoop_succ_of_some _ hhead hbook]
    exact ⟨fun _ => (bookOnce_eq_some.mp hbook).1, fun _ => ⟨_, rfl⟩⟩

/-! ## Measurements that leave room -/

/-- Whether a measurement of a pool leaves a ceiling that every waiting claim
    charged to it still fits. -/
def leavesRoom (db : Database) (env : Surroundings) (p : CapacityPool) : Bool :=
  (waiters db).all (fun row =>
    p ∉ chargedPools row.1.pool ∨ claimOf row.1 ≤ (env.measured p (db.pool p).ceiling).limit)

/-- Whether every pool a call measures is left with room. -/
def measuresRoom (db : Database) : Call → Bool
  | .reserve env req =>
    (chargedPools req.pool).all (fun p => (db.pool p).ceiling.known || leavesRoom db env p)
  | .reserveChild env _ =>
    [CapacityPool.docker, .host].all
      (fun p => (db.pool p).ceiling.known || leavesRoom db env p)
  | .refreshCeiling env p => leavesRoom db env p
  | .reapDockerLeases env =>
    leavesRoom db env.toSurroundings .docker && leavesRoom db env.toSurroundings .host
  | _ => true

def WaitersFit (db : Database) : Prop :=
  ∀ (id : LeaseId) (l : DockerLease), db.leases[id]? = some l → l.status = .waiting → FitsWhole db l

theorem leavesRoom_spec {p : CapacityPool} (h : leavesRoom db env p = true) {id : LeaseId}
    (hl : db.leases[id]? = some l) (hw : l.status = .waiting) (hp : p ∈ chargedPools l.pool) :
    claimOf l ≤ (env.measured p (db.pool p).ceiling).limit := by
  have hall := all_eq_true.mp h (l, id) (mem_waiters.mpr ⟨hl, hw⟩)
  rcases of_decide_eq_true hall with hout | hfits
  · exact absurd hp hout
  · exact hfits

theorem WaitersFit.remeasured (h : WaitersFit db) (hl : db'.leases = db.leases)
    (hc : ∀ p, (db'.pool p).ceiling = (db.pool p).ceiling ∨
      ∀ (id : LeaseId) (l : DockerLease), db.leases[id]? = some l → l.status = .waiting →
        p ∈ chargedPools l.pool → claimOf l ≤ (db'.pool p).ceiling.limit) :
    WaitersFit db' := by
  intro id l hrow hw p hp
  rw [hl] at hrow
  rcases hc p with heq | hfits
  · rw [heq]
    exact h id l hrow hw p hp
  · exact hfits id l hrow hw hp

theorem WaitersFit.evolves (h : WaitersFit db) (he : Evolves db db') : WaitersFit db' := by
  intro id l' hrow hw p hp
  obtain ⟨l, hl, hs, hwait, -⟩ := he.row id l' hrow
  rw [hs.claimOf, he.ceiling]
  exact h id l hl (hwait hw) p (hs.pool ▸ hp)

theorem WaitersFit.insert (h : WaitersFit db) (hl : db'.leases = db.leases ++ [l])
    (hc : ∀ p, (db'.pool p).ceiling = (db.pool p).ceiling)
    (hfits : l.status = .waiting → FitsWhole db l) : WaitersFit db' := by
  intro id l' hrow hw p hp
  rw [hl] at hrow
  rw [hc]
  rcases of_getElem?_append_singleton hrow with hold | ⟨-, rfl⟩
  · exact h id l' hold hw p hp
  · exact hfits hw p hp

theorem Admits.fits {price : Weights} {p : CapacityPool}
    (h : Admits db price p) (hl : l.price = price) :
    claimOf l ≤ (db.pool p).ceiling.limit := by
  obtain ⟨-, hcpus, hmemory, hleases⟩ := h
  refine ⟨by rw [claimOf, hl]; exact hcpus, by rw [claimOf, hl]; exact hmemory, ?_⟩
  show (if l.takesSlot then (1 : Int) else 0) ≤ (db.pool p).ceiling.leases
  split <;> omega

theorem WaitersFit.reserve {req : ReserveRequest} {answer : Database × DockerReservation}
    (h : WaitersFit db) (hroom : measuresRoom db (.reserve env req) = true)
    (hr : reserve settings env db req = .ok answer) : WaitersFit answer.1 := by
  obtain ⟨db₁, hfresh, hres⟩ := reserve_cases hr
  have hfit : WaitersFit db₁ := by
    refine h.remeasured hfresh.leases fun p => ?_
    rcases hfresh.ceiling p with heq | ⟨hp, hun, hm⟩
    · exact .inl heq
    · refine .inr fun id l hl hw hc => ?_
      rw [hm]
      rcases Bool.or_eq_true_iff.mp (all_eq_true.mp hroom p hp) with hk | hleaves
      · rw [hun] at hk
        cases hk
      · exact leavesRoom_spec hleaves hl hw hc
  cases hres with
  | refused _ | pending _ | held _ _ => exact hfit
  | @enqueued price _ hadm _ _ =>
    rw [enqueue_fst]
    refine WaitersFit.evolves ?_ (Evolves.drainWaiters env _)
    refine hfit.insert (l := newWaiter settings env req price (takePosition db₁).2) ?_
      (pool_placed_ceiling env db₁ req price) fun _ p hp => (hadm p hp).fits rfl
    rw [placed, Database.leases_insert, takePosition, Database.leases_setPool]

theorem WaitersFit.reserveChild {req : ChildRequest} {answer : Database × DockerReservation}
    (hb : Books db) (h : WaitersFit db) (hroom : measuresRoom db (.reserveChild env req) = true)
    (hr : reserveChild settings env db req = .ok answer) : WaitersFit answer.1 := by
  obtain ⟨pools, db₁, hfresh, hcase⟩ := reserveChild_cases hb hr
  have hfit : WaitersFit db₁ := by
    refine h.remeasured hfresh.leases fun p => ?_
    rcases hfresh.ceiling p with heq | ⟨-, hun, hm⟩
    · exact .inl heq
    · refine .inr fun id l hl hw hc => ?_
      rw [hm]
      rcases Bool.or_eq_true_iff.mp (all_eq_true.mp hroom p (by cases p <;> decide))
        with hk | hleaves
      · rw [hun] at hk
        cases hk
      · exact leavesRoom_spec hleaves hl hw hc
  rcases hcase with heq | ⟨-, child, hnested⟩
  · rw [heq]
    exact hfit
  · -- the parent's drawn total moves, and a held row is inserted
    obtain ⟨w, hleases⟩ := hnested.leases
    have hcover : WaitersFit (db₁.update req.parentLeaseId (addCover w)) :=
      hfit.evolves (Evolves.update fun l _ =>
        ⟨⟨rfl, rfl, rfl, rfl, rfl, rfl, rfl, rfl⟩, fun hw => hw, fun hr => hr⟩)
    refine hcover.insert (l := child) hleases (fun p => ?_) fun hw => ?_
    · rw [hnested.ceiling, Database.pool_update]
    · rw [hnested.status] at hw
      cases hw

theorem WaitersFit.exec {call : Call} (hb : Books db) (h : WaitersFit db)
    (hroom : measuresRoom db call = true) : WaitersFit (exec settings db call) := by
  cases call with
  | reserve env req =>
    dsimp only [Capacity.exec]
    cases hr : Capacity.reserve settings env db req with
    | error _ => exact h
    | ok answer => exact h.reserve hroom hr
  | reserveChild env req =>
    dsimp only [Capacity.exec]
    cases hr : Capacity.reserveChild settings env db req with
    | error _ => exact h
    | ok answer => exact h.reserveChild hb hroom hr
  | drainWaiters env => exact h.evolves (Evolves.drainWaiters env db)
  | releaseLease env id reason drain => exact h.evolves (Evolves.releaseLease hb env id reason drain)
  | forceReleaseLease env id reason =>
    dsimp only [Capacity.exec]
    cases hf : Capacity.forceReleaseLease env db id reason with
    | none => exact h
    | some answer => exact h.evolves (Evolves.forceReleaseLease hb hf)
  | renewLease env id ttlSeconds => exact h.evolves (Evolves.renewLease env db id ttlSeconds)
  | reclaimDeadHolders env => exact h.evolves (Evolves.releaseAll _ _ _ hb)
  | repairPool => exact h.evolves (Evolves.repairPool hb)
  | refreshCeiling env pool =>
    refine h.remeasured (by simp [Capacity.exec, Capacity.refreshCeiling]) fun p => ?_
    show ((Capacity.refreshCeiling env db pool).pool p).ceiling = _ ∨ _
    rw [show Capacity.exec settings db (.refreshCeiling env pool)
      = Capacity.refreshCeiling env db pool from rfl, refreshCeiling_pool]
    by_cases hp : p = pool
    · subst hp
      rw [if_pos rfl]
      exact .inr fun id l hl hw hc => leavesRoom_spec hroom hl hw hc
    · rw [if_neg hp]
      exact .inl rfl
  | reapDockerLeases env =>
    obtain ⟨db₁, hl, hc, hev⟩ := reapDockerLeases_cases hb settings env
    obtain ⟨hdocker, hhost⟩ := Bool.and_eq_true_iff.mp hroom
    refine WaitersFit.evolves (h.remeasured hl fun p => ?_) hev
    rcases hc p with heq | hm
    · exact .inl heq
    · refine .inr fun id l hrow hw hp => ?_
      rw [hm]
      cases p with
      | docker => exact leavesRoom_spec hdocker hrow hw hp
      | host => exact leavesRoom_spec hhost hrow hw hp

/-- **The line cannot wedge while measurements leave room for the waiters**: in every run whose
    measurements do, a drain of an idle ledger promotes its front waiter. -/
theorem line_never_wedges {db : Database} {calls : List Call}
    (hr : Run (Guarded (Completes settings) fun db call => measuresRoom db call = true)
      {} calls db) (hidle : Idle db) {lease : DockerLease} {id : LeaseId}
    (hhead : headWaiter db = some (lease, id)) (env : Surroundings) :
    ∃ rest, (drainWaiters env db).2 = id :: rest := by
  have hinv : Books db ∧ WaitersFit db := Run.invariant
    (P := fun db => Books db ∧ WaitersFit db)
    (fun db call db' h hs => by
      have heq : Capacity.exec settings db call = db' := hs.2
      exact heq ▸ ⟨h.1.exec settings call, h.2.exec h.1 hs.1⟩)
    ⟨Books.empty, fun id l hl => by cases hl⟩ hr
  obtain ⟨hrow, hw, -⟩ := headWaiter_eq_some hhead
  exact (drain_promotes_iff hinv.1 hidle hhead env).mpr (hinv.2 id lease hrow hw)

/-- A suite of four cpus on a machine of eight, and another of six in line behind it. -/
def sixBehindFour : List Call :=
  [.reserve eightCpus { holderLabel := "four", pool := .host, cpus := 4, memoryMb := 1024 },
    .reserve eightCpus { holderLabel := "six", pool := .host, cpus := 6, memoryMb := 1024 }]

def sixWaiting : Database :=
  (sixBehindFour ++ [Call.releaseLease eightCpus 0 .pidGone false]).foldl (exec {}) {}

/-- The drain at that ledger promotes the second suite. -/
theorem line_never_wedges_sixWaiting :
    ∃ rest, (drainWaiters eightCpus sixWaiting).2 = 1 :: rest := by
  have hidle : Idle sixWaiting := idle_of_all (by decide +kernel)
  have hfront : (headWaiter sixWaiting).map Prod.snd = some 1 := by decide +kernel
  obtain ⟨⟨lease, id⟩, hhead, rfl⟩ := Option.map_eq_some_iff.mp hfront
  exact line_never_wedges (run_of_meets (by decide +kernel)) hidle hhead
    eightCpus

def twoCpus : Surroundings :=
  { eightCpus with
    measured := fun _ _ => { cpus := 2, memoryMb := 16384, leases := 4, source := .probe } }

/-- The machine shrinks while the second suite waits; then the first ends. -/
def sixWedged : Database :=
  (sixBehindFour ++ [.refreshCeiling twoCpus .host,
    Call.releaseLease twoCpus 0 .released true]).foldl (exec {}) {}

/-- Nothing occupies, and the front waiter is never promoted. -/
theorem shrunk_ceiling_wedges :
    ¬ ∀ (db : Database) (calls : List Call), Run (Completes {}) {} calls db → Idle db →
      ∀ (lease : DockerLease) (id : LeaseId), headWaiter db = some (lease, id) →
      ∀ env, ∃ rest, (drainWaiters env db).2 = id :: rest := by
  intro h
  have hidle : Idle sixWedged := idle_of_all (by decide +kernel)
  have hfront : (headWaiter sixWedged).map Prod.snd = some 1 := by decide +kernel
  have hdrain : (drainWaiters twoCpus sixWedged).2 = [] := by decide +kernel
  obtain ⟨⟨lease, id⟩, hhead, -⟩ := Option.map_eq_some_iff.mp hfront
  obtain ⟨rest, hrest⟩ := h sixWedged _ (run_foldl {} _) hidle lease id hhead twoCpus
  rw [hdrain] at hrest
  cases hrest

end Loregarden.Capacity
