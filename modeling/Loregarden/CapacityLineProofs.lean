import Loregarden.CapacityEvolveProofs

/-! # The line stays settled

A drain stops only where the head of the line is short of something (`lineSettled_drainWaiters`), so
after each call that drains the line is settled. The one call that changes the head and does not
drain is the release of a waiter: the line stays settled as long as no call withdraws the front
waiter while the next one fits (`line_stays_settled`, `withdrawn_front_leaves_room`). -/

namespace Loregarden.Capacity

open Tables Runs List Option

variable {settings : Settings}
variable {db : Database} {id : LeaseId}

/-! ## A drain settles the line -/

/-- Either nobody waits, or the front waiter is short of something in a pool it is charged to. -/
def LineSettled (db : Database) : Prop :=
  ∀ lease id, headWaiter db = some (lease, id) →
    ∃ p ∈ chargedPools lease.pool, shortfalls p (db.pool p) lease ≠ []

theorem isFull_iff {lease : DockerLease} : isFull db lease = true ↔
      ∃ p ∈ chargedPools lease.pool, shortfalls p (db.pool p) lease ≠ [] := by
  simp [isFull]

theorem length_waiters (db : Database) :
    (waiters db).length = db.leases.countP (fun l => l.status = .waiting) := by
  have hfst : db.leases.zipIdx.map Prod.fst = db.leases := by simp
  conv_rhs => rw [← hfst, countP_map]
  rw [waiters, Database.select, countP_eq_length_filter]
  rfl

theorem lineSettled_drainLoop (env : Surroundings) (turns : Nat)
    (ht : (waiters db).length < turns) : LineSettled (drainLoop env turns db).1 := by
  induction turns generalizing db with
  | zero => omega
  | succ turns ih =>
    cases hhead : headWaiter db with
    | none =>
      rw [drainLoop_succ_of_empty turns hhead]
      intro lease id h
      rw [hhead] at h
      cases h
    | some row =>
      obtain ⟨lease, id⟩ := row
      cases hbook : bookOnce db lease with
      | none =>
        rw [drainLoop_succ_of_none turns hhead hbook]
        intro lease' id' h
        rw [hhead] at h
        obtain ⟨rfl, rfl⟩ := Prod.mk.inj (some.inj h)
        exact isFull_iff.mp (bookOnce_eq_none.mp hbook)
      | some booked =>
        rw [drainLoop_succ_of_some turns hhead hbook]
        obtain ⟨hrow, hw, -⟩ := headWaiter_eq_some hhead
        obtain ⟨-, rfl⟩ := bookOnce_eq_some.mp hbook
        refine ih ?_
        have hless := countP_modify (q := fun l => decide (l.status = .waiting))
          (g := promoted env.now) hrow (decide_eq_true hw) rfl
        rw [length_waiters] at ht ⊢
        rw [Database.leases_update, leases_bookCharged]
        omega

theorem lineSettled_drainWaiters (env : Surroundings) (db : Database) :
    LineSettled (drainWaiters env db).1 :=
  lineSettled_drainLoop env _ (Nat.lt_succ_self _)

/-- The line is settled wherever the waiters, their claims and what is free are the same. -/
theorem LineSettled.of_same {db' : Database} (h : LineSettled db)
    (hl : db'.leases = db.leases) (hheld : ∀ p, (db'.pool p).held = (db.pool p).held)
    (hc : ∀ p, (db'.pool p).ceiling = (db.pool p).ceiling) : LineSettled db' := by
  intro lease id hhead
  have hsame : headWaiter db' = headWaiter db := by
    simp only [headWaiter, waiters, Database.select, hl]
  obtain ⟨p, hp, hshort⟩ := h lease id (hsame ▸ hhead)
  refine ⟨p, hp, fun hnil => hshort ?_⟩
  rw [shortfalls_eq_nil_iff] at hnil ⊢
  rw [hheld, hc] at hnil
  exact hnil

/-- Who would be first in line without one of the waiters. -/
def nextWaiter (db : Database) (id : LeaseId) : Option (DockerLease × LeaseId) :=
  firstByPosition ((waiters db).filter (fun row => row.2 ≠ id))

theorem firstByPosition_filter {rows : List (DockerLease × LeaseId)} {row : DockerLease × LeaseId}
    {q : DockerLease × LeaseId → Bool} (h : firstByPosition rows = some row) (hq : q row = true) :
    firstByPosition (rows.filter q) = some row := by
  induction rows generalizing row with
  | nil => cases h
  | cons a rows ih =>
    have hcons : ∀ b rest, firstByPosition (b :: rest)
        = Option.casesOn (firstByPosition rest) (some b)
            (fun c => if c.1.position < b.1.position then some c else some b) :=
      fun b rest => argmin_cons _ b rest
    rw [hcons] at h
    cases hrest : firstByPosition rows with
    | none =>
      rw [hrest] at h
      obtain rfl : a = row := some.inj h
      rw [firstByPosition_eq_none.mp hrest, filter_cons_of_pos hq]
      rfl
    | some c =>
      rw [hrest] at h
      dsimp only at h
      by_cases hlt : c.1.position < a.1.position
      · rw [if_pos hlt] at h
        obtain rfl : c = row := some.inj h
        have hih := ih hrest hq
        by_cases hqa : q a = true
        · rw [filter_cons_of_pos hqa, hcons, hih]
          exact if_pos hlt
        · rw [filter_cons_of_neg hqa]
          exact hih
      · rw [if_neg hlt] at h
        obtain rfl : a = row := some.inj h
        rw [filter_cons_of_pos hq, hcons]
        cases hfirst : firstByPosition (rows.filter q) with
        | none => rfl
        | some d =>
          have hmem := (mem_filter.mp (firstByPosition_mem hfirst).1).1
          have hle := (firstByPosition_mem hrest).2 d hmem
          exact if_neg (by omega)

theorem headWaiter_update {f : DockerLease → DockerLease}
    (hf : ∀ l, (f l).status ≠ .waiting) : headWaiter (db.update id f) = nextWaiter db id := by
  refine congrArg firstByPosition
    (filter_zipIdx_modify (q := fun l : DockerLease => decide (l.status = .waiting)) ?_ 0)
  intro r _
  exact decide_eq_false (hf r)

/-- Whether withdrawing a lease puts first in line a waiter that fits: it is the
    front waiter, and the one behind it is short of nothing. -/
def opensTheLine (db : Database) (id : LeaseId) : Bool :=
  match headWaiter db, nextWaiter db id with
  | some front, some next => front.2 = id ∧ isFull db next.1 = false
  | _, _ => false

theorem LineSettled.update {f : DockerLease → DockerLease} (h : LineSettled db)
    (hopen : opensTheLine db id = false) (hrow : db.leases[id]? ≠ none)
    (hf : ∀ l, (f l).status ≠ .waiting) (hw : ∀ l, db.leases[id]? = some l → l.status = .waiting) :
    LineSettled (db.update id f) := by
  intro next nextId hnext
  rw [headWaiter_update hf] at hnext
  have hfull : isFull db next = true := by
    cases hhead : headWaiter db with
    | none =>
      -- nobody waits, but the row does
      obtain ⟨lease, hl⟩ := ne_none_iff_exists'.mp hrow
      exact absurd (hw lease hl) (headWaiter_eq_none.mp hhead id lease hl)
    | some front =>
      obtain ⟨lease, front⟩ := front
      by_cases hfront : front = id
      · subst hfront
        simpa [opensTheLine, hhead, hnext] using hopen
      · have hsame : nextWaiter db id = some (lease, front) :=
          firstByPosition_filter hhead (decide_eq_true hfront)
        rw [hsame] at hnext
        obtain ⟨rfl, rfl⟩ := Prod.mk.inj (some.inj hnext)
        exact isFull_iff.mpr (h lease front hhead)
  obtain ⟨p, hp, hshort⟩ := isFull_iff.mp hfull
  refine ⟨p, hp, ?_⟩
  exact hshort

/-! ## The line stays settled -/

/-- The calls that serve the line, each draining where it can. -/
def lineCall : Call → Bool
  | .reserve _ _ => true
  | .drainWaiters _ => true
  | .releaseLease _ _ _ drain => drain
  | .forceReleaseLease _ _ _ => true
  | _ => false

def Call.released : Call → Option LeaseId
  | .releaseLease _ id _ _ => some id
  | .forceReleaseLease _ id _ => some id
  | _ => none

/-- One of those calls, that does not withdraw the front waiter ahead of one that fits. -/
def servesTheLine (db : Database) (call : Call) : Bool :=
  lineCall call && call.released.all (fun id => !opensTheLine db id)

/-- An empty ledger whose ceilings have been measured. -/
structure Measured (db : Database) : Prop where
  leases : db.leases = []
  held : ∀ p, (db.pool p).held = 0
  known : ∀ p, (db.pool p).ceiling.known = true
  unclamped : db.clampChanged = false

theorem Measured.books (h : Measured db) : Books db where
  held name := by
    rw [h.held, h.leases]
    rfl
  rows := by
    rw [h.leases]
    exact Rows.nil _
  unclamped := h.unclamped

theorem Measured.lineSettled (h : Measured db) : LineSettled db := by
  intro lease id hhead
  obtain ⟨hrow, -⟩ := headWaiter_eq_some hhead
  rw [h.leases] at hrow
  cases hrow

structure Served (db : Database) : Prop where
  books : Books db
  known : ∀ p, (db.pool p).ceiling.known = true
  settled : LineSettled db

theorem releaseLease_ended {env : Surroundings}
    (hno : ∀ l, db.leases[id]? = some l → l.status = .released)
    (reason : DockerLeaseEndReason) (drain : Bool) :
    (releaseLease env db id reason drain).1 = db := by
  unfold Capacity.releaseLease releaseTo
  cases hl : db.leases[id]? with
  | none => rfl
  | some lease =>
    have hst := hno lease hl
    simp [hst, DockerLeaseStatus.occupying]

theorem released_of_not {st : DockerLeaseStatus} (hw : st ≠ .waiting)
    (ho : ¬ st.occupying = true) : st = .released := by
  cases st with
  | waiting => exact absurd rfl hw
  | released => rfl
  | held | orphaned => exact absurd rfl ho

theorem LineSettled.releaseLease (h : LineSettled db)
    (hopen : opensTheLine db id = false) (env : Surroundings) (reason : DockerLeaseEndReason) :
    LineSettled (releaseLease env db id reason true).1 := by
  by_cases hw : ∃ l, db.leases[id]? = some l ∧ l.status = .waiting
  · obtain ⟨lease, hl, hw⟩ := hw
    rw [releaseLease_waiting hl hw]
    refine h.update hopen (by simp [hl]) (fun l hc => by cases hc) fun l hl' => ?_
    obtain rfl : lease = l := some.inj (hl.symm.trans hl')
    exact hw
  · by_cases ho : ∃ l, db.leases[id]? = some l ∧ l.status.occupying = true
    · obtain ⟨lease, hl, ho⟩ := ho
      rw [releaseLease_drains hl ho]
      exact lineSettled_drainWaiters env _
    · rw [releaseLease_ended fun l hl =>
        released_of_not (fun hl' => hw ⟨l, hl, hl'⟩) fun hl' => ho ⟨l, hl, hl'⟩]
      exact h

theorem LineSettled.forceReleaseLease {db' : Database} (h : LineSettled db) {env : Surroundings}
    {reason : String} {ended : Bool} (hopen : opensTheLine db id = false)
    (hf : forceReleaseLease env db id reason = some (db', ended)) : LineSettled db' := by
  unfold Capacity.forceReleaseLease at hf
  cases hl : db.leases[id]? with
  | none =>
    rw [hl] at hf
    cases hf
  | some lease =>
    rw [hl] at hf
    obtain rfl := congrArg Prod.fst (some.inj hf)
    have hnoted : (db.update id (noted reason)).leases[id]? = some (noted reason lease) := by
      rw [Database.leases_update, getElem?_modify_self, hl]
      rfl
    by_cases hw : lease.status = .waiting
    · rw [if_pos (.inl hw), releaseLease_waiting hnoted hw]
      have hboth : (db.update id (noted reason)).update id (withdrawn env.now .forceReleased)
          = db.update id (fun l => withdrawn env.now .forceReleased (noted reason l)) := by
        refine Database.ext_rows (fun p => by simp) ?_ rfl
        exact modify_modify_eq _ _ _ _
      rw [hboth]
      refine h.update hopen (by simp [hl]) (fun l hc => by cases hc) fun l hl' => ?_
      obtain rfl : lease = l := some.inj (hl.symm.trans hl')
      exact hw
    · by_cases ho : lease.status.occupying = true
      · rw [if_pos (.inr ho), releaseLease_drains hnoted ho]
        exact lineSettled_drainWaiters env _
      · rw [if_neg (not_or.mpr ⟨hw, ho⟩)]
        exact h.releaseLease hopen env .forceReleased

theorem Served.exec {call : Call} (h : Served db)
    (hserves : servesTheLine db call = true) : Served (exec settings db call) := by
  have hbooks := h.books.exec settings call
  obtain ⟨hline, hopen⟩ := Bool.and_eq_true_iff.mp hserves
  cases call with
  | reserve env req =>
    dsimp only [Capacity.exec] at hbooks ⊢
    cases hr : Capacity.reserve settings env db req with
    | error _ => exact h
    | ok answer =>
      rw [hr] at hbooks
      obtain ⟨db₁, hfresh, hres⟩ := reserve_cases hr
      have hceil : ∀ p, (db₁.pool p).ceiling = (db.pool p).ceiling :=
        fun p => hfresh.known (h.known p)
      have hknown : ∀ p, (db₁.pool p).ceiling.known = true := fun p => by
        rw [hceil]
        exact h.known p
      have hsame : LineSettled db₁ := h.settled.of_same hfresh.leases hfresh.held hceil
      cases hres with
      | refused _ | pending _ | held _ _ => exact ⟨hbooks, hknown, hsame⟩
      | enqueued _ _ _ _ =>
        refine ⟨hbooks, fun p => ?_, ?_⟩
        · show ((enqueue settings env db₁ req _).1.pool p).ceiling.known = true
          rw [enqueue_fst, (Evolves.drainWaiters env _).ceiling, pool_placed_ceiling]
          exact hknown p
        · show LineSettled (enqueue settings env db₁ req _).1
          rw [enqueue_fst]
          exact lineSettled_drainWaiters env _
  | drainWaiters env =>
    refine ⟨hbooks, fun p => ?_, lineSettled_drainWaiters env db⟩
    show ((Capacity.drainWaiters env db).1.pool p).ceiling.known = true
    rw [(Evolves.drainWaiters env db).ceiling]
    exact h.known p
  | releaseLease env id reason drain =>
    obtain rfl : drain = true := hline
    refine ⟨hbooks, fun p => ?_,
      h.settled.releaseLease (by simpa [Call.released] using hopen) env reason⟩
    show ((Capacity.releaseLease env db id reason true).1.pool p).ceiling.known = true
    rw [(Evolves.releaseLease h.books env id reason true).ceiling]
    exact h.known p
  | forceReleaseLease env id reason =>
    dsimp only [Capacity.exec] at hbooks ⊢
    cases hf : Capacity.forceReleaseLease env db id reason with
    | none => exact h
    | some answer =>
      rw [hf] at hbooks
      refine ⟨hbooks, fun p => ?_,
        h.settled.forceReleaseLease (by simpa [Call.released] using hopen) hf⟩
      show (answer.1.pool p).ceiling.known = true
      rw [(Evolves.forceReleaseLease h.books hf).ceiling]
      exact h.known p
  | reserveChild _ _ | renewLease _ _ _ | reclaimDeadHolders _ | repairPool | refreshCeiling _ _
  | reapDockerLeases _ => cases hline

/-- **The line is work-conserving while no call withdraws the front waiter ahead of one that fits**:
    after each call, either nobody waits or the front waiter is short of something. -/
theorem line_stays_settled {db₀ db : Database} {calls : List Call} (h₀ : Measured db₀)
    (hr : Run (Guarded (Completes settings) fun db call => servesTheLine db call = true)
      db₀ calls db) : LineSettled db := by
  have hserved : Served db := Run.invariant (P := Served)
    (fun db call db' h hs => by
      have heq : Capacity.exec settings db call = db' := hs.2
      exact heq ▸ h.exec hs.1)
    ⟨h₀.books, h₀.known, h₀.lineSettled⟩ hr
  exact hserved.settled

/-- A machine of four cpus, measured before anybody asked. -/
def fourCpus : Database :=
  { dockerPool := { ceiling := { cpus := 4, memoryMb := 16384, leases := 4, source := .probe } }
    hostPool := { ceiling := { cpus := 4, memoryMb := 16384, leases := 4, source := .probe } } }

theorem fourCpus_measured : Measured fourCpus :=
  ⟨rfl, fun p => by cases p <;> rfl, fun p => by cases p <;> rfl, rfl⟩

/-- Two cpus held, then three asked for, then one: the last waits behind the
    second, which does not fit. -/
def oneBehindThree : List Call :=
  [.reserve eightCpus { holderLabel := "two", pool := .host, cpus := 2, memoryMb := 1024 },
    .reserve eightCpus { holderLabel := "three", pool := .host, cpus := 3, memoryMb := 1024 },
    .reserve eightCpus { holderLabel := "one", pool := .host, cpus := 1, memoryMb := 1024 }]

/-- The line at that ledger: short of a cpu. -/
theorem line_stays_settled_oneBehindThree :
    (waiters (oneBehindThree.foldl (exec {}) fourCpus)).length = 2 ∧
      LineSettled (oneBehindThree.foldl (exec {}) fourCpus) :=
  ⟨by decide +kernel, line_stays_settled fourCpus_measured (run_of_meets (by decide +kernel))⟩

def frontWithdrawn : List Call := oneBehindThree ++ [Call.releaseLease eightCpus 1 .released true]

/-- Nobody tells the waiter behind it that it fits. -/
theorem withdrawn_front_leaves_room : ¬ ∀ (db₀ db : Database) (calls : List Call), Measured db₀ →
      Run (Guarded (Completes {}) fun _ call => lineCall call = true) db₀ calls db →
      LineSettled db := by
  intro h
  have hsettled := h fourCpus _ frontWithdrawn fourCpus_measured
    (run_of_meets (by decide +kernel))
  have hfits : (headWaiter (frontWithdrawn.foldl (exec {}) fourCpus)).any
      (fun row => !isFull (frontWithdrawn.foldl (exec {}) fourCpus) row.1) = true := by
    decide +kernel
  obtain ⟨row, hrow, hroom⟩ := (any_eq_true _ _).mp hfits
  rw [isFull_iff.mpr (hsettled row.1 row.2 hrow)] at hroom
  cases hroom

end Loregarden.Capacity
