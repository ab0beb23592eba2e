import Loregarden.CapacityEvolveProofs

/-! # Whose lease a reservation answers with

A new row is inserted only when no live lease answers to the run the request names, so a run never
has two live top-level leases of one pool and kind (`OneLeasePerRun`). A request that finds a lease
waiting for its run is answered with that one, whatever its kind; so the answer is of the kind asked
for exactly when the front-most such waiter is (`reservation_identity`,
`waiting_twin_of_another_kind`). -/

namespace Loregarden.Capacity

open Tables Runs Option

variable {settings : Settings}
variable {req : ReserveRequest} {l : DockerLease} {db db' : Database}

/-- The run a request or a lease names: its agent run, or else its orchestration. -/
inductive RunName where
  | agentRun (id : RunId)
  | orchestrationRun (id : RunId)

def runName : Option RunId → Option RunId → Option RunName
  | some id, _ => some (.agentRun id)
  | none, some id => some (.orchestrationRun id)
  | none, none => none

def ReserveRequest.run (req : ReserveRequest) : Option RunName :=
  runName req.agentRunId req.orchestrationRunId

def DockerLease.run (l : DockerLease) : Option RunName := runName l.agentRunId l.orchestrationRunId

theorem ofRun_of_run_eq (hreq : req.run ≠ none) (h : l.run = req.run) : ofRun req l = true := by
  unfold ofRun
  unfold ReserveRequest.run at hreq h
  unfold DockerLease.run at h
  cases ha : req.agentRunId with
  | some a =>
    rw [ha] at h
    cases hla : l.agentRunId with
    | some a' =>
      rw [hla] at h
      obtain rfl : a' = a := RunName.agentRun.inj (some.inj h)
      simp
    | none =>
      rw [hla] at h
      cases hlo : l.orchestrationRunId with
      | some o | none => rw [hlo] at h; cases h
  | none =>
    rw [ha] at h hreq
    cases ho : req.orchestrationRunId with
    | none => rw [ho] at hreq; exact absurd rfl hreq
    | some o =>
      rw [ho] at h
      cases hla : l.agentRunId with
      | some a' => rw [hla] at h; cases h
      | none =>
        rw [hla] at h
        cases hlo : l.orchestrationRunId with
        | none => rw [hlo] at h; cases h
        | some o' =>
          rw [hlo] at h
          obtain rfl : o' = o := RunName.orchestrationRun.inj (some.inj h)
          simp

theorem sameRequest_of_run (hreq : req.run ≠ none) (price : Weights)
    (l : DockerLease) : sameRequest req price l = ofRun req l := by
  unfold sameRequest ofRun
  cases ha : req.agentRunId with
  | some a => rfl
  | none =>
    cases ho : req.orchestrationRunId with
    | some o => rfl
    | none =>
      rw [ReserveRequest.run, ha, ho] at hreq
      exact absurd rfl hreq

/-- The front-most lease waiting in the requested pool for the run a request names. -/
def waitingForRun (db : Database) (req : ReserveRequest) : Option (DockerLease × LeaseId) :=
  firstByPosition (db.select (fun l => l.status = .waiting ∧ l.pool = req.pool ∧ ofRun req l))

theorem pendingDuplicate_eq (hreq : req.run ≠ none)
    (price : Weights) : pendingDuplicate db req price = waitingForRun db req := by
  unfold pendingDuplicate waitingForRun
  simp only [sameRequest_of_run hreq]

/-! ## One live lease per run -/

/-- A lease that stands in line or occupies, and runs inside no other. -/
def Top (l : DockerLease) : Prop := l.status ≠ .released ∧ l.parentLeaseId = none

/-- No run has two live top-level leases of one pool and kind. -/
def OneLeasePerRun (db : Database) : Prop :=
  ∀ (i j : LeaseId) (l m : DockerLease), db.leases[i]? = some l → db.leases[j]? = some m →
    Top l → Top m → l.run ≠ none → l.run = m.run → l.pool = m.pool →
    l.holderKind = m.holderKind → i = j

theorem SameClaim.run {l' : DockerLease} (h : SameClaim l l') : l'.run = l.run := by
  unfold DockerLease.run
  rw [h.agentRunId, h.orchestrationRunId]

section

variable (h : OneLeasePerRun db)
include h

theorem OneLeasePerRun.evolves (he : Evolves db db') : OneLeasePerRun db' := by
  have hback : ∀ (j : LeaseId) (l' : DockerLease), db'.leases[j]? = some l' → Top l' →
      ∃ l, db.leases[j]? = some l ∧ SameClaim l l' ∧ Top l := by
    intro j l' hj htop
    obtain ⟨l, hl, hs, -, hrel⟩ := he.row j l' hj
    exact ⟨l, hl, hs, fun hr => htop.1 (hrel hr), hs.parentLeaseId.symm.trans htop.2⟩
  intro i j l' m' hi hj hl' hm' hrun heq hpool hkind
  obtain ⟨l, hl, hsl, htl⟩ := hback i l' hi hl'
  obtain ⟨m, hm, hsm, htm⟩ := hback j m' hj hm'
  rw [hsl.run, hsm.run] at heq
  rw [hsl.pool, hsm.pool] at hpool
  rw [hsl.holderKind, hsm.holderKind] at hkind
  exact h i j l m hl hm htl htm (hsl.run ▸ hrun) heq hpool hkind

theorem OneLeasePerRun.of_leases (hl : db'.leases = db.leases) : OneLeasePerRun db' := by
  unfold OneLeasePerRun
  rw [hl]
  exact h

theorem OneLeasePerRun.insert {new : DockerLease} (hl : db'.leases = db.leases ++ [new])
    (hnew : Top new → new.run ≠ none → ∀ (j : LeaseId) (l : DockerLease),
      db.leases[j]? = some l → Top l → l.run = new.run → l.pool = new.pool →
      l.holderKind ≠ new.holderKind) : OneLeasePerRun db' := by
  intro i j l m hi hj htl htm hrun heq hpool hkind
  rw [hl] at hi hj
  rcases of_getElem?_append_singleton hi with hold | ⟨rfl, rfl⟩
  · rcases of_getElem?_append_singleton hj with hold' | ⟨rfl, rfl⟩
    · exact h i j l m hold hold' htl htm hrun heq hpool hkind
    · exact absurd hkind (hnew htm (heq ▸ hrun) i l hold htl heq hpool)
  · rcases of_getElem?_append_singleton hj with hold' | ⟨rfl, -⟩
    · exact absurd hkind.symm (hnew htl hrun j m hold' htm heq.symm hpool.symm)
    · rfl

omit h in
theorem occupying_of_top (h : Top l) (hw : l.status ≠ .waiting) : l.status.occupying = true := by
  cases hst : l.status with
  | waiting => exact absurd hst hw
  | released => exact absurd hst h.1
  | held | orphaned => rfl

theorem OneLeasePerRun.reserve {env : Surroundings} {answer : Database × DockerReservation}
    (hr : reserve settings env db req = .ok answer) : OneLeasePerRun answer.1 := by
  obtain ⟨db₁, hfresh, hres⟩ := reserve_cases hr
  have hone := h.of_leases hfresh.leases
  cases hres with
  | refused _ | pending _ | held _ _ => exact hone
  | @enqueued price _ _ hpending hheld =>
    rw [enqueue_fst]
    refine OneLeasePerRun.evolves ?_ (Evolves.drainWaiters env _)
    refine OneLeasePerRun.insert hone (leases_placed env db₁ req price) ?_
    intro _ hrun j l hl htop heq hpool hkind
    have hof : ofRun req l = true := ofRun_of_run_eq hrun heq
    by_cases hw : l.status = .waiting
    · -- a waiter of the run would have been the pending duplicate
      have hmem : (l, j) ∈ db₁.select (fun l => l.status = .waiting ∧ l.pool = req.pool ∧
          sameRequest req price l) :=
        Database.mem_select.mpr ⟨hl, decide_eq_true
          ⟨hw, hpool, (sameRequest_of_run hrun price l).trans hof⟩⟩
      rw [firstByPosition_eq_none.mp hpending] at hmem
      cases hmem
    · -- a lease of the run and kind would have been found held
      have hmem : (l, j) ∈ db₁.select (fun l => l.status.occupying ∧ l.pool = req.pool ∧
          l.holderKind = req.holderKind ∧ l.parentLeaseId = none ∧ ofRun req l) :=
        Database.mem_select.mpr ⟨hl, decide_eq_true
          ⟨occupying_of_top htop hw, hpool, hkind, htop.2, hof⟩⟩
      rw [List.head?_eq_none_iff.mp hheld] at hmem
      cases hmem

end

theorem OneLeasePerRun.exec (hb : Books db) (h : OneLeasePerRun db)
    (call : Call) : OneLeasePerRun (exec settings db call) := by
  cases call with
  | reserve env req =>
    dsimp only [Capacity.exec]
    cases hr : Capacity.reserve settings env db req with
    | error _ => exact h
    | ok answer => exact h.reserve hr
  | reserveChild env req =>
    dsimp only [Capacity.exec]
    cases hr : Capacity.reserveChild settings env db req with
    | error _ => exact h
    | ok answer =>
      obtain ⟨pools, db₁, hfresh, hcase⟩ := reserveChild_cases hb hr
      have hone := h.of_leases hfresh.leases
      rcases hcase with heq | ⟨-, child, hnested⟩
      · show OneLeasePerRun answer.1
        rw [heq]
        exact hone
      · obtain ⟨w, hleases⟩ := hnested.leases
        have hcover : OneLeasePerRun (db₁.update req.parentLeaseId (addCover w)) :=
          hone.evolves (Evolves.update fun l _ =>
            ⟨⟨rfl, rfl, rfl, rfl, rfl, rfl, rfl, rfl⟩, fun hw => hw, fun hr => hr⟩)
        refine hcover.insert hleases fun htop => ?_
        -- a child is no top-level lease
        have hparent := hnested.parentLeaseId.symm.trans htop.2
        cases hparent
  | drainWaiters env => exact h.evolves (Evolves.drainWaiters env db)
  | releaseLease env id reason drain => exact h.evolves (Evolves.releaseLease hb env id reason drain)
  | forceReleaseLease env id reason =>
    dsimp only [Capacity.exec]
    cases hf : Capacity.forceReleaseLease env db id reason with
    | none => exact h
    | some answer => exact h.evolves (Evolves.forceReleaseLease hb hf)
  | renewLease env id ttlSeconds => exact h.evolves (Evolves.renewLease env db id ttlSeconds)
  | reclaimDeadHolders env => exact h.evolves (Evolves.releaseAll _ _ _ hb)
  | repairPool => exact h.evolves (Evolves.repairPool hb)
  | refreshCeiling env pool =>
    exact h.of_leases (by simp [Capacity.exec, Capacity.refreshCeiling])
  | reapDockerLeases env =>
    obtain ⟨db₁, hl, -, hev⟩ := reapDockerLeases_cases hb settings env
    exact (h.of_leases hl).evolves hev

/-- The answer names a top-level lease of the requested pool and kind, for the
    run the request names. -/
def AnswersRequest (db : Database) (req : ReserveRequest) (reply : DockerReservation) : Prop :=
  ∃ id l, reply.leaseId = some id ∧ db.leases[id]? = some l ∧ l.parentLeaseId = none ∧
    l.pool = req.pool ∧ l.holderKind = req.holderKind ∧ ofRun req l = true

theorem enqueue_leaseId (env : Surroundings) (db : Database) (req : ReserveRequest)
    (price : Weights) :
    (enqueue settings env db req price).2.leaseId = some db.leases.length := by
  unfold enqueue
  dsimp only
  split <;> rfl

theorem answersRequest_enqueue {env : Surroundings} (hreq : req.run ≠ none) (price : Weights) :
    AnswersRequest (enqueue settings env db req price).1 req
      (enqueue settings env db req price).2 := by
  have hplaced : (placed settings env db req price).leases
      = db.leases ++ [newWaiter settings env req price (takePosition db).2] := by
    rw [placed, Database.leases_insert, takePosition, Database.leases_setPool]
  have hev := Evolves.drainWaiters env (placed settings env db req price)
  rw [← enqueue_fst] at hev
  have hlen := hev.length
  rw [hplaced, List.length_append, List.length_singleton] at hlen
  have hrow := List.getElem?_eq_getElem
    (show db.leases.length < (enqueue settings env db req price).1.leases.length by omega)
  obtain ⟨l, hl, hs, -⟩ := hev.row _ _ hrow
  rw [hplaced, getElem?_append_length] at hl
  obtain rfl := some.inj hl
  refine ⟨_, _, enqueue_leaseId env db req price, hrow, hs.parentLeaseId, hs.pool,
    hs.holderKind, ?_⟩
  exact ofRun_of_run_eq hreq hs.run

/-- **Whose lease it is.** In every reachable ledger no run has two live top-level leases of one
    pool and kind; and a reservation that names a run and is not refused is answered with a lease of
    what it asked for exactly when the front-most lease waiting in that pool for the run, if there
    is one, has the kind it asked for. -/
theorem reservation_identity {db : Database} {calls : List Call}
    (hr : Run (Completes settings) {} calls db) :
    OneLeasePerRun db ∧
    ∀ (env : Surroundings) (req : ReserveRequest) (answer : Database × DockerReservation),
      req.run ≠ none → reserve settings env db req = .ok answer →
      answer.2.state ≠ .rejected →
      (AnswersRequest answer.1 req answer.2 ↔
        ∀ l id, waitingForRun db req = some (l, id) → l.holderKind = req.holderKind) := by
  have hinv : Books db ∧ OneLeasePerRun db := Run.invariant
    (P := fun db => Books db ∧ OneLeasePerRun db)
    (fun db call db' h hs => by
      have heq : Capacity.exec settings db call = db' := hs
      exact heq ▸ ⟨h.1.exec settings call, h.2.exec h.1 call⟩)
    ⟨Books.empty, fun i j l m hi => by cases hi⟩ hr
  refine ⟨hinv.2, fun env req answer hreq hres hstate => ?_⟩
  obtain ⟨db₁, hfresh, hcase⟩ := reserve_cases hres
  have hbooks := hfresh.books hinv.1
  have hsame : waitingForRun db₁ req = waitingForRun db req := by
    simp only [waitingForRun, Database.select, hfresh.leases]
  have hnobody : ∀ price, pendingDuplicate db₁ req price = none →
      ∀ l id, waitingForRun db req = some (l, id) → l.holderKind = req.holderKind := by
    intro price hpending l id hwait
    rw [← hsame, ← pendingDuplicate_eq hreq price, hpending] at hwait
    cases hwait
  cases hcase with
  | refused hrej => exact absurd hrej hstate
  | @pending price lease id hpending =>
    rw [pendingDuplicate_eq hreq, hsame] at hpending
    obtain ⟨hrow, hsel⟩ := Database.mem_select.mp (firstByPosition_mem
      (hsame.trans hpending)).1
    obtain ⟨hw, hpool, hof⟩ := of_decide_eq_true hsel
    constructor
    · rintro ⟨id', l, hid, hl, -, -, hkind, -⟩ m k hm
      obtain rfl : id = id' := some.inj hid
      obtain rfl : lease = l := some.inj (hrow.symm.trans hl)
      obtain ⟨rfl, -⟩ := Prod.mk.inj (some.inj (hpending.symm.trans hm))
      exact hkind
    · intro hkind
      exact ⟨id, lease, rfl, hrow, (hbooks.row hrow).waiting_top hw, hpool,
        hkind lease id hpending, hof⟩
  | @held price lease id hpending hheld =>
    refine ⟨fun _ => hnobody price hpending, fun _ => ?_⟩
    obtain ⟨hrow, hsel⟩ := Database.mem_select.mp (List.mem_of_head? hheld)
    obtain ⟨-, hpool, hkind, htop, hof⟩ := of_decide_eq_true hsel
    exact ⟨id, lease, rfl, hrow, htop, hpool, hkind, hof⟩
  | @enqueued price _ _ hpending _ =>
    exact ⟨fun _ => hnobody price hpending, fun _ => answersRequest_enqueue hreq price⟩

/-- The agent run of an orchestration asks for a lease. -/
def agentRunAsks : ReserveRequest :=
  { holderKind := .agentRun, agentRunId := some 1, orchestrationRunId := some 7, pool := .host,
    cpus := 1 / 4, memoryMb := 256 }

def agentRunWaits : List Call :=
  [.reserve eightCpus { holderLabel := "suite", pool := .host, cpus := 8, memoryMb := 1024 },
    .reserve eightCpus agentRunAsks]

def orchestrationAsks : ReserveRequest :=
  { holderKind := .orchestration, orchestrationRunId := some 7, pool := .host, cpus := 1 / 2,
    memoryMb := 512 }

/-- The orchestration is answered with the agent run's place in line. -/
theorem waiting_twin_of_another_kind :
    ¬ ∀ (db : Database) (calls : List Call), Run (Completes {}) {} calls db →
      ∀ (env : Surroundings) (req : ReserveRequest) (answer : Database × DockerReservation),
        req.run ≠ none → reserve {} env db req = .ok answer → answer.2.state ≠ .rejected →
        AnswersRequest answer.1 req answer.2 := by
  intro h
  have hreply : (reserve {} eightCpus (agentRunWaits.foldl (exec {}) {})
      orchestrationAsks).toOption.any
      (fun answer => answer.2.state ≠ .rejected ∧ answer.2.leaseId = some 1 ∧
        (answer.1.leases[1]?).map (·.holderKind) = some .agentRun) = true := by
    decide +kernel
  cases hr : reserve {} eightCpus (agentRunWaits.foldl (exec {}) {}) orchestrationAsks with
  | error _ =>
    rw [hr] at hreply
    cases hreply
  | ok answer =>
    rw [hr] at hreply
    obtain ⟨hstate, hid, hkind⟩ := of_decide_eq_true hreply
    obtain ⟨id, l, hid', hl, -, -, hkind', -⟩ := h _ agentRunWaits (run_foldl {} _) eightCpus
      orchestrationAsks answer (by decide) hr hstate
    obtain rfl : id = 1 := some.inj (hid'.symm.trans hid)
    rw [hl] at hkind
    have hagent : l.holderKind = .agentRun := some.inj hkind
    rw [hagent] at hkind'
    cases hkind'

/-- The agent run is answered with its own place. -/
theorem reservation_identity_agentRun :
    ∃ answer, reserve {} eightCpus (agentRunWaits.foldl (exec {}) {}) agentRunAsks = .ok answer ∧
      AnswersRequest answer.1 agentRunAsks answer.2 := by
  have hreply : (reserve {} eightCpus (agentRunWaits.foldl (exec {}) {}) agentRunAsks).toOption.any
      (fun answer => answer.2.state ≠ .rejected) = true := by
    decide +kernel
  have hkind : (waitingForRun (agentRunWaits.foldl (exec {}) {}) agentRunAsks).all
      (fun row => row.1.holderKind = agentRunAsks.holderKind) = true := by
    decide +kernel
  cases hr : reserve {} eightCpus (agentRunWaits.foldl (exec {}) {}) agentRunAsks with
  | error _ =>
    rw [hr] at hreply
    cases hreply
  | ok answer =>
    rw [hr] at hreply
    refine ⟨answer, rfl, ((reservation_identity (run_foldl {} agentRunWaits)).2 eightCpus
      agentRunAsks answer (by decide) hr (of_decide_eq_true hreply)).mpr fun l id hl => ?_⟩
    rw [hl] at hkind
    exact of_decide_eq_true hkind

end Loregarden.Capacity
