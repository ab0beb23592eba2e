import Loregarden.CapacitySessionModel

/-! # Ending one lease from many sessions

    What one transaction does to the row and to the pools is said once
    (`act_row`, `pool_act`); the two results are invariants over it.

    * `settled_once`: in a run in which every decision still stands when it is
      written, the calls that answer that they ended the lease are one at most,
      and they are the times its booking was given back;
      `ended_twice` is a run of two releases without that.
    * `released_is_final`: in a run in which no renewal and no orphan verdict is
      written on a row released since its read, a released lease stays
      released, and one that occupies has its booking in the pools;
      `renewal_revives` is a renewal that crosses a release. -/

namespace Loregarden.Capacity

open Tables Runs List Progress

variable {settings : Settings} {id : LeaseId}
variable {db : Database} {l lease : DockerLease} {p : Progress} {s t : Scene} {i : Nat}
variable {env : SweepSurroundings} {status : DockerLeaseStatus}

/-! ## One transaction -/

/-- What a read leads to: whatever it decides, it decides from the row. -/
inductive ReadOf (l : DockerLease) : Progress → Prop
  | nothing : ReadOf l (.finished none)
  | settled (h : l.status = .released) : ReadOf l (.finished (some false))
  | noting (reason : String) : ReadOf l (.noting reason)
  | releasing (reason : DockerLeaseEndReason) : ReadOf l (.releasing reason)
  | withdrawing (h : l.status = .waiting) (reason : DockerLeaseEndReason) :
      ReadOf l (.withdrawing reason)
  | settling (h : l.status.occupying = true) (reason : DockerLeaseEndReason) :
      ReadOf l (.settling l reason)
  | judging (h : l.status.occupying = true) : ReadOf l (.judging l)
  | renewing (h : l.status.occupying = true) (ttlSeconds : Option Int) :
      ReadOf l (.renewing l ttlSeconds)

theorem readToRelease_spec (l : DockerLease) (reason : DockerLeaseEndReason) :
    ReadOf l (readToRelease (some l) reason) := by
  dsimp only [readToRelease]
  cases hst : l.status with
  | waiting => exact .withdrawing hst reason
  | held | orphaned => exact .settling (by rw [hst]; rfl) reason
  | released => exact .settled hst

theorem readToStart_spec (env : Surroundings) (fresh : Bool) (l : DockerLease)
    (call : LeaseCall) : ReadOf l (readToStart env fresh (some l) call) := by
  cases call with
  | releaseLease reason => exact readToRelease_spec l reason
  | forceReleaseLease reason =>
    dsimp only [readToStart]
    split
    · exact .noting reason
    · exact readToRelease_spec l _
  | reclaimDeadHolders =>
    dsimp only [readToStart]
    split
    next hdead =>
      cases fresh with
      | true => exact .releasing _
      | false => exact .settling hdead.1 _
    next => exact .nothing
  | reapDockerLeases =>
    dsimp only [readToStart]
    split
    · exact .nothing
    next ho => exact .judging (by simpa using ho)
  | renewLease ttlSeconds =>
    dsimp only [readToStart]
    split
    · exact .nothing
    next ho => exact .renewing (by simpa using ho) ttlSeconds

def Progress.leaves (env : SweepSurroundings) (p : Progress) (status : DockerLeaseStatus) :
    DockerLeaseStatus :=
  match p with
  | .withdrawing _ | .settling _ _ => .released
  | .judging lease => if orphanVerdict env lease then .orphaned else status
  | .renewing lease _ => if lease.status = .orphaned then .held else status
  | _ => status

theorem act_row (settings : Settings) (env : SweepSurroundings) (fresh : Bool)
    (p : Progress) (hl : db.leases[id]? = some l) :
    ∃ l', (act settings env fresh id db p).1.leases[id]? = some l' ∧ SameClaim l l' ∧
      l'.status = p.leaves env l.status := by
  have hwrite : ∀ f : DockerLease → DockerLease, (db.update id f).leases[id]? = some (f l) := by
    intro f
    rw [Database.leases_update, getElem?_modify_self, hl]
    rfl
  cases p with
  | starting call | releasing reason | finished answer => exact ⟨l, hl, SameClaim.refl l, rfl⟩
  | noting reason | withdrawing reason =>
    exact ⟨_, hwrite _, ⟨rfl, rfl, rfl, rfl, rfl, rfl, rfl, rfl⟩, rfl⟩
  | settling lease reason => exact settle_row _ _ _ hl
  | judging lease =>
    obtain ⟨f, heq, hf⟩ := judge_cases settings env db id lease
    refine ⟨f l, ?_, (hf l).same, (hf l).status⟩
    show (judge settings env db id lease).1.leases[id]? = _
    rw [heq]
    exact hwrite f
  | renewing lease ttlSeconds =>
    exact ⟨_, hwrite _, ⟨rfl, rfl, rfl, rfl, rfl, rfl, rfl, rfl⟩, rfl⟩

theorem pool_act (env : SweepSurroundings) (fresh : Bool) (db : Database)
    (hp : p.returnsBooking = false) (name : CapacityPool) :
    (act settings env fresh id db p).1.pool name = db.pool name := by
  cases p with
  | settling lease reason => cases hp
  | judging lease =>
    obtain ⟨f, heq, -⟩ := judge_cases settings env db id lease
    show (judge settings env db id lease).1.pool name = _
    rw [heq, Database.pool_update]
  | noting reason | withdrawing reason | renewing lease ttlSeconds =>
    exact Database.pool_update db id _ name
  | starting call | releasing reason | finished answer => rfl

theorem scene_act_of_some (hp : s.sessions[i]? = some p) (env : SweepSurroundings) (fresh : Bool) :
    s.act settings id i env fresh
      = { s with
          db := (act settings env fresh id s.db p).1
          sessions := s.sessions.set i (act settings env fresh id s.db p).2
          returns := s.returns + if p.returnsBooking then 1 else 0 } := by
  rw [Scene.act, hp]

theorem scene_act_of_none (hp : s.sessions[i]? = none)
    (env : SweepSurroundings) (fresh : Bool) : s.act settings id i env fresh = s := by
  rw [Scene.act, hp]

theorem finds_session {of : SweepSurroundings → Progress → Bool}
    {ok : DockerLeaseStatus → Bool}
    {fresh : Bool}
    (h : finds id of ok s (.session i env fresh) = true) (hp : s.sessions[i]? = some p)
    (hl : s.db.leases[id]? = some l) (hof : of env p = true) : ok l.status = true := by
  simpa [finds, hp, hl, hof] using h

/-! ## RELEASED is final -/

theorem leaves_released (h : p.revives env = false) : p.leaves env .released = .released := by
  cases p with
  | judging lease =>
    have hv : orphanVerdict env lease = false := h
    simp [leaves, hv]
  | renewing lease ttlSeconds =>
    have hread : lease.status ≠ .orphaned := by simpa [revives] using h
    simp [leaves, hread]
  | _ => rfl

theorem Takes.released {turn : Turn} (h : Takes settings id s turn t)
    (hcond : revivesNone id s turn = true)
    (hl : s.db.leases[id]? = some l) (hrel : l.status = .released) :
    ∃ l', t.db.leases[id]? = some l' ∧ l'.status = .released := by
  cases h with
  | session i env fresh =>
    cases hp : s.sessions[i]? with
    | none =>
      rw [scene_act_of_none hp]
      exact ⟨l, hl, hrel⟩
    | some p =>
      rw [scene_act_of_some hp]
      obtain ⟨l', hl', -, hst⟩ := act_row settings env fresh p hl
      refine ⟨l', hl', ?_⟩
      rw [hst, hrel]
      refine leaves_released (Bool.eq_false_iff.mpr fun hrev => ?_)
      have hne := finds_session hcond hp hl hrev
      rw [hrel] at hne
      cases hne
  | @elsewhere db others l₀ l' hl₀ hl' hrow _ _ =>
    obtain rfl : l = l₀ := Option.some.inj (hl.symm.trans hl₀)
    refine ⟨l', hl', ?_⟩
    rcases hrow.status with hsame | ⟨hw, -⟩
    · exact hsame.trans hrel
    · rw [hrel] at hw
      cases hw

/-- A call that read the row as occupying and has a status to write. -/
def Progress.readLive : Progress → Bool
  | .judging _ | .renewing _ _ => true
  | _ => false

/-- What keeps the booking of a lease that has not been released. -/
structure Unreturned (id : LeaseId) (s : Scene) (l : DockerLease) : Prop where
  row : s.db.leases[id]? = some l
  waiting : l.status = .waiting → ∀ p ∈ s.sessions, p.readLive = false
  returns : l.status ≠ .released → s.returns = 0
  slack : l.status ≠ .released → ∀ name, slack s l name = 0

theorem Opens.unreturned (h : Opens id lease s) : Unreturned id s lease where
  row := h.row
  waiting _ p hp := by
    obtain ⟨call, rfl⟩ := h.starting p hp
    rfl
  returns _ := h.returns
  slack _ name := by
    rw [slack, h.held, add_sub_cancel_left, sub_self]

theorem act_readLive {fresh : Bool} (hl : db.leases[id]? = some l)
    (h : (act settings env fresh id db p).2.readLive = true) : l.status.occupying = true := by
  have hread : ∀ q : Progress, ReadOf l q → q.readLive = true → l.status.occupying = true := by
    intro q hq hlive
    cases hq with
    | judging ho | renewing ho _ => exact ho
    | _ => cases hlive
  cases p with
  | starting call =>
    have hspec := readToStart_spec env.toSurroundings fresh l call
    rw [← hl] at hspec
    exact hread _ hspec h
  | releasing reason =>
    have hspec := readToRelease_spec l reason
    rw [← hl] at hspec
    exact hread _ hspec h
  | judging lease =>
    change (judgedTo lease (judge settings env db id lease).2).readLive = true at h
    cases hout : (judge settings env db id lease).2 with
    | none => rw [hout] at h; cases h
    | some reason => rw [hout] at h; cases reason <;> cases h
  | _ => cases h

theorem leaves_occupying
    (hrev : p.revives env = true) : (p.leaves env status).occupying = true := by
  cases p with
  | judging lease =>
    have hv : orphanVerdict env lease = true := hrev
    rw [leaves, hv]
    rfl
  | renewing lease ttlSeconds =>
    have hread : lease.status = .orphaned := by simpa [revives] using hrev
    rw [leaves, hread]
    rfl
  | _ => cases hrev

def Progress.ends : Progress → Bool
  | .withdrawing _ | .settling _ _ => true
  | _ => false

theorem leaves_same
    (hrev : p.revives env = false) (hend : p.ends = false) : p.leaves env status = status := by
  cases p with
  | judging lease =>
    have hv : orphanVerdict env lease = false := hrev
    rw [leaves, hv]
    rfl
  | renewing lease ttlSeconds =>
    have hread : lease.status ≠ .orphaned := by simpa [revives] using hrev
    exact if_neg hread
  | withdrawing reason | settling lease reason => cases hend
  | _ => rfl

theorem leaves_of_ends (h : p.ends = true) : p.leaves env status = .released := by
  cases p with
  | withdrawing reason | settling lease reason => rfl
  | _ => cases h

theorem returnsBooking_of_ends (h : p.ends = false) : p.returnsBooking = false := by
  cases p with
  | settling lease reason => cases h
  | _ => rfl

theorem readLive_of_revives (h : p.revives env = true) : p.readLive = true := by
  cases p with
  | judging lease | renewing lease ttlSeconds => rfl
  | _ => cases h

theorem occupying_of_ne (hw : status ≠ .waiting)
    (hr : status ≠ .released) : status.occupying = true := by
  cases status with
  | waiting => exact absurd rfl hw
  | held | orphaned => rfl
  | released => exact absurd rfl hr

theorem Unreturned.step {turn : Turn} (h : Unreturned id s l)
    (hcond : revivesNone id s turn = true) (hs : Takes settings id s turn t) :
    ∃ l', Unreturned id t l' := by
  cases hs with
  | session i env fresh =>
    cases hp : s.sessions[i]? with
    | none =>
      rw [scene_act_of_none hp]
      exact ⟨l, h⟩
    | some p =>
      rw [scene_act_of_some hp]
      obtain ⟨l', hl', hsame, hst⟩ := act_row settings env fresh p h.row
      -- a row that is not released afterwards was not released before
      have hbefore : l'.status ≠ .released → l.status ≠ .released ∧
          p.returnsBooking = false ∧ l'.status.occupying = l.status.occupying := by
        intro hne
        have hl : l.status ≠ .released := by
          intro hrel
          refine hne ?_
          rw [hst, hrel]
          refine leaves_released (Bool.eq_false_iff.mpr fun hrev => ?_)
          have hfound := finds_session hcond hp h.row hrev
          rw [hrel] at hfound
          cases hfound
        have hend : p.ends = false :=
          Bool.eq_false_iff.mpr fun hend => hne (hst.trans (leaves_of_ends hend))
        refine ⟨hl, returnsBooking_of_ends hend, ?_⟩
        · cases hrev : p.revives env with
          | true =>
            have hw : l.status ≠ .waiting := by
              intro hw
              have hnot := h.waiting hw p (mem_of_getElem? hp)
              rw [readLive_of_revives hrev] at hnot
              cases hnot
            rw [hst, leaves_occupying hrev, occupying_of_ne hw hl]
          | false => rw [hst, leaves_same hrev hend]
      refine ⟨l', hl', fun hw q hq => ?_, fun hne => ?_, fun hne name => ?_⟩
      · have hno := (hbefore (by rw [hw]; decide)).2.2
        rw [hw] at hno
        have hwl : l.status = .waiting := by
          by_contra hnw
          rw [occupying_of_ne hnw (hbefore (by rw [hw]; decide)).1] at hno
          cases hno
        rcases mem_or_eq_of_mem_set hq with hold | rfl
        · exact h.waiting hwl q hold
        · refine Bool.eq_false_iff.mpr fun hlive => ?_
          have ho := act_readLive h.row hlive
          rw [hwl] at ho
          cases ho
      · obtain ⟨hl, hquiet, -⟩ := hbefore hne
        show s.returns + _ = 0
        rw [hquiet, h.returns hl]
        rfl
      · obtain ⟨hl, hquiet, hocc⟩ := hbefore hne
        have hsl := h.slack hl name
        show ((act settings env fresh id s.db p).1.pool name).held - _ - _ = 0
        rw [pool_act env fresh s.db hquiet name, hsame.share hocc name]
        exact hsl
  | @elsewhere db others l₀ l' hl₀ hl' hrow _ hpools =>
    obtain rfl : l = l₀ := Option.some.inj (h.row.symm.trans hl₀)
    have hbefore : l'.status ≠ .released → l.status ≠ .released := by
      intro hne
      rcases hrow.status with hsame | ⟨hw, -⟩
      · rw [← hsame]
        exact hne
      · rw [hw]
        decide
    refine ⟨l', hl', fun hw => ?_, fun hne => h.returns (hbefore hne),
      fun hne name => (hpools name).trans (h.slack (hbefore hne) name)⟩
    rcases hrow.status with hsame | ⟨-, hh⟩
    · exact h.waiting (hsame ▸ hw)
    · rw [hh] at hw
      cases hw

/-- **A released lease stays released, and a lease that occupies has its booking**: in every run of
    turns in which no renewal and no orphan verdict is written on a row released since its read. -/
theorem released_is_final {lease : DockerLease} {s₀ s₁ s₂ : Scene} {before after : List Turn}
    (h : Opens id lease s₀)
    (hr₁ : Run (Guarded (Takes settings id) fun s turn => revivesNone id s turn = true)
      s₀ before s₁)
    (hr₂ : Run (Guarded (Takes settings id) fun s turn => revivesNone id s turn = true)
      s₁ after s₂) :
    ((s₁.db.leases[id]?).map (·.status) = some .released →
      (s₂.db.leases[id]?).map (·.status) = some .released) ∧
    ∃ l, s₂.db.leases[id]? = some l ∧ (l.status.occupying = true → s₂.returns = 0 ∧
      ∀ name, (s₂.db.pool name).held = s₂.others name + share name l) := by
  constructor
  · intro hrel
    obtain ⟨l, hl, hst⟩ := Option.map_eq_some_iff.mp hrel
    obtain ⟨l', hl', hst'⟩ := Run.invariant
      (P := fun s => ∃ l, s.db.leases[id]? = some l ∧ l.status = .released)
      (fun s turn t hs hstep => by
        obtain ⟨l, hl, hst⟩ := hs
        exact hstep.2.released hstep.1 hl hst) ⟨l, hl, hst⟩ hr₂
    rw [hl', Option.map_some, hst']
  · obtain ⟨l, hun⟩ := Run.invariant (P := fun s => ∃ l, Unreturned id s l)
      (fun s turn t hs hstep => by
        obtain ⟨l, hl⟩ := hs
        exact hl.step hstep.1 hstep.2) ⟨lease, h.unreturned⟩
      (Run.append_iff.mpr ⟨s₁, hr₁, hr₂⟩)
    refine ⟨l, hun.row, fun ho => ?_⟩
    have hne : l.status ≠ .released := by
      intro hrel
      rw [hrel] at ho
      cases ho
    refine ⟨hun.returns hne, fun name => ?_⟩
    have hsl := hun.slack hne name
    rw [slack, sub_sub] at hsl
    exact sub_eq_zero.mp hsl

/-! ## A lease ends once -/

/-- What a call under way knows, given the row's status now: it read the claim of the lease while
    the lease occupied, or it has answered and the lease is over. -/
def Progress.Knows (lease : DockerLease) (status : DockerLeaseStatus) : Progress → Prop
  | .withdrawing _ => False
  | .settling l _ | .judging l | .renewing l _ => SameClaim lease l ∧ l.status.occupying = true
  | .finished (some _) => status = .released
  | _ => True

/-- The invariant of the answers: as many as the returns, one at most, and none
    before the row is released. -/
structure Settled (id : LeaseId) (lease : DockerLease) (s : Scene) (l : DockerLease) : Prop where
  row : s.db.leases[id]? = some l
  same : SameClaim lease l
  live : l.status ≠ .waiting
  knows : ∀ p ∈ s.sessions, p.Knows lease l.status
  returns : s.returns = endings s
  endings : endings s = if l.status = .released then 1 else 0
  others : ∀ name, 0 ≤ s.others name
  slack : ∀ name, slack s l name = 0

theorem Opens.settled (h : Opens id lease s)
    (ho : lease.status.occupying = true) : Settled id lease s lease := by
  have hnone : endings s = 0 := by
    refine countP_eq_zero.mpr fun p hp => ?_
    obtain ⟨call, rfl⟩ := h.starting p hp
    simp
  have hne : lease.status ≠ .released := by
    intro hrel
    rw [hrel] at ho
    cases ho
  refine ⟨h.row, SameClaim.refl lease, fun hw => ?_, fun p hp => ?_, h.returns.trans hnone.symm,
    by rw [hnone, if_neg hne], h.others, fun name => ?_⟩
  · rw [hw] at ho
    cases ho
  · obtain ⟨call, rfl⟩ := h.starting p hp
    exact trivial
  · rw [Capacity.slack, h.held, add_sub_cancel_left, sub_self]

theorem ReadOf.knows (h : ReadOf l p)
    (hsame : SameClaim lease l) (hlive : l.status ≠ .waiting) : p.Knows lease l.status := by
  cases h with
  | nothing | noting reason | releasing reason => exact trivial
  | settled h => exact h
  | withdrawing h reason => exact absurd h hlive
  | settling h reason | judging h | renewing h ttlSeconds => exact ⟨hsame, h⟩

theorem ReadOf.unanswered (h : ReadOf l p) : p ≠ .finished (some true) := by
  cases h <;> simp

theorem judgedTo_knows
    (h : SameClaim lease l ∧ l.status.occupying = true) (reason : Option DockerLeaseEndReason) :
    (judgedTo l reason).Knows lease status ∧ judgedTo l reason ≠ .finished (some true) := by
  cases reason with
  | none => exact ⟨trivial, by simp [judgedTo]⟩
  | some reason =>
    cases reason <;> first
      | exact ⟨h, by simp [judgedTo]⟩
      | exact ⟨trivial, by simp [judgedTo]⟩

/-- A transaction that gives nothing back keeps what its session knows, and answers nothing new. -/
theorem act_knows (settings : Settings) (env : SweepSurroundings) (fresh : Bool)
    (hl : db.leases[id]? = some l) (hsame : SameClaim lease l) (hlive : l.status ≠ .waiting)
    (hp : p.returnsBooking = false) (hknows : p.Knows lease l.status) :
    (act settings env fresh id db p).2.Knows lease (p.leaves env l.status) ∧
      ((act settings env fresh id db p).2 = .finished (some true) ↔ p = .finished (some true)) := by
  cases p with
  | starting call =>
    have hspec := readToStart_spec env.toSurroundings fresh l call
    rw [← hl] at hspec
    exact ⟨hspec.knows hsame hlive, iff_of_false hspec.unanswered (by simp)⟩
  | releasing reason =>
    have hspec := readToRelease_spec l reason
    rw [← hl] at hspec
    exact ⟨hspec.knows hsame hlive, iff_of_false hspec.unanswered (by simp)⟩
  | noting reason | renewing l ttlSeconds => exact ⟨trivial, by simp [act]⟩
  | withdrawing reason => exact hknows.elim
  | settling l reason => cases hp
  | judging l =>
    obtain ⟨hk, hno⟩ := judgedTo_knows hknows (judge settings env db id l).2
    exact ⟨hk, iff_of_false hno (by simp)⟩
  | finished answer => exact ⟨hknows, Iff.rfl⟩

/-- What a call knows of a row that is not over stays known, whatever status the row is given. -/
theorem Progress.Knows.of_live {status' : DockerLeaseStatus} (h : p.Knows lease status)
    (hst : status = .released → status' = .released) :
    p.Knows lease status' := by
  cases p with
  | finished answer =>
    cases answer with
    | none => exact trivial
    | some b => exact hst h
  | _ => exact h

theorem endings_set {q : Progress} (hp : s.sessions[i]? = some p)
    (hs : t.sessions = s.sessions.set i q) :
    endings t + (if p = .finished (some true) then 1 else 0)
      = endings s + if q = .finished (some true) then 1 else 0 := by
  obtain ⟨hi, rfl⟩ := List.getElem?_eq_some_iff.mp hp
  have hle : (if s.sessions[i] = .finished (some true) then 1 else 0) ≤ endings s := by
    split
    next h =>
      exact countP_pos_iff.mpr ⟨_, getElem_mem hi, by simpa using h⟩
    next => exact Nat.zero_le _
  rw [endings, hs, countP_set hi]
  rw [endings] at hle ⊢
  simp only [decide_eq_true_eq]
  omega

theorem share_of_read {r : DockerLease} (hl : SameClaim lease l)
    (hr : SameClaim lease r) (ho : l.status.occupying = true) (name : CapacityPool) :
    share name l = if name ∈ chargedPools r.pool then booked r else 0 := by
  rw [share, hr.pool, hr.booked, ← hl.pool, ← hl.booked]
  simp only [ho, true_and]

section

variable (h : Settled id lease s l)
include h

theorem Settled.held
    (name : CapacityPool) : (s.db.pool name).held = s.others name + share name l := by
  have hsl := h.slack name
  rw [Capacity.slack, sub_sub] at hsl
  exact sub_eq_zero.mp hsl

theorem Settled.settle {r : DockerLease} {reason : DockerLeaseEndReason}
    (hp : s.sessions[i]? = some (.settling r reason)) (ho : l.status.occupying = true)
    (env : Surroundings) :
    ∃ l', Settled id lease
      { s with
        db := settle env s.db id r reason
        sessions := s.sessions.set i (.finished (some true))
        returns := s.returns + 1 } l' := by
  obtain ⟨hread, -⟩ : SameClaim lease r ∧ r.status.occupying = true :=
    h.knows _ (mem_of_getElem? hp)
  have hne : l.status ≠ .released := by
    intro hrel
    rw [hrel] at ho
    cases ho
  have hshare := share_of_read h.same hread ho
  have hroom : ∀ p ∈ chargedPools r.pool, booked r ≤ (s.db.pool p).held := by
    intro name hname
    rw [h.held, hshare, if_pos hname]
    exact le_add_of_nonneg_left (h.others name)
  obtain ⟨l', hl', hsame, hrel⟩ := settle_row env r reason h.row
  have hcount := endings_set (t := { s with
    db := Capacity.settle env s.db id r reason
    sessions := s.sessions.set i (.finished (some true))
    returns := s.returns + 1 }) hp rfl
  rw [if_neg (by simp), if_pos rfl, h.endings, if_neg hne] at hcount
  refine ⟨l', hl', h.same.trans hsame, by rw [hrel]; decide, fun q hq => ?_, ?_, ?_, h.others,
    fun name => ?_⟩
  · rcases mem_or_eq_of_mem_set hq with hold | rfl
    · exact (h.knows q hold).of_live fun hl => absurd hl hne
    · exact hrel
  · rw [h.returns, h.endings, if_neg hne]
    exact hcount.symm
  · rw [if_pos hrel]
    exact hcount
  · show ((Capacity.settle env s.db id r reason).pool name).held - s.others name
      - share name l' = 0
    rw [held_settle hroom, h.held, hshare, share_of_not_occupying (by rw [hrel]; rfl), sub_zero]
    abel

/-- Any other transaction, unless it revives a released row, leaves the answers as they are. -/
theorem Settled.act (hp : s.sessions[i]? = some p)
    (hret : p.returnsBooking = false) (hfound : p.revives env = true → l.status.occupying = true)
    (settings : Settings) (fresh : Bool) :
    ∃ l', Settled id lease
      { s with
        db := (act settings env fresh id s.db p).1
        sessions := s.sessions.set i (act settings env fresh id s.db p).2 } l' := by
  have hknows := h.knows p (mem_of_getElem? hp)
  obtain ⟨l', hl', hsame, hst⟩ := act_row settings env fresh p h.row
  obtain ⟨hq, hanswer⟩ := act_knows settings env fresh h.row h.same h.live hret hknows
  -- the status moves between HELD and ORPHANED, or not at all
  have hkind : (l'.status = .released ↔ l.status = .released) ∧ l'.status ≠ .waiting ∧
      l'.status.occupying = l.status.occupying := by
    cases hrev : p.revives env with
    | true =>
      have ho := hfound hrev
      have ho' : l'.status.occupying = true := by
        rw [hst]
        exact leaves_occupying hrev
      refine ⟨iff_of_false ?_ ?_, ?_, ho'.trans ho.symm⟩
      · intro hc; rw [hc] at ho'; cases ho'
      · intro hc; rw [hc] at ho; cases ho
      · intro hc; rw [hc] at ho'; cases ho'
    | false =>
      have hend : p.ends = false := by
        cases p with
        | withdrawing reason => exact hknows.elim
        | settling lease reason => cases hret
        | _ => rfl
      rw [hst, leaves_same hrev hend]
      exact ⟨Iff.rfl, h.live, rfl⟩
  have hcount := endings_set (t := { s with
    db := (Capacity.act settings env fresh id s.db p).1
    sessions := s.sessions.set i (Capacity.act settings env fresh id s.db p).2 }) hp rfl
  simp only [hanswer, Nat.add_right_cancel_iff] at hcount
  refine ⟨l', hl', h.same.trans hsame, hkind.2.1, fun q hmem => ?_, ?_, ?_, h.others,
    fun name => ?_⟩
  · rcases mem_or_eq_of_mem_set hmem with hold | rfl
    · exact (h.knows q hold).of_live hkind.1.mpr
    · rw [hst]
      exact hq
  · rw [hcount]
    exact h.returns
  · rw [hcount, h.endings]
    simp only [hkind.1]
  · show ((Capacity.act settings env fresh id s.db p).1.pool name).held - s.others name
      - share name l' = 0
    rw [pool_act env fresh s.db hret name, hsame.share hkind.2.2 name]
    exact h.slack name

theorem Settled.step {turn : Turn} (hcond : readsStand id s turn = true)
    (hs : Takes settings id s turn t) : ∃ l', Settled id lease t l' := by
  cases hs with
  | session i env fresh =>
    cases hp : s.sessions[i]? with
    | none =>
      rw [scene_act_of_none hp]
      exact ⟨l, h⟩
    | some p =>
      rw [scene_act_of_some hp]
      have hfound : (p.revives env || p.returnsBooking) = true →
          l.status.occupying = true := fun hof => finds_session hcond hp h.row hof
      cases hret : p.returnsBooking with
      | true =>
        cases p with
        | settling r reason => exact h.settle hp (hfound rfl) env.toSurroundings
        | _ => cases hret
      | false =>
        rw [hret, Bool.or_false] at hfound
        exact h.act hp hret hfound settings fresh
  | @elsewhere db others l₀ l' hl₀ hl' hrow hothers hpools =>
    obtain rfl : l = l₀ := Option.some.inj (h.row.symm.trans hl₀)
    have hst : l'.status = l.status := by
      rcases hrow.status with hst | ⟨hw, -⟩
      · exact hst
      · exact absurd hw h.live
    refine ⟨l', hl', h.same.trans hrow.same, hst ▸ h.live, fun p hp => hst ▸ h.knows p hp,
      h.returns, ?_, hothers, fun name => (hpools name).trans (h.slack name)⟩
    rw [hst]
    exact h.endings

/-- A lease ended once: the calls that answer that they ended it are as many as
    the returns of its booking, one at most, and one as soon as any call has
    answered; each pool has lost the lease's share if so, and nothing else. -/
structure EndsOnce (lease : DockerLease) (s : Scene) : Prop where
  returns : s.returns = endings s
  once : endings s ≤ 1
  answered : (∃ answer, Progress.finished (some answer) ∈ s.sessions) → endings s = 1
  held : ∀ name, (s.db.pool name).held
    = s.others name + if endings s = 0 then share name lease else 0

theorem Settled.endsOnce (ho : lease.status.occupying = true) : EndsOnce lease s where
  returns := h.returns
  once := by
    rw [h.endings]
    split <;> decide
  answered := by
    rintro ⟨answer, hmem⟩
    have hrel : l.status = .released := h.knows _ hmem
    rw [h.endings, if_pos hrel]
  held name := by
    rw [h.held, h.endings]
    by_cases hrel : l.status = .released
    · rw [share_of_not_occupying (by rw [hrel]; rfl), if_pos hrel, if_neg (by decide)]
    · rw [h.same.share ((occupying_of_ne h.live hrel).trans ho.symm), if_neg hrel, if_pos rfl]

end

/-- **A lease ends once**: in every run of turns in which what each call decided
    from its read of an occupying lease still stands when it is written. -/
theorem settled_once {lease : DockerLease} {s₀ s : Scene} {trace : List Turn}
    (h : Opens id lease s₀) (ho : lease.status.occupying = true)
    (hr : Run (Guarded (Takes settings id) fun s turn => readsStand id s turn = true)
      s₀ trace s) : EndsOnce lease s := by
  obtain ⟨l, hl⟩ := Run.invariant (P := fun s => ∃ l, Settled id lease s l)
    (fun s turn t hs hstep => by
      obtain ⟨l, hl⟩ := hs
      exact hl.step hstep.1 hstep.2) ⟨lease, h.settled ho⟩ hr
  exact hl.endsOnce ho

/-! ## Sessions that cross -/

/-- A machine where nothing is dead and docker answers nothing. -/
def quiet : SweepSurroundings :=
  { eightCpus with
    runIsLive := fun _ => false
    probeLeaseLiveness := fun _ => { state := .unknown } }

def suite (status : DockerLeaseStatus) : DockerLease :=
  { status := status, holderLabel := "suite", pool := .host, price := ⟨2, 1024⟩ }

/-- What the pools hold for others: six cpus of the host. -/
def sixHeld : CapacityPool → Booking
  | .docker => 0
  | .host => ⟨6, 3072, 3⟩

/-- The suite on that host, and some calls about to begin. -/
def suiteScene (status : DockerLeaseStatus) (calls : List LeaseCall) : Scene where
  db := { hostPool := { held := ⟨8, 4096, 4⟩ }, leases := [suite status] }
  sessions := calls.map .starting
  others := sixHeld
  returns := 0

theorem suiteScene_opens (ho : status.occupying = true)
    (calls : List LeaseCall) : Opens 0 (suite status) (suiteScene status calls) where
  row := rfl
  starting p hp := by
    obtain ⟨call, -, rfl⟩ := mem_map.mp hp
    exact ⟨call, rfl⟩
  returns := rfl
  others name := by
    show 0 ≤ sixHeld name
    cases name <;> decide +kernel
  held name := by
    have hshare : share name (suite status)
        = if name ∈ chargedPools .host then booked (suite .held) else 0 := by
      rw [share]
      simp only [show (suite status).status = status from rfl, ho, true_and]
      rfl
    rw [hshare]
    cases name
    · show (0 : Booking) = sixHeld .docker + 0
      decide +kernel
    · show (⟨8, 4096, 4⟩ : Booking) = sixHeld .host + booked (suite .held)
      decide +kernel

def Scene.turn (s : Scene) : Turn → Scene
  | .session i env fresh => s.act {} 0 i env fresh
  | .elsewhere db others => { s with db := db, others := others }

def Turn.ofSession : Turn → Bool
  | .session _ _ _ => true
  | .elsewhere _ _ => false

/-- Turns of the sessions, in an order of their numbers. -/
def turns (order : List Nat) : List Turn := order.map (fun i => .session i quiet false)

def Scene.play (s : Scene) (order : List Nat) : Scene := (turns order).foldl Scene.turn s

theorem run_play {cond : Scene → Turn → Bool} {order : List Nat}
    (h : meets Scene.turn (fun s turn => turn.ofSession && cond s turn) s (turns order) = true) :
    Run (Guarded (Takes {} 0) fun s turn => cond s turn = true) s (turns order)
      (s.play order) := by
  refine Run.of_meets (fun s turn hmeets => ?_) h
  obtain ⟨hof, hcond⟩ := Bool.and_eq_true_iff.mp hmeets
  cases turn with
  | session i env fresh => exact ⟨hcond, .session i env fresh⟩
  | elsewhere db others => cases hof

theorem run_turns (s : Scene) (order : List Nat) :
    Run (Takes {} 0) s (turns order) (s.play order) := by
  induction order generalizing s with
  | nil => exact .nil s
  | cons i order ih => exact .cons (.session i quiet false) (ih _)

/-- A holder releases its suite while an operator force-releases it: both read the
    row before either writes. -/
def crossedReleases : Scene :=
  (suiteScene .held [.releaseLease .released, .forceReleaseLease "stuck"]).play [0, 1, 1, 1, 0, 1]

/-- Both calls end the lease, and its booking is taken from the pool twice. -/
theorem ended_twice :
    ¬ ∀ (lease : DockerLease) (s₀ s : Scene) (trace : List Turn), Opens 0 lease s₀ →
      lease.status.occupying = true → Run (Takes {} 0) s₀ trace s → EndsOnce lease s := by
  intro h
  have hends := h (suite .held) _ crossedReleases _ (suiteScene_opens rfl _) rfl (run_turns _ _)
  have htwo : endings crossedReleases = 2 := by decide +kernel
  have honce := hends.once
  omega

/-- The same calls, one after the other. -/
theorem settled_once_suite : EndsOnce (suite .held)
      ((suiteScene .held [.releaseLease .released, .forceReleaseLease "stuck"]).play
        [0, 0, 1, 1]) :=
  settled_once (suiteScene_opens rfl _) rfl (run_play (by decide +kernel))

/-- A holder releases its orphaned suite while a heartbeat renews it: the renewal
    reads the row before the release writes it, and writes it after. -/
def crossedRenewal : Scene := suiteScene .orphaned [.renewLease none, .releaseLease .released]

/-- The renewal puts the released lease back on the board, with its booking gone from the pool. -/
theorem renewal_revives :
    ¬ ∀ (lease : DockerLease) (s₀ s₁ s₂ : Scene) (before after : List Turn), Opens 0 lease s₀ →
      Run (Takes {} 0) s₀ before s₁ → Run (Takes {} 0) s₁ after s₂ →
      ((s₁.db.leases[0]?).map (·.status) = some .released →
        (s₂.db.leases[0]?).map (·.status) = some .released) ∧
      ∃ l, s₂.db.leases[0]? = some l ∧ (l.status.occupying = true → s₂.returns = 0 ∧
        ∀ name, (s₂.db.pool name).held = s₂.others name + share name l) := by
  intro h
  have hstays := (h (suite .orphaned) _ _ _ _ _ (suiteScene_opens rfl _)
    (run_turns crossedRenewal [0, 1, 1]) (run_turns (crossedRenewal.play [0, 1, 1]) [0])).1
  have hreleased : ((crossedRenewal.play [0, 1, 1]).db.leases[0]?).map (·.status)
      = some .released := by decide +kernel
  have hheld : (((crossedRenewal.play [0, 1, 1]).play [0]).db.leases[0]?).map (·.status)
      = some .held := by decide +kernel
  have hrel := hheld.symm.trans (hstays hreleased)
  cases hrel

/-- The same calls, the renewal after the release. -/
theorem released_is_final_suite :
    (((crossedRenewal.play [1, 1]).play [0]).db.leases[0]?).map (·.status) = some .released :=
  (released_is_final (suiteScene_opens rfl _) (run_play (by decide +kernel))
    (run_play (by decide +kernel))).1 (by decide +kernel)

end Loregarden.Capacity

