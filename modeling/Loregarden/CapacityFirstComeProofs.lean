import Loregarden.CapacityLineProofs
import Loregarden.CapacityGrantProofs

/-! # Who is granted first

A place in line is taken in one transaction and its row inserted in a later one, and a drain reads
the head in one step and promotes it in a later one. So a lower place can enter the table behind a
head read (`overtaken_by_a_later_place`), and that is the one way a waiter is passed (the first half
of `first_come`).

The second half is that no wake-up is lost: while the front waiter fits, some session is about to
find out (`Alert`), through every order of bookings, promotions and refunds. -/

namespace Loregarden.Capacity

open Tables Runs List Option

variable {settings : Settings}
variable {env : Surroundings} {db : Database} {stage : Stage} {j : LeaseId} {l : DockerLease}
variable {head : Head} {i : Nat} {s : Crowd} {move : Move}

/-! ## What a step does to the line -/

/-- What one step does to a row: nothing the line reads, or it ends it, or it is its promotion. -/
def RowStep (stage : Stage) (j : LeaseId) (l l' : DockerLease) : Prop :=
  (l'.status = l.status ∧ l'.position = l.position) ∨ l'.status = .released ∨
    ∃ head, stage = .promoting head ∧ head.id = j ∧ l'.status = .held

theorem settle_step {id : LeaseId} {lease : DockerLease} {reason : DockerLeaseEndReason}
    (hl : db.leases[j]? = some l) :
    ∃ l', (settle env db id lease reason).leases[j]? = some l' ∧ RowStep stage j l l' := by
  have hended : ∃ l', (returnCapacity (db.update id (ended env.now reason)) lease).leases[j]?
      = some l' ∧ RowStep stage j l l' := by
    rw [leases_returnCapacity, Database.leases_update]
    by_cases hj : id = j
    · rw [hj, getElem?_modify_self, hl]
      exact ⟨_, rfl, .inr (.inl rfl)⟩
    · rw [getElem?_modify_of_ne hj]
      exact ⟨l, hl, .inl ⟨rfl, rfl⟩⟩
  obtain ⟨l', hl', hstep⟩ := hended
  unfold settle
  cases lease.parentLeaseId with
  | none => exact ⟨l', hl', hstep⟩
  | some p =>
    show ∃ l', (List.modify _ p _)[j]? = some l' ∧ _
    by_cases hp : p = j
    · rw [hp, getElem?_modify_self, hl']
      exact ⟨_, rfl, hstep⟩
    · rw [getElem?_modify_of_ne hp]
      exact ⟨l', hl', hstep⟩

/-- No step takes a row away, and what it does to one is a `RowStep`. -/
theorem advance_row (settings : Settings) (env : Surroundings) (late : Bool)
    (stage : Stage) (hl : db.leases[j]? = some l) :
    ∃ l', (advance settings env late db stage).1.leases[j]? = some l' ∧ RowStep stage j l l' := by
  have hsame : ∀ db' : Database, db'.leases = db.leases →
      ∃ l', db'.leases[j]? = some l' ∧ RowStep stage j l l' :=
    fun db' heq => ⟨l, heq ▸ hl, .inl ⟨rfl, rfl⟩⟩
  cases stage with
  | starting call | pending req price | existing req price | positioning req price | done =>
    exact hsame _ rfl
  | inserting req price position =>
    exact ⟨l, getElem?_append_of_some hl, .inl ⟨rfl, rfl⟩⟩
  | readingHead =>
    dsimp only [advance]
    cases headWaiter db with
    | none | some row => exact hsame _ rfl
  | booking head left revisions =>
    cases left with
    | cons name left => exact hsame _ rfl
    | nil =>
      dsimp only [advance]
      cases hb : claimPools db (chargedPools head.lease.pool) (claimOf head.lease)
          revisions with
      | none => exact hsame _ rfl
      | some booked =>
        obtain ⟨-, rfl⟩ := claimPools_eq_some.mp hb
        exact hsame _ rfl
  | checking head left =>
    cases left with
    | cons name left | nil => exact hsame _ rfl
  | promoting head =>
    dsimp only [advance]
    cases hc : claimPromotion env db head.id with
    | none => exact hsame _ rfl
    | some granted =>
      obtain ⟨-, -, -, rfl⟩ := claimPromotion_eq_some.mp hc
      show ∃ l', (List.modify _ _ _)[j]? = some l' ∧ _
      by_cases hj : head.id = j
      · rw [hj, getElem?_modify_self, hl]
        exact ⟨_, rfl, .inr (.inr ⟨head, rfl, hj, rfl⟩)⟩
      · rw [getElem?_modify_of_ne hj]
        exact ⟨l, hl, .inl ⟨rfl, rfl⟩⟩
  | refunding head => exact hsame _ (leases_returnCapacity db head.lease)
  | settling lease id reason drain => exact settle_step hl
  | withdrawing id reason =>
    show ∃ l', (List.modify _ _ _)[j]? = some l' ∧ _
    by_cases hj : id = j
    · rw [hj, getElem?_modify_self, hl]
      exact ⟨_, rfl, .inr (.inl rfl)⟩
    · rw [getElem?_modify_of_ne hj]
      exact ⟨l, hl, .inl ⟨rfl, rfl⟩⟩

/-- A row that waits after a step waited before it, in the same place, if it was there. -/
theorem advance_waits {late : Bool} {l' : DockerLease} (hl : db.leases[j]? = some l)
    (hl' : (advance settings env late db stage).1.leases[j]? = some l')
    (hw : l'.status = .waiting) : l.status = .waiting ∧ l'.position = l.position := by
  obtain ⟨l'', hl'', hstep⟩ := advance_row settings env late stage hl
  obtain rfl : l' = l'' := some.inj (hl'.symm.trans hl'')
  rcases hstep with ⟨hst, hpos⟩ | hrel | ⟨-, -, -, hheld⟩
  · exact ⟨hst ▸ hw, hpos⟩
  · rw [hrel] at hw
    cases hw
  · rw [hheld] at hw
    cases hw

theorem length_advance (env : Surroundings) (late : Bool) (db : Database) (stage : Stage) :
    db.leases.length ≤ (advance settings env late db stage).1.leases.length := by
  by_contra hlt
  have hlast := List.getElem?_eq_getElem (Nat.not_le.mp hlt)
  obtain ⟨l', hl', -⟩ := advance_row settings env late stage hlast
  rw [List.getElem?_eq_none (Nat.le_refl _)] at hl'
  cases hl'

def Stage.head? : Stage → Option Head
  | .booking head _ _ | .checking head _ | .promoting head | .refunding head => some head
  | _ => none

theorem firstStage_head (env : Surroundings) (db : Database) (call : GrantCall) :
    (firstStage settings env db call).head? = none := by
  cases call with
  | drainWaiters => rfl
  | reserve req =>
    dsimp only [firstStage, openReserve]
    split
    · rfl
    · cases resolveWeights req.footprint req.cpus req.memoryMb with
      | error vague => rfl
      | ok price => dsimp only; split <;> rfl
  | releaseLease id reason drain =>
    dsimp only [firstStage]
    cases db.leases[id]? with
    | none => rfl
    | some lease =>
      dsimp only
      split
      · rfl
      · split <;> rfl

theorem advance_head {late : Bool} (h : (advance settings env late db stage).2.head? = some head) :
    stage.head? = some head ∨ stage = .readingHead ∧
      headWaiter db = some (head.lease, head.id) ∧ head.known = db.leases.length := by
  -- a stage that goes on or gives up
  have hgoOn : ∀ (c : Prop) [Decidable c] (stage' : Stage),
      Stage.head? (if c then .done else stage') = some head → stage'.head? = some head := by
    intro c _ stage' hif
    split at hif
    · cases hif
    · exact hif
  cases stage with
  | starting call =>
    have hnone := (firstStage_head env db call).symm.trans h
    cases hnone
  | pending req price | existing req price =>
    have hnone := hgoOn _ _ h
    cases hnone
  | positioning req price | inserting req price position | refunding head'
  | withdrawing id reason | done => cases h
  | readingHead =>
    dsimp only [advance] at h
    cases hhead : headWaiter db with
    | none =>
      rw [hhead] at h
      cases h
    | some row =>
      rw [hhead] at h
      obtain rfl := some.inj h
      exact .inr ⟨rfl, rfl, rfl⟩
  | booking head' left revisions =>
    cases left with
    | cons name left => exact .inl h
    | nil =>
      dsimp only [advance] at h
      cases hb : claimPools db (chargedPools head'.lease.pool) (claimOf head'.lease)
          revisions with
      | none | some booked => rw [hb] at h; exact .inl h
  | checking head' left =>
    cases left with
    | cons name left =>
      have hon := hgoOn _ (.checking head' left) h
      exact .inl hon
    | nil =>
      have hon := hgoOn _ (.book head') h
      exact .inl hon
  | promoting head' =>
    dsimp only [advance] at h
    cases hc : claimPromotion env db head'.id with
    | none => rw [hc] at h; exact .inl h
    | some granted => rw [hc] at h; cases h
  | settling lease id reason drain =>
    change Stage.head? (if drain then .readingHead else .done) = some head at h
    split at h <;> cases h

/-! ## The head a session read -/

/-- Since a session read its head, no row that was there has come before it. -/
structure HeadKept (db : Database) (head : Head) : Prop where
  before : head.id < head.known
  known : head.known ≤ db.leases.length
  place : ∀ l, db.leases[head.id]? = some l → l.status = .waiting → l.position = head.lease.position
  first : ∀ (j : LeaseId) (l : DockerLease), j < head.known → db.leases[j]? = some l →
    l.status = .waiting → head.lease.position ≤ l.position

theorem HeadKept.read (hhead : headWaiter db = some (head.lease, head.id))
    (hknown : head.known = db.leases.length) : HeadKept db head := by
  obtain ⟨hl, -, hfirst⟩ := headWaiter_eq_some hhead
  obtain ⟨hlt, -⟩ := List.getElem?_eq_some_iff.mp hl
  refine ⟨hknown ▸ hlt, le_of_eq hknown, fun l hl' _ => ?_, fun j l _ hj hw => hfirst j l hj hw⟩
  obtain rfl : head.lease = l := some.inj (hl.symm.trans hl')
  rfl

theorem HeadKept.advance (h : HeadKept db head)
    (settings : Settings) (env : Surroundings) (late : Bool) (stage : Stage) :
    HeadKept (advance settings env late db stage).1 head := by
  -- a row below `known` was there before the step
  have hback : ∀ (j : LeaseId) (l' : DockerLease), j < head.known →
      (Capacity.advance settings env late db stage).1.leases[j]? = some l' →
      l'.status = .waiting → ∃ l, db.leases[j]? = some l ∧ l.status = .waiting ∧
        l'.position = l.position := by
    intro j l' hj hl' hw
    have hl := List.getElem?_eq_getElem (Nat.lt_of_lt_of_le hj h.known)
    exact ⟨_, hl, advance_waits hl hl' hw⟩
  refine ⟨h.before, Nat.le_trans h.known (length_advance env late db stage),
    fun l' hl' hw => ?_, fun j l' hj hl' hw => ?_⟩
  · obtain ⟨l, hl, hw₀, hpos⟩ := hback _ l' h.before hl' hw
    exact hpos.trans (h.place l hl hw₀)
  · obtain ⟨l, hl, hw₀, hpos⟩ := hback j l' hj hl' hw
    rw [hpos]
    exact h.first j l hj hl hw₀

/-- Where a run read the head that a session is about: in a state of the run in
    which it was the head, and `known` rows were there. -/
def HeadReadAt (settings : Settings) (s₀ : Crowd) (trace : List Move) (i : Nat)
    (head : Head) : Prop :=
  ∃ (before after : List Move) (move : Move) (s : Crowd),
    trace = before ++ move :: after ∧ move.i = i ∧ Run (Advances settings) s₀ before s ∧
    s.sessions[i]? = some .readingHead ∧ headWaiter s.db = some (head.lease, head.id) ∧
    s.db.leases.length = head.known

theorem HeadReadAt.snoc {s₀ : Crowd} {trace : List Move}
    (h : HeadReadAt settings s₀ trace i head) (move : Move) :
    HeadReadAt settings s₀ (trace ++ [move]) i head := by
  obtain ⟨before, after, read, s, rfl, hi, hr, hst, hhead, hknown⟩ := h
  refine ⟨before, after ++ [move], read, s, ?_, hi, hr, hst, hhead, hknown⟩
  rw [append_assoc, cons_append]

theorem sessions_advance {stage' : Stage}
    (h : (s.advance settings move).sessions[i]? = some stage') :
    (i ≠ move.i ∧ s.sessions[i]? = some stage') ∨
      i = move.i ∧ ∃ stage, s.sessions[i]? = some stage ∧
        stage' = (advance settings move.env move.late s.db stage).2 := by
  rw [Crowd.advance] at h
  cases hp : s.sessions[move.i]? with
  | none =>
    rw [hp] at h
    refine .inl ⟨?_, h⟩
    rintro rfl
    rw [hp] at h
    cases h
  | some stage =>
    rw [hp] at h
    by_cases hi : i = move.i
    · subst hi
      refine .inr ⟨rfl, stage, hp, ?_⟩
      obtain ⟨hlt, -⟩ := List.getElem?_eq_some_iff.mp hp
      rw [List.getElem?_set_self hlt] at h
      exact (some.inj h).symm
    · rw [List.getElem?_set_ne (Ne.symm hi)] at h
      exact .inl ⟨hi, h⟩

theorem db_advance (settings : Settings) (s : Crowd) (move : Move) :
    (s.advance settings move).db = s.db ∨ ∃ stage, s.sessions[move.i]? = some stage ∧
      (s.advance settings move).db = (advance settings move.env move.late s.db stage).1 := by
  rw [Crowd.advance]
  cases hp : s.sessions[move.i]? with
  | none => exact .inl rfl
  | some stage => exact .inr ⟨stage, rfl, rfl⟩

theorem heads_of_run {s₀ : Crowd} {trace : List Move} (h : Empty s₀)
    (hr : Run (Advances settings) s₀ trace s)
    (hp : s.sessions[i]? = some stage) (hh : stage.head? = some head) :
    HeadReadAt settings s₀ trace i head ∧ HeadKept s.db head := by
  induction trace using List.reverseRecOn generalizing s stage with
  | nil =>
    cases hr
    obtain ⟨call, rfl⟩ := h.starting stage (mem_of_getElem? hp)
    cases hh
  | append_singleton trace move ih =>
    obtain ⟨m, hbefore, hlast⟩ := Run.append_iff.mp hr
    have hs : m.advance settings move = s := Run.singleton_iff.mp hlast
    subst hs
    have hkeep : HeadKept m.db head → HeadKept (m.advance settings move).db head := by
      intro hk
      rcases db_advance settings m move with heq | ⟨st, -, heq⟩
      · rw [heq]
        exact hk
      · rw [heq]
        exact hk.advance settings move.env move.late st
    rcases sessions_advance hp with ⟨-, hold⟩ | ⟨rfl, old, hold, rfl⟩
    · obtain ⟨hread, hk⟩ := ih hbefore hold hh
      exact ⟨hread.snoc move, hkeep hk⟩
    · rcases advance_head hh with hh' | ⟨rfl, hhead, hknown⟩
      · obtain ⟨hread, hk⟩ := ih hbefore hold hh'
        exact ⟨hread.snoc move, hkeep hk⟩
      · exact ⟨⟨trace, [], move, m, rfl, rfl, hbefore, hold, hhead, hknown.symm⟩,
          hkeep (HeadKept.read hhead hknown)⟩

theorem promoting_of_granted {l' : DockerLease} (hl : s.db.leases[j]? = some l)
    (hw : l.status = .waiting) (hl' : (s.advance settings move).db.leases[j]? = some l')
    (ho : l'.status.occupying = true) :
    ∃ head, s.sessions[move.i]? = some (.promoting head) ∧ head.id = j := by
  rcases db_advance settings s move with heq | ⟨stage, hp, heq⟩
  · rw [heq, hl] at hl'
    obtain rfl := some.inj hl'
    rw [hw] at ho
    cases ho
  · rw [heq] at hl'
    obtain ⟨l'', hl'', hstep⟩ := advance_row settings move.env move.late stage hl
    obtain rfl : l' = l'' := some.inj (hl'.symm.trans hl'')
    rcases hstep with ⟨hst, -⟩ | hrel | ⟨head, rfl, hid, -⟩
    · rw [hst, hw] at ho
      cases ho
    · rw [hrel] at ho
      cases ho
    · exact ⟨head, hp, hid⟩

/-! ## No wake-up is lost -/

/-- A session that will look at the line again, or is booking for its front waiter
    at the revisions as they stand. -/
def Stage.Alert (db : Database) : Stage → Prop
  | .readingHead | .promoting _ | .refunding _ => True
  | .booking head left revisions =>
    headWaiter db = some (head.lease, head.id) ∧
      ∀ name ∈ chargedPools head.lease.pool, name ∉ left → (db.pool name).revision = revisions name
  | _ => False

/-- The front waiter does not fit, or some session is alert. -/
def Alert (s : Crowd) : Prop :=
  LineSettled s.db ∨ ∃ (i : Nat) (stage : Stage), s.sessions[i]? = some stage ∧ stage.Alert s.db

structure SameLine (db db' : Database) : Prop where
  head : headWaiter db' = headWaiter db
  held : ∀ name, (db'.pool name).held = (db.pool name).held
  ceiling : ∀ name, (db'.pool name).ceiling = (db.pool name).ceiling
  revision : ∀ name, (db'.pool name).revision = (db.pool name).revision

theorem SameLine.refl (db : Database) : SameLine db db :=
  ⟨rfl, fun _ => rfl, fun _ => rfl, fun _ => rfl⟩

theorem SameLine.settled {db' : Database} (h : SameLine db db') (hs : LineSettled db) :
    LineSettled db' := by
  intro lease id hhead
  rw [h.head] at hhead
  obtain ⟨p, hp, hshort⟩ := hs lease id hhead
  refine ⟨p, hp, fun hnil => hshort ?_⟩
  rw [shortfalls_eq_nil_iff, h.held, h.ceiling] at hnil
  exact shortfalls_eq_nil_iff.mpr hnil

theorem SameLine.alert {db' : Database} (h : SameLine db db')
    (hs : stage.Alert db) : stage.Alert db' := by
  cases stage with
  | booking head left revisions =>
    refine ⟨h.head.trans hs.1, fun name hname hleft => ?_⟩
    rw [h.revision]
    exact hs.2 name hname hleft
  | _ => exact hs

theorem settled_of_missed {revisions : CapacityPool → Nat}
    (h : (Stage.booking head [] revisions).Alert db)
    (hb : claimPools db (chargedPools head.lease.pool) (claimOf head.lease) revisions = none) :
    LineSettled db := by
  intro lease id hhead
  rw [h.1] at hhead
  obtain ⟨rfl, rfl⟩ := Prod.mk.inj (some.inj hhead)
  by_contra hfits
  have hroom : ∀ name ∈ chargedPools head.lease.pool, (db.pool name).revision = revisions name ∧
      (db.pool name).held + claimOf head.lease ≤ (db.pool name).ceiling.limit := by
    intro name hname
    have hnone : shortfalls name (db.pool name) head.lease = [] := by
      by_contra hshort
      exact hfits ⟨name, hname, hshort⟩
    exact ⟨h.2 name hname not_mem_nil, shortfalls_eq_nil_iff.mp hnone⟩
  rw [claimPools_eq_some.mpr ⟨hroom, rfl⟩] at hb
  cases hb

/-- After a step its session is alert, or the line is the same; then an alert
    session is alert still, or has found that the front waiter does not fit. -/
theorem advance_alert (settings : Settings) (env : Surroundings) (late : Bool) (db : Database)
    (hdrains : ∀ id reason, stage ≠ .withdrawing id reason)
    (hdrain : ∀ lease id reason, stage ≠ .settling lease id reason false) :
    (advance settings env late db stage).2.Alert (advance settings env late db stage).1 ∨
      SameLine db (advance settings env late db stage).1 ∧ (stage.Alert db → LineSettled db) := by
  have hsame := SameLine.refl db
  cases stage with
  | starting call | pending req price | existing req price | done =>
    exact .inr ⟨hsame, fun h => h.elim⟩
  | positioning req price =>
    have hpos := held_takePosition db
    exact .inr ⟨⟨rfl, fun name => (hpos name).1, fun name => (hpos name).2.1,
      fun name => (hpos name).2.2⟩, fun h => h.elim⟩
  | inserting req price position | refunding head => exact .inl trivial
  | readingHead =>
    dsimp only [advance]
    cases hhead : headWaiter db with
    | none =>
      refine .inr ⟨hsame, fun _ lease id h => ?_⟩
      rw [hhead] at h
      cases h
    | some row => exact .inl ⟨hhead, fun name hname hleft => absurd hname hleft⟩
  | booking head left revisions =>
    cases left with
    | cons name left =>
      by_cases halert : (Stage.booking head (name :: left) revisions).Alert db
      · refine .inl ⟨halert.1, fun name' hname' hleft => ?_⟩
        by_cases heq : name' = name
        · rw [heq]
          exact (Function.update_self name _ revisions).symm
        · rw [Function.update_of_ne heq]
          exact halert.2 name' hname' (by simp [heq, hleft])
      · exact .inr ⟨hsame, fun h => absurd h halert⟩
    | nil =>
      dsimp only [advance]
      cases hb : claimPools db (chargedPools head.lease.pool) (claimOf head.lease)
          revisions with
      | some booked => exact .inl trivial
      | none => exact .inr ⟨hsame, fun h => settled_of_missed h hb⟩
  | checking head left =>
    cases left with
    | cons name left | nil => exact .inr ⟨hsame, fun h => h.elim⟩
  | promoting head =>
    dsimp only [advance]
    cases claimPromotion env db head.id with
    | some granted | none => exact .inl trivial
  | settling lease id reason drain =>
    cases drain with
    | true => exact .inl trivial
    | false => exact absurd rfl (hdrain lease id reason)
  | withdrawing id reason => exact absurd rfl (hdrains id reason)

theorem Alert.step {t : Crowd} (h : Alert s) (hd : drainsOn s move = true)
    (hs : Advances settings s move t) : Alert t := by
  have heq : s.advance settings move = t := hs
  rw [← heq, Crowd.advance]
  cases hp : s.sessions[move.i]? with
  | none => exact h
  | some stage =>
    obtain ⟨hi, -⟩ := List.getElem?_eq_some_iff.mp hp
    have hdrains : ∀ id reason, stage ≠ .withdrawing id reason := by
      rintro id reason rfl
      rw [drainsOn, hp] at hd
      cases hd
    have hdrain : ∀ lease id reason, stage ≠ .settling lease id reason false := by
      rintro lease id reason rfl
      rw [drainsOn, hp] at hd
      cases hd
    rcases advance_alert settings move.env move.late s.db hdrains hdrain
      with halert | ⟨hline, hfound⟩
    · exact .inr ⟨move.i, _, List.getElem?_set_self hi, halert⟩
    · rcases h with hsettled | ⟨j, stage', hj, halert⟩
      · exact .inl (hline.settled hsettled)
      · by_cases hij : j = move.i
        · subst hij
          obtain rfl : stage = stage' := some.inj (hp.symm.trans hj)
          exact .inl (hline.settled (hfound halert))
        · refine .inr ⟨j, stage', ?_, hline.alert halert⟩
          rw [List.getElem?_set_ne (Ne.symm hij)]
          exact hj

/-- **First come, and nobody forgotten.** In every run of any number of sessions from an empty
    ledger, if a waiter is granted while one with a lower place waits, then the lower one's row was
    not in the table yet when the session that grants read its head; and if every release drains and
    no waiting lease is withdrawn, then whenever no session is inside a drain, the front waiter is
    short of something in some pool it is charged to. -/
theorem first_come {s₀ s : Crowd} {trace : List Move} (h : Empty s₀)
    (hr : Run (Advances settings) s₀ trace s) :
    (∀ (move : Move) (t : Crowd) (higher lower : LeaseId) (l l' low : DockerLease),
      Advances settings s move t →
      s.db.leases[higher]? = some l → l.status = .waiting →
      t.db.leases[higher]? = some l' → l'.status = .held →
      s.db.leases[lower]? = some low → low.status = .waiting → low.position < l.position →
      ∃ (before after : List Move) (read : Move) (m : Crowd),
        trace = before ++ read :: after ∧ read.i = move.i ∧
        Run (Advances settings) s₀ before m ∧ m.sessions[move.i]? = some .readingHead ∧
        (headWaiter m.db).map Prod.snd = some higher ∧ m.db.leases[lower]? = none) ∧
    (Run (Guarded (Advances settings) fun s move => drainsOn s move = true) s₀ trace s →
      (∀ stage ∈ s.sessions, stage.draining = false) →
      ∀ (l : DockerLease) (id : LeaseId), headWaiter s.db = some (l, id) →
        ∃ name ∈ chargedPools l.pool, shortfalls name (s.db.pool name) l ≠ []) := by
  constructor
  · intro move t higher lower l l' low hs hl hw hl' hheld hlow hlw hlt
    have heq : s.advance settings move = t := hs
    subst heq
    obtain ⟨head, hp, rfl⟩ := promoting_of_granted hl hw hl' (by rw [hheld]; rfl)
    obtain ⟨⟨before, after, read, m, htrace, hi, hbefore, hst, hhead, hknown⟩, hkept⟩ :=
      heads_of_run h hr hp rfl
    refine ⟨before, after, read, m, htrace, hi, hbefore, hst, ?_, ?_⟩
    · rw [hhead]
      rfl
    · refine List.getElem?_eq_none (Nat.not_lt.mp fun hlower => ?_)
      -- a lower place that was there already would have been before the head
      have hplace := hkept.place l hl hw
      have hfirst := hkept.first lower low (hknown ▸ hlower) hlow hlw
      omega
  · intro hrun hquiet
    have halert : Alert s := Run.invariant (P := Alert)
      (fun s move t hs hstep => hs.step hstep.1 hstep.2) (.inl fun lease id hhead => ?_) hrun
    · rcases halert with hsettled | ⟨i, stage, hp, hst⟩
      · exact hsettled
      · have hno := hquiet stage (mem_of_getElem? hp)
        cases stage <;> first | exact hst.elim | cases hno
    · obtain ⟨hl, -, -⟩ := headWaiter_eq_some hhead
      rw [h.leases] at hl
      cases hl

/-- Two reservations: the first takes its place and has not inserted its row when
    the second, whose place is behind it, inserts its own and reads the head. -/
def placeTakenFirst : Crowd :=
  (emptyHost [halfHost "first", halfHost "second"]).play [0, 0, 0, 0, 1, 1, 1, 1, 1, 1]

/-- Then the first row comes, and the second reservation books. -/
def bothWaiting : Crowd := placeTakenFirst.play [0, 1, 1]

/-- The second is granted while the first, with the lower place, waits. -/
theorem overtaken_by_a_later_place :
    ¬ ∀ (s₀ s t : Crowd) (trace : List Move) (move : Move) (higher lower : LeaseId)
      (l l' low : DockerLease), Empty s₀ → Run (Advances {}) s₀ trace s → Advances {} s move t →
      s.db.leases[higher]? = some l → l.status = .waiting →
      s.db.leases[lower]? = some low → low.status = .waiting → low.position < l.position →
      t.db.leases[higher]? = some l' → l'.status ≠ .held := by
  intro h
  have hrun : Run (Advances {}) (emptyHost [halfHost "first", halfHost "second"])
      (steps [0, 0, 0, 0, 1, 1, 1, 1, 1, 1] ++ steps [0, 1, 1]) bothWaiting :=
    Run.append_iff.mpr ⟨placeTakenFirst, Run.of_foldl (fun _ _ => rfl) _ _,
      Run.of_foldl (fun _ _ => rfl) _ _⟩
  -- the rows of the two, before the last step and after it
  have hrow : ∀ (db : Database) (j : LeaseId) (q : DockerLease → Bool),
      (db.leases[j]?).any q = true → ∃ l, db.leases[j]? = some l ∧ q l = true := by
    intro db j q hq
    cases hl : db.leases[j]? with
    | none => rw [hl] at hq; cases hq
    | some l => rw [hl] at hq; exact ⟨l, rfl, hq⟩
  obtain ⟨l, hl, hsecond⟩ := hrow bothWaiting.db 0
    (fun l => l.status = .waiting ∧ l.position = 2) (by decide +kernel)
  obtain ⟨low, hlow, hfirst⟩ := hrow bothWaiting.db 1
    (fun l => l.status = .waiting ∧ l.position = 1) (by decide +kernel)
  obtain ⟨l', hl', hheld⟩ := hrow (bothWaiting.play [1]).db 0 (fun l => l.status = .held)
    (by decide +kernel)
  obtain ⟨hw, hpos⟩ := of_decide_eq_true hsecond
  obtain ⟨hlw, hlpos⟩ := of_decide_eq_true hfirst
  exact h _ _ _ _ ⟨1, eightCpus, false⟩ 0 1 l l' low (emptyHost_empty _) hrun rfl hl hw hlow hlw
    (by omega) hl' (of_decide_eq_true hheld)

/-- One reservation that fits and one behind it that does not, each to its end. -/
def halfThenWhole : List GrantCall :=
  [halfHost "half", .reserve { holderLabel := "whole", pool := .host, cpus := 8, memoryMb := 8192 }]

def secondWaits : Crowd :=
  (emptyHost halfThenWhole).play [0, 0, 0, 0, 0, 0, 0, 0, 0, 0, 1, 1, 1, 1, 1, 1, 1, 1, 1]

/-- The second half of `first_come` there: the one that waits is short of something. -/
theorem first_come_secondWaits : (headWaiter secondWaits.db).map Prod.snd = some 1 ∧
    ∀ (l : DockerLease) (id : LeaseId), headWaiter secondWaits.db = some (l, id) →
      ∃ name ∈ chargedPools l.pool, shortfalls name (secondWaits.db.pool name) l ≠ [] := by
  have hrun : Run (Guarded (Advances {}) fun s move => drainsOn s move = true)
      (emptyHost halfThenWhole) (steps [0, 0, 0, 0, 0, 0, 0, 0, 0, 0, 1, 1, 1, 1, 1, 1, 1, 1, 1])
      secondWaits := run_steps _ (by decide +kernel)
  have hquiet : secondWaits.sessions.all (fun stage => ¬ stage.draining) = true := by
    decide +kernel
  have hidle : ∀ stage ∈ secondWaits.sessions, stage.draining = false := by
    intro stage hmem
    simpa using all_eq_true.mp hquiet stage hmem
  have hshort := (first_come (emptyHost_empty halfThenWhole) hrun.of_guarded).2 hrun hidle
  exact ⟨by decide +kernel, hshort⟩

end Loregarden.Capacity
