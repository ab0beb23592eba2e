import Loregarden.RunProofs
import Loregarden.CapacityFrameProofs

/-! # The running totals are the ledger's

`Books` says that every running total is the sum it stands for: each pool's held total over the
occupying leases charged to it, each lease's drawn total over its occupying children; that a lease
lends no more than its price; that an occupying child has an occupying parent, inserted before it;
and that no clamp at zero has ever changed a value.

Three writes move a total, and each moves the row and the total by the same amount: a promotion
(`Books.promote`), a child's grant (`Books.insertChild`) and a settlement (`Books.settle`). Every
other write is quiet (`Books.update_quiet`). A release recurses into the children first; what it
leaves of the rows is `Descends`. -/

namespace Loregarden.Capacity

open Tables Runs List Option Database

variable {l l' parent lease : DockerLease} {leases leases' : List DockerLease} {id : LeaseId}
variable {db : Database} {env : Surroundings} {reason : DockerLeaseEndReason}

/-! ## What a lease weighs -/

def share (name : CapacityPool) (l : DockerLease) : Booking :=
  if l.status.occupying ∧ name ∈ chargedPools l.pool then booked l else 0

/-- A lease's share of what has been drawn from a parent. -/
def drawn (id : LeaseId) (l : DockerLease) : Weights :=
  if l.status.occupying ∧ l.parentLeaseId = some id then l.covered else 0

/-- The sum of `booked` over the occupying leases charged to a pool. -/
def bookedTotal (leases : List DockerLease) (name : CapacityPool) : Booking :=
  total (share name) leases

/-- The sum of `covered` over the occupying children of a lease. -/
def drawnTotal (leases : List DockerLease) (id : LeaseId) : Weights := total (drawn id) leases

/-- The columns no write to a row already there ever changes. -/
structure SameClaim (l l' : DockerLease) : Prop where
  holderKind : l'.holderKind = l.holderKind
  agentRunId : l'.agentRunId = l.agentRunId
  orchestrationRunId : l'.orchestrationRunId = l.orchestrationRunId
  parentLeaseId : l'.parentLeaseId = l.parentLeaseId
  covered : l'.covered = l.covered
  takesSlot : l'.takesSlot = l.takesSlot
  pool : l'.pool = l.pool
  price : l'.price = l.price

theorem SameClaim.refl (l : DockerLease) : SameClaim l l := ⟨rfl, rfl, rfl, rfl, rfl, rfl, rfl, rfl⟩

theorem SameClaim.trans {a b c : DockerLease} (hab : SameClaim a b) (hbc : SameClaim b c) :
    SameClaim a c where
  holderKind := hbc.holderKind.trans hab.holderKind
  agentRunId := hbc.agentRunId.trans hab.agentRunId
  orchestrationRunId := hbc.orchestrationRunId.trans hab.orchestrationRunId
  parentLeaseId := hbc.parentLeaseId.trans hab.parentLeaseId
  covered := hbc.covered.trans hab.covered
  takesSlot := hbc.takesSlot.trans hab.takesSlot
  pool := hbc.pool.trans hab.pool
  price := hbc.price.trans hab.price

section

variable (h : SameClaim l l')
include h

theorem SameClaim.booked : booked l' = booked l := by
  simp only [Capacity.booked, h.price, h.covered, h.takesSlot]

theorem SameClaim.claimOf : claimOf l' = claimOf l := by
  simp only [Capacity.claimOf, h.booked, h.price]

theorem SameClaim.share (ho : l'.status.occupying = l.status.occupying) (name : CapacityPool) :
    share name l' = share name l := by
  simp only [Capacity.share, h.booked, h.pool, ho]

theorem SameClaim.drawn (ho : l'.status.occupying = l.status.occupying) (id : LeaseId) :
    drawn id l' = drawn id l := by
  simp only [Capacity.drawn, h.covered, h.parentLeaseId, ho]

end

theorem share_of_not_occupying (h : l.status.occupying = false)
    (name : CapacityPool) : share name l = 0 := by
  rw [share, if_neg (by simp [h])]

theorem drawn_of_not_occupying (h : l.status.occupying = false)
    (id : LeaseId) : drawn id l = 0 := by
  rw [drawn, if_neg (by simp [h])]

theorem drawn_of_top (h : l.parentLeaseId = none) (id : LeaseId) : drawn id l = 0 := by
  rw [drawn, if_neg (by simp [h])]

theorem booked_of_uncovered (h : l.covered = 0) : booked l = claimOf l := by
  simp only [booked, claimOf, h, sub_zero, Booking.of_count]

/-! ## The invariant -/

structure RowOk (leases : List DockerLease) (id : LeaseId) (l : DockerLease) : Prop where
  covered_nonneg : 0 ≤ l.covered
  covered_le : l.covered ≤ l.price
  waiting_top : l.status = .waiting → l.parentLeaseId = none
  top_uncovered : l.parentLeaseId = none → l.covered = 0
  parent_lt : ∀ p, l.parentLeaseId = some p → p < id
  parent_live : l.status.occupying = true → ∀ p, l.parentLeaseId = some p →
    ∃ parent, leases[p]? = some parent ∧ parent.status.occupying = true
  lent : l.childCovered ≤ l.price
  drawn : l.childCovered = drawnTotal leases id

structure Books (db : Database) : Prop where
  held : ∀ name, (db.pool name).held = bookedTotal db.leases name
  rows : Rows (RowOk db.leases) db.leases
  unclamped : db.clampChanged = false

section

variable (h : RowOk leases id l)
include h

/-- A row keeps what holds of it when it keeps its claim and its total, and no
    parent stops occupying. -/
theorem RowOk.of_same (hs : SameClaim l l')
    (ho : l'.status.occupying = true → l.status.occupying = true)
    (hw : l'.status = .waiting → l.status = .waiting) (hc : l'.childCovered = l.childCovered)
    (hd : drawnTotal leases' id = drawnTotal leases id)
    (hp : l'.status.occupying = true → ∀ p parent, l.parentLeaseId = some p →
      leases[p]? = some parent → parent.status.occupying = true →
      ∃ parent', leases'[p]? = some parent' ∧ parent'.status.occupying = true) :
    RowOk leases' id l' where
  covered_nonneg := hs.covered ▸ h.covered_nonneg
  covered_le := by
    rw [hs.covered, hs.price]
    exact h.covered_le
  waiting_top hwait := by
    rw [hs.parentLeaseId]
    exact h.waiting_top (hw hwait)
  top_uncovered htop := by
    rw [hs.covered]
    exact h.top_uncovered (hs.parentLeaseId ▸ htop)
  parent_lt p hparent := h.parent_lt p (hs.parentLeaseId ▸ hparent)
  parent_live hocc p hparent := by
    rw [hs.parentLeaseId] at hparent
    obtain ⟨parent, hrow, hlive⟩ := h.parent_live (ho hocc) p hparent
    exact hp hocc p parent hparent hrow hlive
  lent := by
    rw [hc, hs.price]
    exact h.lent
  drawn := by
    rw [hc, hd]
    exact h.drawn

def KeepsLive (leases leases' : List DockerLease) : Prop :=
  ∀ (p : LeaseId) (parent : DockerLease), leases[p]? = some parent →
    parent.status.occupying = true →
    ∃ parent', leases'[p]? = some parent' ∧ parent'.status.occupying = true

omit h in
theorem KeepsLive.modify {f : DockerLease → DockerLease}
    (hf : ∀ l, leases[id]? = some l → l.status.occupying = true →
      (f l).status.occupying = true) : KeepsLive leases (leases.modify id f) := by
  intro p parent hp ho
  by_cases hpid : id = p
  · subst hpid
    exact ⟨f parent, by rw [getElem?_modify_self, hp]; rfl, hf parent hp ho⟩
  · exact ⟨parent, by rw [getElem?_modify_of_ne hpid]; exact hp, ho⟩

theorem RowOk.frame (hd : drawnTotal leases' id = drawnTotal leases id)
    (hlive : KeepsLive leases leases') : RowOk leases' id l :=
  h.of_same (SameClaim.refl l) (fun ho => ho) (fun hw => hw) rfl hd
    fun _ p parent _ hp ho => hlive p parent hp ho

omit h in
theorem Books.row (h : Books db)
    (hl : db.leases[id]? = some l) : RowOk db.leases id l := h.rows id l hl

theorem RowOk.booked_nonneg : 0 ≤ booked l := by
  have hle := h.covered_le
  refine ⟨sub_nonneg.mpr hle.1, sub_nonneg.mpr hle.2, ?_⟩
  show (0 : Int) ≤ if l.takesSlot then 1 else 0
  split <;> decide

theorem RowOk.share_nonneg (name : CapacityPool) : 0 ≤ share name l := by
  unfold share
  split
  · exact h.booked_nonneg
  · exact le_refl _

theorem RowOk.drawn_nonneg (p : LeaseId) : 0 ≤ Capacity.drawn p l := by
  unfold Capacity.drawn
  split
  · exact h.covered_nonneg
  · exact le_refl _

end

section

variable (h : Books db)
include h

theorem Books.forall_mem {P : DockerLease → Prop}
    (hP : ∀ id l, RowOk db.leases id l → P l) : ∀ l ∈ db.leases, P l := by
  intro l hl
  obtain ⟨id, hid⟩ := mem_iff_getElem?.mp hl
  exact hP id l (h.row hid)

section

variable (hl : db.leases[id]? = some l) (ho : l.status.occupying = true)
include hl ho

theorem Books.booked_le_held :
    ∀ p ∈ chargedPools l.pool, booked l ≤ (db.pool p).held := by
  intro p hp
  have hle := le_total (f := share p) (h.forall_mem fun _ _ hrow => hrow.share_nonneg p)
    (mem_of_getElem? hl)
  rw [share, if_pos ⟨ho, hp⟩] at hle
  rw [h.held p]
  exact hle

theorem Books.covered_le_drawn {p : LeaseId}
    (hlp : l.parentLeaseId = some p) (hparent : db.leases[p]? = some parent) :
    l.covered ≤ parent.childCovered := by
  have hle := le_total (f := drawn p) (h.forall_mem fun _ _ hrow => hrow.drawn_nonneg p)
    (mem_of_getElem? hl)
  rw [drawn, if_pos ⟨ho, hlp⟩] at hle
  rw [(h.row hparent).drawn]
  exact hle

end

theorem Books.of_same_held {db' : Database} (hheld : ∀ p, (db'.pool p).held = (db.pool p).held)
    (hl : db'.leases = db.leases) (hc : db'.clampChanged = db.clampChanged) : Books db' where
  held name := by
    rw [hheld, hl]
    exact h.held name
  rows := by
    rw [hl]
    exact h.rows
  unclamped := hc.trans h.unclamped

theorem Books.update_quiet {f : DockerLease → DockerLease}
    (hf : ∀ l, db.leases[id]? = some l → SameClaim l (f l) ∧
      (f l).status.occupying = l.status.occupying ∧
      ((f l).status = .waiting → l.status = .waiting) ∧
      (f l).childCovered = l.childCovered) :
    Books (db.update id f) := by
  have hdrawn : ∀ i, drawnTotal (db.leases.modify id f) i = drawnTotal db.leases i := fun i =>
    total_modify_of_eq (drawn i) fun l hl => (hf l hl).1.drawn (hf l hl).2.1 i
  have hlive : KeepsLive db.leases (db.leases.modify id f) :=
    KeepsLive.modify fun l hl ho => (hf l hl).2.1 ▸ ho
  refine ⟨fun name => ?_, ?_, h.unclamped⟩
  · rw [pool_update, h.held name]
    exact (total_modify_of_eq (share name) fun l hl => (hf l hl).1.share (hf l hl).2.1 name).symm
  · refine Rows.modify h.rows (fun j r _ _ hrow => ?_) (fun r hr hrow => ?_)
    · exact hrow.frame (hdrawn j) hlive
    · obtain ⟨hs, ho, hw, hc⟩ := hf r hr
      exact hrow.of_same hs (fun hocc => ho ▸ hocc) hw hc (hdrawn _)
        fun _ p parent _ hp hlv => hlive p parent hp hlv

theorem Books.drawnTotal_length : drawnTotal db.leases db.leases.length = 0 := by
  refine total_eq_zero fun l hl => ?_
  obtain ⟨id, hid⟩ := mem_iff_getElem?.mp hl
  obtain ⟨hlt, -⟩ := List.getElem?_eq_some_iff.mp hid
  rw [drawn, if_neg]
  rintro ⟨-, hp⟩
  have hback : db.leases.length < id := (h.row hid).parent_lt _ hp
  exact absurd hlt (Nat.lt_asymm hback)

theorem Books.insertWaiter
    (hw : l.status = .waiting) (hp : l.parentLeaseId = none) (hc : l.covered = 0)
    (hcc : l.childCovered = 0) (hprice : 0 ≤ l.price) : Books (db.insert l) := by
  have hocc : l.status.occupying = false := by rw [hw]; rfl
  have hdrawn : ∀ i, drawnTotal (db.leases ++ [l]) i = drawnTotal db.leases i := by
    intro i
    rw [drawnTotal, total_append_singleton, drawn_of_not_occupying hocc, add_zero]
    rfl
  refine ⟨fun name => ?_, ?_, h.unclamped⟩
  · rw [pool_insert, h.held name, leases_insert, bookedTotal, bookedTotal,
      total_append_singleton, share_of_not_occupying hocc, add_zero]
  · refine Rows.append h.rows (fun j r _ hrow => ?_) ?_
    · exact hrow.frame (hdrawn j) fun p parent hp hlive =>
        ⟨parent, getElem?_append_of_some hp, hlive⟩
    · refine ⟨hc ▸ le_refl _, hc ▸ hprice, fun _ => hp, fun _ => hc, ?_, ?_, hcc ▸ hprice, ?_⟩
      · intro p hparent
        rw [hp] at hparent
        cases hparent
      · intro _ p hparent
        rw [hp] at hparent
        cases hparent
      · rw [hcc]
        exact ((hdrawn _).trans h.drawnTotal_length).symm

theorem Books.promote
    (hl : db.leases[id]? = some lease) (hw : lease.status = .waiting) (now : Instant) :
    Books ((bookCharged db lease.pool (claimOf lease)).update id (promoted now)) := by
  have hrow := h.row hl
  have htop := hrow.waiting_top hw
  have hocc : lease.status.occupying = false := by rw [hw]; rfl
  have hsame : SameClaim lease (promoted now lease) := ⟨rfl, rfl, rfl, rfl, rfl, rfl, rfl, rfl⟩
  have hdrawn : ∀ i, drawnTotal (db.leases.modify id (promoted now)) i
      = drawnTotal db.leases i := by
    intro i
    refine total_modify_of_eq (drawn i) fun l hl' => ?_
    obtain rfl : lease = l := some.inj (hl.symm.trans hl')
    rw [drawn_of_top htop, drawn_of_top (hsame.parentLeaseId.trans htop)]
  have hlive : KeepsLive db.leases (db.leases.modify id (promoted now)) :=
    KeepsLive.modify fun _ _ _ => rfl
  refine ⟨fun name => ?_, ?_, h.unclamped⟩
  · rw [pool_update, pool_bookCharged, leases_update, leases_bookCharged,
      bookedTotal, total_modify (share name) hl, share_of_not_occupying hocc, sub_zero]
    have hbooked : booked (promoted now lease) = claimOf lease := by
      rw [hsame.booked, booked_of_uncovered (hrow.top_uncovered htop)]
    by_cases hp : name ∈ chargedPools lease.pool
    · rw [if_pos hp, share, if_pos ⟨rfl, hp⟩, hbooked]
      show (db.pool name).held + _ = _
      rw [h.held name]
      rfl
    · rw [if_neg hp, share, if_neg fun hc => hp hc.2, add_zero]
      exact h.held name
  · refine Rows.modify h.rows (fun j r _ _ hrow' => ?_) (fun r hr _ => ?_)
    · exact hrow'.frame (hdrawn j) hlive
    · obtain rfl : lease = r := some.inj (hl.symm.trans hr)
      refine ⟨hrow.covered_nonneg, hrow.covered_le, (fun hc => by cases hc), hrow.top_uncovered,
        hrow.parent_lt, ?_, hrow.lent, hrow.drawn.trans (hdrawn id).symm⟩
      intro _ p hp
      rw [show (promoted now lease).parentLeaseId = none from htop] at hp
      cases hp

end

/-! ## Covering a child, and settling a lease -/

/-- A row with an amount added to what its children have drawn. -/
def addCover (w : Weights) (l : DockerLease) : DockerLease :=
  { l with childCovered := l.childCovered + w }

@[simp] theorem addCover_zero (l : DockerLease) : addCover 0 l = l := by
  simp [addCover]

theorem drawnTotal_addCover (leases : List DockerLease) (p : LeaseId) (w : Weights)
    (i : LeaseId) : drawnTotal (leases.modify p (addCover w)) i = drawnTotal leases i :=
  total_modify_of_eq (drawn i) fun _ _ => rfl

theorem bookedTotal_addCover (leases : List DockerLease) (p : LeaseId) (w : Weights)
    (name : CapacityPool) :
    bookedTotal (leases.modify p (addCover w)) name = bookedTotal leases name :=
  total_modify_of_eq (share name) fun _ _ => rfl

theorem RowOk.recount (h : RowOk leases id l) (w : Weights) (hlent : l.childCovered + w ≤ l.price)
    (hd : drawnTotal leases' id = drawnTotal leases id + w)
    (hlive : l.status.occupying = true → ∀ p parent, l.parentLeaseId = some p →
      leases[p]? = some parent → parent.status.occupying = true →
      ∃ parent', leases'[p]? = some parent' ∧ parent'.status.occupying = true) :
    RowOk leases' id (addCover w l) where
  covered_nonneg := h.covered_nonneg
  covered_le := h.covered_le
  waiting_top := h.waiting_top
  top_uncovered := h.top_uncovered
  parent_lt := h.parent_lt
  parent_live ho p hp := by
    obtain ⟨parent, hrow, hpo⟩ := h.parent_live ho p hp
    exact hlive ho p parent hp hrow hpo
  lent := hlent
  drawn := by
    rw [hd, ← h.drawn]
    rfl

/-- A child's grant: its cover is drawn from the parent, its excess is booked,
    and its row is inserted. -/
theorem Books.insertChild {parentId : LeaseId} {child : DockerLease} (h : Books db)
    (hp : db.leases[parentId]? = some parent) (hpo : parent.status.occupying = true)
    (hc : child.parentLeaseId = some parentId) (hh : child.status = .held)
    (hcc : child.childCovered = 0) (hcov : 0 ≤ child.covered) (hle : child.covered ≤ child.price)
    (hroom : parent.childCovered + child.covered ≤ parent.price) :
    Books (((bookCharged db child.pool (booked child)).update parentId
      (addCover child.covered)).insert child) := by
  have hco : child.status.occupying = true := by rw [hh]; rfl
  obtain ⟨hlt, -⟩ := List.getElem?_eq_some_iff.mp hp
  have hdrawn : ∀ i, drawnTotal (db.leases.modify parentId (addCover child.covered) ++ [child]) i
      = drawnTotal db.leases i + drawn i child := by
    intro i
    rw [drawnTotal, total_append_singleton]
    exact congrArg (· + drawn i child) (drawnTotal_addCover db.leases parentId child.covered i)
  have hlive : KeepsLive db.leases
      (db.leases.modify parentId (addCover child.covered) ++ [child]) := by
    intro q r hq hro
    have hmodify : KeepsLive db.leases (db.leases.modify parentId (addCover child.covered)) :=
      KeepsLive.modify fun _ _ ho => ho
    obtain ⟨r', hr', hro'⟩ := hmodify q r hq hro
    exact ⟨r', getElem?_append_of_some hr', hro'⟩
  have hother : ∀ j, j ≠ parentId → drawn j child = 0 := by
    intro j hj
    rw [drawn, if_neg]
    rintro ⟨-, hc'⟩
    exact hj (some.inj (hc'.symm.trans hc))
  refine ⟨fun name => ?_, ?_, h.unclamped⟩
  · rw [pool_insert, pool_update, pool_bookCharged, leases_insert,
      leases_update, leases_bookCharged, bookedTotal, total_append_singleton]
    have hold : total (share name) (db.leases.modify parentId (addCover child.covered))
        = (db.pool name).held := (bookedTotal_addCover _ _ _ _).trans (h.held name).symm
    rw [hold]
    by_cases hn : name ∈ chargedPools child.pool
    · rw [if_pos hn, share, if_pos ⟨hco, hn⟩]
      rfl
    · rw [if_neg hn, share, if_neg fun hc => hn hc.2, add_zero]
  · refine Rows.append
      (P := RowOk (db.leases.modify parentId (addCover child.covered) ++ [child]))
      (Rows.modify h.rows (fun j r _ hj hrow => ?_) (fun r hr hrow => ?_))
      (fun _ _ _ hrow => hrow) ?_
    · refine hrow.frame ?_ hlive
      rw [hdrawn, hother j hj, add_zero]
    · obtain rfl : parent = r := some.inj (hp.symm.trans hr)
      refine hrow.recount child.covered hroom ?_ fun _ q r _ hq hro => hlive q r hq hro
      rw [hdrawn, drawn, if_pos ⟨hco, hc⟩]
    · rw [leases_update, leases_bookCharged, length_modify]
      have hnew : drawnTotal (db.leases.modify parentId (addCover child.covered) ++ [child])
          db.leases.length = 0 := by
        rw [hdrawn, hother _ (Nat.ne_of_gt hlt), add_zero]
        exact h.drawnTotal_length
      refine ⟨hcov, hle, ?_, ?_, ?_, ?_, ?_, ?_⟩
      · intro hw
        rw [hh] at hw
        cases hw
      · intro htop
        rw [hc] at htop
        cases htop
      · intro q hq
        rw [hc] at hq
        exact some.inj hq ▸ hlt
      · intro _ q hq
        rw [hc] at hq
        obtain rfl := some.inj hq
        exact hlive parentId parent hp hpo
      · rw [hcc]
        exact hcov.trans hle
      · rw [hcc]
        exact hnew.symm

theorem returnCover_eq {parentId : LeaseId} {child : DockerLease}
    (hp : db.leases[parentId]? = some parent) (hle : child.covered ≤ parent.childCovered) :
    returnCover db parentId child = db.update parentId (addCover (-child.covered)) := by
  have hclamp : (parent.childCovered - child.covered).atLeastZero
      = parent.childCovered - child.covered :=
    Weights.atLeastZero_eq (sub_nonneg.mpr hle)
  refine ext_rows (fun p => by cases p <;> rfl) ?_ ?_
  · refine modify_congr fun p hp' => ?_
    obtain rfl : parent = p := some.inj (hp.symm.trans hp')
    rw [hclamp, addCover, sub_eq_add_neg]
  · show (db.clampChanged || _) = db.clampChanged
    simp [hp, hclamp]

theorem settle_congr (h : SameClaim l l') :
    settle env db id l' reason = settle env db id l reason := by
  have hcapacity : ∀ db, returnCapacity db l' = returnCapacity db l := by
    intro db
    unfold returnCapacity
    rw [h.pool, h.booked]
  have hcover : ∀ db p, returnCover db p l' = returnCover db p l := by
    intro db p
    simp only [returnCover, h.covered]
  unfold settle
  rw [hcapacity, h.parentLeaseId]
  cases l.parentLeaseId with
  | none => rfl
  | some p => exact hcover _ p

theorem settle_row (env : Surroundings) (lease : DockerLease)
    (reason : DockerLeaseEndReason) (hl : db.leases[id]? = some l) :
    ∃ l', (settle env db id lease reason).leases[id]? = some l' ∧ SameClaim l l' ∧
      l'.status = .released := by
  have hended : (returnCapacity (db.update id (ended env.now reason)) lease).leases[id]?
      = some (ended env.now reason l) := by
    rw [leases_returnCapacity, leases_update, getElem?_modify_self, hl]
    rfl
  have hsame : SameClaim l (ended env.now reason l) := ⟨rfl, rfl, rfl, rfl, rfl, rfl, rfl, rfl⟩
  unfold settle
  cases lease.parentLeaseId with
  | none => exact ⟨_, hended, hsame, rfl⟩
  | some p =>
    show ∃ l', (List.modify _ p _)[id]? = some l' ∧ _
    by_cases hp : p = id
    · rw [hp, getElem?_modify_self, hended]
      exact ⟨_, rfl, ⟨rfl, rfl, rfl, rfl, rfl, rfl, rfl, rfl⟩, rfl⟩
    · rw [getElem?_modify_of_ne hp]
      exact ⟨_, hended, hsame, rfl⟩

theorem held_settle (h : ∀ p ∈ chargedPools lease.pool, booked lease ≤ (db.pool p).held)
    (name : CapacityPool) :
    ((settle env db id lease reason).pool name).held
      = (db.pool name).held - if name ∈ chargedPools lease.pool then booked lease else 0 := by
  have hback : returnCapacity (db.update id (ended env.now reason)) lease
      = bookCharged (db.update id (ended env.now reason)) lease.pool (-(booked lease)) :=
    returnCapacity_eq (by simpa using h)
  have hpool : (settle env db id lease reason).pool name
      = (returnCapacity (db.update id (ended env.now reason)) lease).pool name := by
    unfold settle
    cases lease.parentLeaseId with
    | none => rfl
    | some p => cases name <;> rfl
  rw [hpool, hback, pool_bookCharged, pool_update]
  split
  · exact (sub_eq_add_neg _ _).symm
  · exact (sub_zero _).symm

section

variable (h : Books db) (hl : db.leases[id]? = some lease) (ho : lease.status.occupying = true)
include h hl ho

/-- What a settlement writes: the row is ended, its pools are given its booking
    back, and its parent its cover. -/
theorem settle_eq :
    settle env db id lease reason =
      match lease.parentLeaseId with
      | none => (bookCharged db lease.pool (-(booked lease))).update id (ended env.now reason)
      | some p =>
        ((bookCharged db lease.pool (-(booked lease))).update id (ended env.now reason)).update p
          (addCover (-lease.covered)) := by
  have hback : returnCapacity (db.update id (ended env.now reason)) lease
      = (bookCharged db lease.pool (-(booked lease))).update id (ended env.now reason) := by
    rw [returnCapacity_eq fun p hp => ?_]
    · rfl
    · exact h.booked_le_held hl ho p hp
  unfold settle
  rw [hback]
  cases hparent : lease.parentLeaseId with
  | none => rfl
  | some p =>
    obtain ⟨parent, hp, -⟩ := (h.row hl).parent_live ho p hparent
    have hne : id ≠ p := Nat.ne_of_gt ((h.row hl).parent_lt p hparent)
    refine returnCover_eq ?_ (h.covered_le_drawn hl ho hparent hp)
    rw [leases_update, leases_bookCharged, getElem?_modify_of_ne hne]
    exact hp

theorem Books.held_ended (now : Instant)
    (reason : DockerLeaseEndReason) (name : CapacityPool) :
    ((bookCharged db lease.pool (-(booked lease))).pool name).held
      = bookedTotal (db.leases.modify id (ended now reason)) name := by
  rw [pool_bookCharged, bookedTotal, total_modify (share name) hl,
    share_of_not_occupying (l := ended now reason lease) rfl, add_zero]
  by_cases hn : name ∈ chargedPools lease.pool
  · rw [if_pos hn, share, if_pos ⟨ho, hn⟩, sub_eq_add_neg]
    show (db.pool name).held + _ = _
    rw [h.held name]
    rfl
  · rw [if_neg hn, share, if_neg fun hc => hn hc.2, sub_zero]
    exact h.held name

omit h hl ho in
/-- The rows after a lease has ended: each still has to give back what the lease
    had drawn from it. -/
theorem Books.rows_ended (h : Books db) (hl : db.leases[id]? = some lease)
    (hkids : ∀ (j : LeaseId) (c : DockerLease), db.leases[j]? = some c →
      c.status.occupying = true → c.parentLeaseId ≠ some id) (now : Instant)
    (reason : DockerLeaseEndReason)
    (hd : ∀ i, drawnTotal leases' i = drawnTotal db.leases i + -(drawn i lease))
    (hlive : ∀ (q : LeaseId) (r : DockerLease), q ≠ id → db.leases[q]? = some r →
      r.status.occupying = true →
      ∃ r', leases'[q]? = some r' ∧ r'.status.occupying = true) :
    Rows (fun j l => RowOk leases' j (addCover (-(drawn j lease)) l))
      (db.leases.modify id (ended now reason)) := by
  have hlent : ∀ j l, RowOk db.leases j l → l.childCovered + -(drawn j lease) ≤ l.price := by
    intro j l hrow
    have hle : l.childCovered + -(drawn j lease) ≤ l.childCovered := by
      rw [← sub_eq_add_neg]
      exact sub_le_self _ ((h.row hl).drawn_nonneg j)
    exact hle.trans hrow.lent
  refine Rows.modify h.rows (fun j r hr _ hrow => ?_) (fun r hr hrow => ?_)
  · refine hrow.recount _ (hlent j r hrow) (hd j) fun ho q parent hq hparent hpo => ?_
    refine hlive q parent ?_ hparent hpo
    rintro rfl
    exact hkids j r hr ho hq
  · have hend : RowOk db.leases id (ended now reason r) :=
      hrow.of_same ⟨rfl, rfl, rfl, rfl, rfl, rfl, rfl, rfl⟩ (fun ho => by cases ho)
        (fun hw => by cases hw) rfl rfl (fun ho => by cases ho)
    exact hend.recount _ (hlent id r hrow) (hd id) fun ho => by cases ho

theorem Books.settle
    (hkids : ∀ (j : LeaseId) (c : DockerLease), db.leases[j]? = some c →
      c.status.occupying = true → c.parentLeaseId ≠ some id)
    (env : Surroundings) (reason : DockerLeaseEndReason) :
    Books (settle env db id lease reason) := by
  have hd : ∀ i, drawnTotal (db.leases.modify id (ended env.now reason)) i
      = drawnTotal db.leases i + -(drawn i lease) := by
    intro i
    rw [drawnTotal, total_modify (drawn i) hl,
      drawn_of_not_occupying (l := ended env.now reason lease) rfl, add_zero, sub_eq_add_neg]
    rfl
  have hlive : ∀ (q : LeaseId) (r : DockerLease), q ≠ id → db.leases[q]? = some r →
      r.status.occupying = true →
      ∃ r', (db.leases.modify id (ended env.now reason))[q]? = some r' ∧
        r'.status.occupying = true :=
    fun q r hq hr hro => ⟨r, by rw [getElem?_modify_of_ne (Ne.symm hq)]; exact hr, hro⟩
  rw [settle_eq h hl ho]
  cases hparent : lease.parentLeaseId with
  | none =>
    refine ⟨fun name => h.held_ended hl ho env.now reason name, ?_, h.unclamped⟩
    refine (h.rows_ended hl hkids env.now reason hd hlive).mono fun j r _ hrow => ?_
    rw [drawn_of_top hparent, neg_zero, addCover_zero] at hrow
    exact hrow
  | some p =>
    refine ⟨fun name => ?_, ?_, h.unclamped⟩
    · exact (h.held_ended hl ho env.now reason name).trans
        (bookedTotal_addCover _ p _ name).symm
    · refine Rows.modify (h.rows_ended hl hkids env.now reason
        (fun i => (drawnTotal_addCover _ p (-lease.covered) i).trans (hd i))
        (fun q r hq hr hro => ?_)) (fun j r _ hj hrow => ?_) (fun r _ hrow => ?_)
      · obtain ⟨r', hr', hro'⟩ := hlive q r hq hr hro
        exact KeepsLive.modify (f := addCover (-lease.covered)) (fun _ _ ho => ho) q r' hr' hro'
      · have hzero : drawn j lease = 0 := by
          rw [drawn, if_neg]
          rintro ⟨-, hc⟩
          exact hj (some.inj (hc.symm.trans hparent))
        rw [hzero, neg_zero, addCover_zero] at hrow
        exact hrow
      · rw [drawn, if_pos ⟨ho, hparent⟩] at hrow
        exact hrow

end

theorem drainLoop_succ_of_some {booked : Database} (turns : Nat)
    (hhead : headWaiter db = some (lease, id)) (hbook : bookOnce db lease = some booked) :
    drainLoop env (turns + 1) db = ((drainLoop env turns (booked.update id (promoted env.now))).1,
        id :: (drainLoop env turns (booked.update id (promoted env.now))).2) := by
  obtain ⟨hrow, hw, -⟩ := headWaiter_eq_some hhead
  obtain ⟨-, hbooked⟩ := bookOnce_eq_some.mp hbook
  have hclaim : claimPromotion env booked id = some (booked.update id (promoted env.now)) := by
    refine claimPromotion_eq_some.mpr ⟨lease, ?_, hw, rfl⟩
    rw [hbooked]
    exact hrow
  rw [drainLoop, hhead]
  dsimp only
  rw [bookCapacityFor_eq, hbook]
  dsimp only
  rw [hclaim]

theorem drainLoop_succ_of_none (turns : Nat) (hhead : headWaiter db = some (lease, id))
    (hbook : bookOnce db lease = none) : drainLoop env (turns + 1) db = (db, []) := by
  rw [drainLoop, hhead]
  dsimp only
  rw [bookCapacityFor_eq, hbook]

theorem drainLoop_succ_of_empty (turns : Nat)
    (hhead : headWaiter db = none) : drainLoop env (turns + 1) db = (db, []) := by
  rw [drainLoop, hhead]

theorem drainLoop_induction {P : Database → Prop}
    (hstep : ∀ db lease id, P db → headWaiter db = some (lease, id) →
      (∀ p ∈ chargedPools lease.pool,
        (db.pool p).held + claimOf lease ≤ (db.pool p).ceiling.limit) →
      P ((bookCharged db lease.pool (claimOf lease)).update id (promoted env.now)))
    (turns : Nat) (h : P db) : P (drainLoop env turns db).1 := by
  induction turns generalizing db with
  | zero => exact h
  | succ turns ih =>
    cases hhead : headWaiter db with
    | none =>
      rw [drainLoop_succ_of_empty turns hhead]
      exact h
    | some row =>
      obtain ⟨lease, id⟩ := row
      cases hbook : bookOnce db lease with
      | none =>
        rw [drainLoop_succ_of_none turns hhead hbook]
        exact h
      | some booked =>
        rw [drainLoop_succ_of_some turns hhead hbook]
        obtain ⟨hfits, rfl⟩ := bookOnce_eq_some.mp hbook
        exact ih (hstep db lease id h hhead hfits)

theorem Books.drainWaiters (h : Books db) (env : Surroundings) : Books (drainWaiters env db).1 := by
  refine drainLoop_induction (fun db lease id hdb hhead _ => ?_) _ h
  obtain ⟨hrow, hw, -⟩ := headWaiter_eq_some hhead
  exact hdb.promote hrow hw env.now

end Loregarden.Capacity

