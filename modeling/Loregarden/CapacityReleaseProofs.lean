import Loregarden.CapacityBookProofs

/-! # Whole calls keep the books

Each call is taken apart once: what a child's grant inserts (`grant_cases`), what a release leaves
of the rows (`Descends`, `releaseTo_spec`, by induction on the depth below the lease), what a
reservation does (`reserve_cases`). From these every call keeps `Books`, so every run from the empty
ledger does (`ledger_books`). -/

namespace Loregarden.Capacity

open Tables Runs List Option Nat Database

variable {parent child l' : DockerLease} {db a b : Database} {parentId id j : LeaseId}

theorem coverFor_spec (draw : Bool) {price : Weights}
    (hprice : 0 ≤ price) (hlent : parent.childCovered ≤ parent.price) :
    0 ≤ coverFor draw parent price ∧ coverFor draw parent price ≤ price ∧
      parent.childCovered + coverFor draw parent price ≤ parent.price := by
  unfold coverFor
  cases draw with
  | false =>
    refine ⟨le_refl _, hprice, ?_⟩
    show parent.childCovered + 0 ≤ parent.price
    rw [add_zero]
    exact hlent
  | true =>
    have hunlent : (parent.price - parent.childCovered).atLeastZero
        = parent.price - parent.childCovered :=
      Weights.atLeastZero_eq (sub_nonneg.mpr hlent)
    obtain ⟨hc, hm⟩ := sub_nonneg.mpr hlent
    rw [hunlent]
    refine ⟨⟨le_min hprice.1 hc, le_min hprice.2 hm⟩, ⟨min_le_left _ _, min_le_left _ _⟩, ?_⟩
    have hcpus := min_le_right price.cpus (parent.price - parent.childCovered).cpus
    have hmemory := min_le_right price.memoryMb (parent.price - parent.childCovered).memoryMb
    simp only [Weights.sub_cpus, Weights.sub_memoryMb] at hcpus hmemory
    constructor
    · show parent.childCovered.cpus + min price.cpus _ ≤ _
      simp only [Weights.sub_cpus]
      linarith
    · show parent.childCovered.memoryMb + min price.memoryMb _ ≤ _
      simp only [Weights.sub_memoryMb]
      linarith

theorem cover_self {w : Weights}
    (hp : db.leases[parentId]? = some parent) (ho : parent.status.occupying = true) :
    cover db parentId parent w = some (db.update parentId (addCover w)) := by
  unfold cover
  rw [hp]
  dsimp only
  rw [if_pos ⟨ho, rfl⟩]
  rfl

structure Nested (db db' : Database) (parentId : LeaseId) (child : DockerLease) : Prop where
  leases : ∃ w, db'.leases = db.leases.modify parentId (addCover w) ++ [child]
  status : child.status = .held
  parentLeaseId : child.parentLeaseId = some parentId
  ceiling : ∀ p, (db'.pool p).ceiling = (db.pool p).ceiling
  nextPosition : ∀ p, (db'.pool p).nextPosition = (db.pool p).nextPosition

structure Unplaced (parentId : LeaseId) (child : DockerLease) : Prop where
  status : child.status = .held
  parentLeaseId : child.parentLeaseId = some parentId
  takesSlot : child.takesSlot = false
  childCovered : child.childCovered = 0
  price : 0 ≤ child.price

/-- Covering and booking succeed by one write of the parent's row and, when
    there is an excess, one booking of the pools. -/
theorem coverAndBook_cases {booked' : Database} (h : Books db)
    (hp : db.leases[parentId]? = some parent) (ho : parent.status.occupying = true)
    (hu : Unplaced parentId child) (hcov : 0 ≤ child.covered) (hle : child.covered ≤ child.price)
    (hroom : parent.childCovered + child.covered ≤ parent.price)
    (hb : coverAndBook db parentId parent child = some (some booked')) :
    Books (booked'.insert child) ∧ Nested db (booked'.insert child) parentId child := by
  have hbooked : booked child = .of (child.price - child.covered) 0 := by
    simp [booked, hu.takesSlot]
  have hins := h.insertChild hp ho hu.parentLeaseId hu.status hu.childCovered hcov hle hroom
  unfold coverAndBook at hb
  rw [cover_self hp ho] at hb
  dsimp only at hb
  by_cases hexcess : (child.price - child.covered).cpus > 0 ∨
      (child.price - child.covered).memoryMb > 0
  · rw [if_pos hexcess] at hb
    obtain ⟨-, rfl⟩ := claimPools_eq_some.mp (some.inj hb)
    rw [← hbooked]
    refine ⟨hins, ⟨_, rfl⟩, hu.status, hu.parentLeaseId, fun p => ?_, fun p => ?_⟩
    · rw [pool_insert, pool_bookCharged, pool_update]
      split <;> rfl
    · rw [pool_insert, pool_bookCharged, pool_update]
      split <;> rfl
  · -- nothing in excess: the pools are left alone, and there was nothing to book
    rw [if_neg hexcess] at hb
    obtain rfl := some.inj (some.inj hb)
    obtain ⟨hc, hm⟩ := sub_nonneg.mpr hle
    obtain ⟨hnc, hnm⟩ := not_or.mp hexcess
    have hzero : booked child = 0 := by
      rw [hbooked]
      ext
      · exact le_antisymm (not_lt.mp hnc) hc
      · exact le_antisymm (not_lt.mp hnm) hm
      · rfl
    rw [hzero] at hins
    refine ⟨hins.of_same_held (fun p => ?_) rfl rfl, ⟨_, rfl⟩, hu.status, hu.parentLeaseId,
      fun p => by simp, fun p => by simp⟩
    rw [pool_insert, pool_update, pool_insert, pool_update,
      pool_bookCharged]
    split
    · simp [DockerCapacityPool.book]
    · rfl

theorem grantTurn_cases {env : Surroundings} {db' : Database} {draw : Bool}
    {reply : DockerReservation} (h : Books db) (hu : Unplaced parentId child)
    (hg : grantTurn env db parentId child draw = some (db', reply)) :
    db' = db ∨ Books db' ∧ ∃ child', Nested db db' parentId child' := by
  unfold grantTurn at hg
  cases hp : db.leases[parentId]? with
  | none =>
    rw [hp] at hg
    exact .inl (congrArg Prod.fst (some.inj hg)).symm
  | some parent =>
    rw [hp] at hg
    dsimp only at hg
    by_cases ho : parent.status.occupying = true
    · rw [if_neg (by simp [ho])] at hg
      have hrow := h.row hp
      obtain ⟨hcov, hle, hroom⟩ := coverFor_spec draw hu.price hrow.lent
      cases hb : coverAndBook db parentId parent
          (withCover child (coverFor draw parent child.price)) with
      | none =>
        rw [hb] at hg
        cases hg
      | some outcome =>
        rw [hb] at hg
        cases outcome with
        | none =>
          dsimp only at hg
          split at hg
          · exact .inl (congrArg Prod.fst (some.inj hg)).symm
          · cases hg
        | some booked' =>
          obtain rfl := congrArg Prod.fst (some.inj hg)
          -- the clocks stamped at the end are no part of the books
          let placed := stamped env.now (withCover child (coverFor draw parent child.price))
          have hplaced : Books (booked'.insert placed) ∧
              Nested db (booked'.insert placed) parentId placed := coverAndBook_cases h hp ho
            ⟨hu.status, hu.parentLeaseId, hu.takesSlot, hu.childCovered, hu.price⟩ hcov hle hroom hb
          exact .inr ⟨hplaced.1, _, hplaced.2⟩
    · rw [if_pos ho] at hg
      exact .inl (congrArg Prod.fst (some.inj hg)).symm

theorem grant_cases {env : Surroundings} {draw : Bool} (h : Books db) (hu : Unplaced parentId child)
    (turns : Nat) :
    (grant env db parentId child draw turns).1 = db ∨
      Books (grant env db parentId child draw turns).1 ∧
        ∃ child', Nested db (grant env db parentId child draw turns).1 parentId child' := by
  induction turns with
  | zero =>
    unfold grant
    cases hg : grantTurn env db parentId child draw with
    | none => exact .inl rfl
    | some answer => exact grantTurn_cases h hu hg
  | succ turns ih =>
    unfold grant
    cases hg : grantTurn env db parentId child draw with
    | none => exact ih
    | some answer => exact grantTurn_cases h hu hg

/-! ## Releasing downwards -/

/-- What releasing from a lease downwards leaves: every row is as it was, up to
    its bookkeeping, or occupied and is now released. -/
structure Descends (id : LeaseId) (db db' : Database) : Prop where
  length : db'.leases.length = db.leases.length
  ceiling : ∀ p, (db'.pool p).ceiling = (db.pool p).ceiling
  nextPosition : ∀ p, (db'.pool p).nextPosition = (db.pool p).nextPosition
  row : ∀ (j : LeaseId) (l : DockerLease), db.leases[j]? = some l →
    ∃ l', db'.leases[j]? = some l' ∧ SameClaim l l' ∧ l'.position = l.position ∧
      (l'.status = l.status ∨ id ≤ j ∧ l.status.occupying = true ∧ l'.status = .released)

theorem Descends.refl (id : LeaseId) (db : Database) : Descends id db db :=
  ⟨rfl, fun _ => rfl, fun _ => rfl, fun _ l hl => ⟨l, hl, SameClaim.refl l, rfl, .inl rfl⟩⟩

theorem Descends.trans {c : Database} (hab : Descends id a b)
    (hbc : Descends id b c) : Descends id a c where
  length := hbc.length.trans hab.length
  ceiling p := (hbc.ceiling p).trans (hab.ceiling p)
  nextPosition p := (hbc.nextPosition p).trans (hab.nextPosition p)
  row j l hl := by
    obtain ⟨l', hl', hs', hpos', hst'⟩ := hab.row j l hl
    obtain ⟨l'', hl'', hs'', hpos'', hst''⟩ := hbc.row j l' hl'
    refine ⟨l'', hl'', hs'.trans hs'', hpos''.trans hpos', ?_⟩
    rcases hst' with hsame | ⟨hle, ho, hrel⟩
    · rw [hsame] at hst''
      exact hst''
    · rcases hst'' with hsame | ⟨-, ho', -⟩
      · exact .inr ⟨hle, ho, hsame.trans hrel⟩
      · rw [hrel] at ho'
        cases ho'

theorem Descends.mono {id' : LeaseId} (h : Descends id' a b)
    (hle : id ≤ id') : Descends id a b where
  length := h.length
  ceiling := h.ceiling
  nextPosition := h.nextPosition
  row j l hl := by
    obtain ⟨l', hl', hs, hpos, hst⟩ := h.row j l hl
    refine ⟨l', hl', hs, hpos, ?_⟩
    rcases hst with hsame | ⟨hle', ho, hrel⟩
    · exact .inl hsame
    · exact .inr ⟨le_trans hle hle', ho, hrel⟩

theorem Descends.row_before (h : Descends id a b) (hl' : b.leases[j]? = some l') :
    ∃ l, a.leases[j]? = some l ∧ SameClaim l l' ∧ l'.position = l.position ∧
      (l'.status = l.status ∨ id ≤ j ∧ l.status.occupying = true ∧ l'.status = .released) := by
  obtain ⟨hlt, -⟩ := List.getElem?_eq_some_iff.mp hl'
  rw [h.length] at hlt
  have hl : a.leases[j]? = some a.leases[j] := List.getElem?_eq_getElem hlt
  obtain ⟨l'', hl'', hrest⟩ := h.row j _ hl
  obtain rfl : l' = l'' := some.inj (hl'.symm.trans hl'')
  exact ⟨_, hl, hrest⟩

theorem Descends.released (h : Descends id a b) {l : DockerLease} (hl : a.leases[j]? = some l)
    (hrel : l.status = .released) (hl' : b.leases[j]? = some l') : l'.status = .released := by
  obtain ⟨l'', hl'', -, -, hst⟩ := h.row j l hl
  obtain rfl : l' = l'' := some.inj (hl'.symm.trans hl'')
  rcases hst with hsame | ⟨-, -, hrel'⟩
  · exact hsame.trans hrel
  · exact hrel'

theorem Descends.occupying_before (h : Descends id a b) (hl' : b.leases[j]? = some l')
    (ho : l'.status.occupying = true) :
    ∃ l, a.leases[j]? = some l ∧ SameClaim l l' ∧ l.status.occupying = true := by
  obtain ⟨l, hl, hs, -, hst⟩ := h.row_before hl'
  rcases hst with hsame | ⟨-, -, hrel⟩
  · exact ⟨l, hl, hs, hsame ▸ ho⟩
  · rw [hrel] at ho
    cases ho

theorem Descends.settle {lease : DockerLease} (h : Books db) (hl : db.leases[id]? = some lease)
    (ho : lease.status.occupying = true) (env : Surroundings) (reason : DockerLeaseEndReason) :
    Descends id db (settle env db id lease reason) ∧
      ∀ l', (Capacity.settle env db id lease reason).leases[id]? = some l' →
        l'.status = .released := by
  have hpools : ∀ p, (Capacity.settle env db id lease reason).pool p
      = (bookCharged db lease.pool (-(booked lease))).pool p := by
    intro p
    rw [settle_eq h hl ho]
    cases lease.parentLeaseId with
    | none => rw [pool_update]
    | some q => rw [pool_update, pool_update]
  have hrows : ∃ (q : LeaseId) (w : Weights), q ≠ id ∧
      (Capacity.settle env db id lease reason).leases
        = (db.leases.modify id (ended env.now reason)).modify q (addCover w) := by
    rw [settle_eq h hl ho]
    cases hparent : lease.parentLeaseId with
    | none =>
      refine ⟨id + 1, 0, succ_ne_self id, ?_⟩
      show _ = (db.leases.modify id _).modify (id + 1) (addCover 0)
      rw [modify_congr (g := fun l => l) fun l _ => addCover_zero l]
      exact (modify_id _ _).symm
    | some q =>
      exact ⟨q, _, Nat.ne_of_lt ((h.row hl).parent_lt q hparent), rfl⟩
  obtain ⟨q, w, hq, hleases⟩ := hrows
  have hat : ∀ j l, db.leases[j]? = some l → ∃ l₁,
      (Capacity.settle env db id lease reason).leases[j]? = some l₁ ∧ SameClaim l l₁ ∧
        l₁.position = l.position ∧
        l₁.status = if j = id then .released else l.status := by
    intro j l hj
    rw [hleases]
    by_cases hjq : q = j
    · subst hjq
      refine ⟨addCover w l, ?_, ⟨rfl, rfl, rfl, rfl, rfl, rfl, rfl, rfl⟩, rfl, ?_⟩
      · rw [getElem?_modify_self, getElem?_modify_of_ne (Ne.symm hq), hj]
        rfl
      · rw [if_neg hq]
        rfl
    · rw [getElem?_modify_of_ne hjq]
      by_cases hji : id = j
      · subst hji
        refine ⟨ended env.now reason l, ?_, ⟨rfl, rfl, rfl, rfl, rfl, rfl, rfl, rfl⟩, rfl, ?_⟩
        · rw [getElem?_modify_self, hj]
          rfl
        · rw [if_pos rfl]
          rfl
      · refine ⟨l, ?_, SameClaim.refl l, rfl, (if_neg (Ne.symm hji)).symm⟩
        rw [getElem?_modify_of_ne hji]
        exact hj
  refine ⟨⟨?_, fun p => ?_, fun p => ?_, fun j l hj => ?_⟩, fun l' hl' => ?_⟩
  · rw [hleases, length_modify, length_modify]
  · rw [hpools, pool_bookCharged]
    split <;> rfl
  · rw [hpools, pool_bookCharged]
    split <;> rfl
  · obtain ⟨l₁, hl₁, hs, hpos, hst⟩ := hat j l hj
    refine ⟨l₁, hl₁, hs, hpos, ?_⟩
    by_cases hji : j = id
    · subst hji
      obtain rfl : lease = l := some.inj (hl.symm.trans hj)
      exact .inr ⟨le_refl _, ho, by rw [hst, if_pos rfl]⟩
    · exact .inl (by rw [hst, if_neg hji])
  · obtain ⟨l₁, hl₁, -, -, hst⟩ := hat id lease hl
    obtain rfl : l' = l₁ := some.inj (hl'.symm.trans hl₁)
    rw [hst, if_pos rfl]

/-- What a release that does not drain establishes, on a lease that is not waiting. -/
structure Released (id : LeaseId) (db db' : Database) : Prop where
  books : Books db'
  descends : Descends id db db'
  ended : ∀ l', db'.leases[id]? = some l' → l'.status = .released

theorem releaseChildren_spec (release : Database → LeaseId → Database) {n : Nat}
    (hrelease : ∀ db c, Books db → db.leases.length = n → id < c →
      (∀ l, db.leases[c]? = some l → l.status ≠ .waiting) → Released c db (release db c))
    (children : List (DockerLease × LeaseId)) (h : Books db) (hn : db.leases.length = n)
    (hc : ∀ c ∈ children, id < c.2 ∧ ∀ l, db.leases[c.2]? = some l → l.status ≠ .waiting) :
    Books (children.foldl (fun db child => release db child.2) db) ∧
      Descends (id + 1) db (children.foldl (fun db child => release db child.2) db) ∧
      ∀ c ∈ children, ∀ l',
        (children.foldl (fun db child => release db child.2) db).leases[c.2]? = some l' →
        l'.status = .released := by
  induction children generalizing db with
  | nil => exact ⟨h, Descends.refl _ _, fun c hmem => by cases hmem⟩
  | cons child rest ih =>
    obtain ⟨hlt, hnw⟩ := hc child mem_cons_self
    have hone := hrelease db child.2 h hn hlt hnw
    have hdown : Descends (id + 1) db (release db child.2) := hone.descends.mono hlt
    obtain ⟨hbooks, hrest, hended⟩ := ih hone.books (hone.descends.length.trans hn) fun c hmem =>
      ⟨(hc c (mem_cons_of_mem _ hmem)).1, fun l hl hw => by
        obtain ⟨l₀, hl₀, -, -, hst⟩ := hone.descends.row_before hl
        rcases hst with hsame | ⟨-, -, hrel⟩
        · exact (hc c (mem_cons_of_mem _ hmem)).2 l₀ hl₀ (hsame ▸ hw)
        · rw [hrel] at hw
          exact by cases hw⟩
    refine ⟨hbooks, hdown.trans hrest, fun c hmem l' hl' => ?_⟩
    rcases mem_cons.mp hmem with rfl | hmem
    · obtain ⟨l₁, hl₁, -, -, -⟩ := hrest.row_before hl'
      exact hrest.released hl₁ (hone.ended l₁ hl₁) hl'
    · exact hended c hmem l' hl'

/-- **A release, whatever hangs below the lease.** -/
theorem releaseTo_spec (env : Surroundings) (depth : Nat)
    (reason : DockerLeaseEndReason) (h : Books db) (hdepth : db.leases.length ≤ id + depth)
    (hnw : ∀ l, db.leases[id]? = some l → l.status ≠ .waiting) :
    Released id db (releaseTo env depth db id reason false).1 := by
  induction depth generalizing db id reason with
  | zero =>
    refine ⟨h, Descends.refl _ _, fun l' hl' => ?_⟩
    obtain ⟨hlt, -⟩ := List.getElem?_eq_some_iff.mp hl'
    exact absurd hlt (not_lt.mpr hdepth)
  | succ depth ih =>
    unfold releaseTo
    cases hl : db.leases[id]? with
    | none => exact ⟨h, Descends.refl _ _, fun l' hl' => by cases hl.symm.trans hl'⟩
    | some lease =>
      dsimp only
      by_cases ho : lease.status.occupying = true
      · rw [if_neg (by simp [ho])]
        have hkids : ∀ c ∈ childrenOf db id, id < c.2 ∧
            ∀ l, db.leases[c.2]? = some l → l.status ≠ .waiting := by
          rintro ⟨c, j⟩ hmem
          obtain ⟨hj, hsel⟩ := mem_select.mp hmem
          obtain ⟨hparent, hco⟩ := of_decide_eq_true hsel
          refine ⟨(h.row hj).parent_lt id hparent, fun l hl' hw => ?_⟩
          obtain rfl : c = l := some.inj (hj.symm.trans hl')
          rw [hw] at hco
          cases hco
        obtain ⟨hbooks, hdown, hended⟩ := releaseChildren_spec
          (fun db c => (releaseTo env depth db c .parentReleased false).1)
          (fun db' c h' hn hlt hnw' => by
            have hc : Nat.succ id + depth ≤ c + depth := Nat.add_le_add_right hlt depth
            exact ih .parentReleased h' (by omega) hnw')
          (childrenOf db id) h rfl hkids
        generalize hdb' : (childrenOf db id).foldl
          (fun db child => (releaseTo env depth db child.2 .parentReleased false).1) db = db'
          at hbooks hdown hended
        -- the lease itself lies above the children and is as it was read
        obtain ⟨lease', hl', hsame, -, hst⟩ := hdown.row id lease hl
        have ho' : lease'.status.occupying = true := by
          rcases hst with heq | ⟨hle, -, -⟩
          · rw [heq]
            exact ho
          · exact absurd hle (not_succ_le_self id)
        have hnokids : ∀ (j : LeaseId) (c : DockerLease), db'.leases[j]? = some c →
            c.status.occupying = true → c.parentLeaseId ≠ some id := by
          intro j c hj hco hparent
          obtain ⟨c₀, hj₀, hs₀, hco₀⟩ := hdown.occupying_before hj hco
          have hmem : (c₀, j) ∈ childrenOf db id :=
            mem_select.mpr
              ⟨hj₀, decide_eq_true ⟨hs₀.parentLeaseId.symm.trans hparent, hco₀⟩⟩
          rw [hended _ hmem c hj] at hco
          cases hco
        rw [← settle_congr hsame]
        obtain ⟨hset, hend⟩ := Descends.settle hbooks hl' ho' env reason
        exact ⟨hbooks.settle hl' ho' hnokids env reason, (hdown.mono (le_succ id)).trans hset, hend⟩
      · rw [if_pos ho, if_pos (hnw lease hl)]
        refine ⟨h, Descends.refl _ _, fun l' hl' => ?_⟩
        obtain rfl : lease = l' := some.inj (hl.symm.trans hl')
        have hw := hnw lease hl
        cases hst : lease.status with
        | waiting => exact absurd hst hw
        | released => rfl
        | held | orphaned => rw [hst] at ho; exact absurd rfl ho

end Loregarden.Capacity

