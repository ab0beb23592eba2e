import Loregarden.CapacityCallProofs

/-! # What whole calls do to the rows that are there

`Evolves` is what any call does that inserts nothing and measures nothing: every row keeps its
claim, no row comes to wait, and none is revived. The calls that insert or measure do so first, and
then evolve (`reapDockerLeases_cases`). -/

namespace Loregarden.Capacity

open Tables Runs

variable {settings : Settings}
variable {db : Database} {id : LeaseId}

/-- No row is inserted, no ceiling measured; no row comes to wait, and none is revived. -/
structure Evolves (db db' : Database) : Prop where
  length : db'.leases.length = db.leases.length
  ceiling : ∀ p, (db'.pool p).ceiling = (db.pool p).ceiling
  row : ∀ (j : LeaseId) (l' : DockerLease), db'.leases[j]? = some l' →
    ∃ l, db.leases[j]? = some l ∧ SameClaim l l' ∧ (l'.status = .waiting → l.status = .waiting) ∧
      (l.status = .released → l'.status = .released)

theorem Evolves.of_rows {db' : Database} (hl : db'.leases = db.leases)
    (hc : ∀ p, (db'.pool p).ceiling = (db.pool p).ceiling) : Evolves db db' :=
  ⟨congrArg _ hl, hc, fun _ l hj => ⟨l, hl ▸ hj, SameClaim.refl l, fun h => h, fun h => h⟩⟩

theorem Evolves.refl (db : Database) : Evolves db db := Evolves.of_rows rfl fun _ => rfl

theorem Evolves.trans {a b c : Database} (hab : Evolves a b) (hbc : Evolves b c) : Evolves a c where
  length := hbc.length.trans hab.length
  ceiling p := (hbc.ceiling p).trans (hab.ceiling p)
  row j l'' hj := by
    obtain ⟨l', hj', hs', hw', hr'⟩ := hbc.row j l'' hj
    obtain ⟨l, hj₀, hs, hw, hr⟩ := hab.row j l' hj'
    exact ⟨l, hj₀, hs.trans hs', fun h => hw (hw' h), fun h => hr' (hr h)⟩

theorem Evolves.update {f : DockerLease → DockerLease}
    (hf : ∀ l, db.leases[id]? = some l → SameClaim l (f l) ∧
      ((f l).status = .waiting → l.status = .waiting) ∧
      (l.status = .released → (f l).status = .released)) : Evolves db (db.update id f) where
  length := List.length_modify _ _ _
  ceiling p := by rw [Database.pool_update]
  row j l' hj := by
    obtain ⟨l, hl, hcase⟩ := exists_of_getElem?_modify hj
    rcases hcase with ⟨rfl, rfl⟩ | ⟨-, rfl⟩
    · exact ⟨l, hl, hf l hl⟩
    · exact ⟨l', hl, SameClaim.refl l', fun h => h, fun h => h⟩

theorem Evolves.bookCharged (db : Database) (claim : CapacityPool) (booking : Booking) :
    Evolves db (bookCharged db claim booking) := by
  refine Evolves.of_rows rfl fun p => ?_
  rw [pool_bookCharged]
  split <;> rfl

theorem Evolves.drainWaiters (env : Surroundings) (db : Database) :
    Evolves db (drainWaiters env db).1 := by
  refine drainLoop_induction (P := Evolves db) (fun db' lease id hdb hhead _ => ?_) _
    (Evolves.refl db)
  obtain ⟨hrow, hw, -⟩ := headWaiter_eq_some hhead
  refine (hdb.trans (Evolves.bookCharged db' _ _)).trans (Evolves.update fun l hl => ?_)
  obtain rfl : lease = l := Option.some.inj (hrow.symm.trans hl)
  refine ⟨⟨rfl, rfl, rfl, rfl, rfl, rfl, rfl, rfl⟩, fun _ => hw, fun hrel => ?_⟩
  rw [hw] at hrel
  cases hrel

theorem Evolves.of_descends {a b : Database} (h : Descends id a b) : Evolves a b where
  length := h.length
  ceiling := h.ceiling
  row j l' hj := by
    obtain ⟨l, hl, hs, -, hst⟩ := h.row_before hj
    refine ⟨l, hl, hs, ?_, fun hrel => h.released hl hrel hj⟩
    rcases hst with hsame | ⟨-, -, hrel⟩
    · exact fun hw => hsame.symm.trans hw
    · intro hw
      rw [hrel] at hw
      cases hw

theorem Evolves.releaseLease (h : Books db) (env : Surroundings)
    (id : LeaseId) (reason : DockerLeaseEndReason) (drain : Bool) :
    Evolves db (releaseLease env db id reason drain).1 := by
  have hquiet : Evolves db (Capacity.releaseLease env db id reason false).1 := by
    by_cases hw : ∃ l, db.leases[id]? = some l ∧ l.status = .waiting
    · obtain ⟨lease, hl, hw⟩ := hw
      rw [releaseLease_waiting hl hw]
      exact Evolves.update fun l _ =>
        ⟨SameClaim.withdrawn _ _ l, (fun hc => by cases hc), fun _ => rfl⟩
    · exact Evolves.of_descends
        (releaseLease_released h (fun l hl hl' => hw ⟨l, hl, hl'⟩) env reason).descends
  cases drain with
  | false => exact hquiet
  | true =>
    by_cases ho : ∃ l, db.leases[id]? = some l ∧ l.status.occupying = true
    · obtain ⟨lease, hl, ho⟩ := ho
      rw [releaseLease_drains hl ho]
      exact hquiet.trans (Evolves.drainWaiters env _)
    · rw [releaseLease_of_not_occupying]
      · exact hquiet
      · intro l hl
        exact Bool.eq_false_iff.mpr fun hl' => ho ⟨l, hl, hl'⟩

theorem Evolves.releaseAll (env : Surroundings) (reason : DockerLeaseEndReason)
    (ids : List LeaseId) (h : Books db) :
    Evolves db (releaseAll env reason ids db) := by
  induction ids generalizing db with
  | nil => exact Evolves.refl db
  | cons id rest ih =>
    exact (Evolves.releaseLease h env id reason false).trans
      (ih (h.releaseLease env id reason false))

theorem Evolves.noted (db : Database) (id : LeaseId) (reason : String) :
    Evolves db (db.update id (noted reason)) :=
  Evolves.update fun _ _ => ⟨⟨rfl, rfl, rfl, rfl, rfl, rfl, rfl, rfl⟩, fun h => h, fun h => h⟩

theorem Evolves.forceReleaseLease {db' : Database} {env : Surroundings}
    {reason : String} {ended : Bool} (h : Books db)
    (hf : forceReleaseLease env db id reason = some (db', ended)) : Evolves db db' := by
  unfold Capacity.forceReleaseLease at hf
  cases hl : db.leases[id]? with
  | none =>
    rw [hl] at hf
    cases hf
  | some lease =>
    rw [hl] at hf
    obtain rfl := congrArg Prod.fst (Option.some.inj hf)
    split
    · refine (Evolves.noted db id reason).trans (Evolves.releaseLease ?_ _ _ _ _)
      exact h.update_quiet fun l _ =>
        ⟨⟨rfl, rfl, rfl, rfl, rfl, rfl, rfl, rfl⟩, rfl, fun hw => hw, rfl⟩
    · exact Evolves.releaseLease h _ _ _ _

theorem Evolves.renewLease (env : Surroundings) (db : Database) (id : LeaseId)
    (ttlSeconds : Option Int) : Evolves db (renewLease settings env db id ttlSeconds).1 := by
  unfold Capacity.renewLease
  cases hl : db.leases[id]? with
  | none => exact Evolves.refl db
  | some lease =>
    dsimp only
    by_cases ho : lease.status.occupying = true
    · rw [if_neg (by simp [ho])]
      refine Evolves.update fun l hl' => ?_
      obtain rfl : lease = l := Option.some.inj (hl.symm.trans hl')
      have hocc := renewed_occupying settings env.now ttlSeconds lease ho
      refine ⟨⟨rfl, rfl, rfl, rfl, rfl, rfl, rfl, rfl⟩, fun hw => ?_, fun hrel => ?_⟩
      · rw [hw] at hocc
        cases hocc
      · rw [hrel] at ho
        cases ho
    · rw [if_pos ho]
      exact Evolves.refl db

theorem Evolves.repairPool (h : Books db) : Evolves db (repairPool db) := by
  rw [repairPool_eq h]
  exact Evolves.of_rows rfl fun p => by rw [Database.pool_mapPools]

theorem Evolves.sweepLease (h : Books db) (env : SweepSurroundings)
    (id : LeaseId) : Evolves db (sweepLease settings env db id) := by
  unfold Capacity.sweepLease
  cases hl : db.leases[id]? with
  | none => exact Evolves.refl db
  | some lease =>
    dsimp only
    by_cases ho : lease.status.occupying = true
    · rw [if_neg (by simp [ho])]
      have hbooks := h.judge settings env hl ho
      have hjudged : Evolves db (judge settings env db id lease).1 := by
        obtain ⟨f, heq, hf⟩ := judge_cases settings env db id lease
        rw [heq]
        refine Evolves.update fun l hl' => ?_
        obtain rfl : lease = l := Option.some.inj (hl.symm.trans hl')
        have hocc := (hf lease).occupying ho
        refine ⟨(hf lease).same, fun hw => ?_, fun hrel => ?_⟩
        · rw [hw] at hocc
          cases hocc
        · rw [hrel] at ho
          cases ho
      cases hj : judge settings env db id lease with
      | mk db₁ outcome =>
        rw [hj] at hbooks hjudged
        cases outcome with
        | none => exact hjudged
        | some reason =>
          exact hjudged.trans (Evolves.releaseLease hbooks env.toSurroundings id reason false)
    · rw [if_pos ho]
      exact Evolves.refl db

theorem Evolves.dropWaiter (h : Books db) (env : SweepSurroundings)
    (row : DockerLease × LeaseId) : Evolves db (dropWaiter settings env db row) := by
  unfold Capacity.dropWaiter
  split
  · exact Evolves.releaseLease h _ _ _ _
  · split
    · exact Evolves.releaseLease h _ _ _ _
    · exact Evolves.refl db

theorem reapDockerLeases_cases (h : Books db) (settings : Settings) (env : SweepSurroundings) :
    ∃ db₁, db₁.leases = db.leases ∧ (∀ p, (db₁.pool p).ceiling = (db.pool p).ceiling ∨
        (db₁.pool p).ceiling = env.measured p (db.pool p).ceiling) ∧
      Evolves db₁ (reapDockerLeases settings env db) := by
  have hstay : ∃ db₁ : Database, db₁.leases = db.leases ∧
      (∀ p, (db₁.pool p).ceiling = (db.pool p).ceiling ∨
        (db₁.pool p).ceiling = env.measured p (db.pool p).ceiling) ∧ Evolves db₁ db :=
    ⟨db, rfl, fun _ => .inl rfl, Evolves.refl db⟩
  unfold reapDockerLeases
  split
  · exact hstay
  · dsimp only
    split
    · exact hstay
    · generalize hdb₁ : (if hasDockerClaims (refreshCeiling env.toSurroundings db .host) then
        refreshCeiling env.toSurroundings (refreshCeiling env.toSurroundings db .host) .docker
        else refreshCeiling env.toSurroundings db .host) = db₁
      have hbooks : Books db₁ := by
        rw [← hdb₁]
        split
        · exact (h.refreshCeiling _ _).refreshCeiling _ _
        · exact h.refreshCeiling _ _
      refine ⟨db₁, ?_, fun p => ?_, ?_⟩
      · rw [← hdb₁]
        split <;> simp [refreshCeiling]
      · rw [← hdb₁]
        split
        · cases p with
          | docker | host => exact .inr rfl
        · cases p with
          | docker => exact .inl rfl
          | host => exact .inr rfl
      · -- from here on each turn keeps the books and evolves the rows
        generalize hdb₂ : ((db.select (fun l => l.status.occupying)).map Prod.snd).foldl
          (sweepLease settings env) db₁ = db₂
        have hsweep : Books db₂ ∧ Evolves db₁ db₂ := by
          rw [← hdb₂]
          exact foldl_keeps (P := fun db' => Books db' ∧ Evolves db₁ db')
            (fun db' id hdb => ⟨hdb.1.sweepLease env id,
              hdb.2.trans (Evolves.sweepLease hdb.1 env id)⟩) _ ⟨hbooks, Evolves.refl db₁⟩
        generalize hdb₃ : dropAbandonedWaiters settings env db₂ = db₃
        have hdrop : Books db₃ ∧ Evolves db₁ db₃ := by
          rw [← hdb₃]
          exact foldl_keeps (P := fun db' => Books db' ∧ Evolves db₁ db')
            (fun db' row hdb => ⟨hdb.1.dropWaiter env row,
              hdb.2.trans (Evolves.dropWaiter hdb.1 env row)⟩) _ hsweep
        exact (hdrop.2.trans (Evolves.repairPool hdrop.1)).trans (Evolves.drainWaiters _ _)

end Loregarden.Capacity
