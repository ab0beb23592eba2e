import Mathlib.Data.List.GetD
import Loregarden.CapacityFrameProofs
import Loregarden.WaitEstimateModel

/-! # The estimate agrees with the drain

    `Reference` is the queue as it would run: time goes from one predicted release to the next,
    each gives its booking back, and after each the line is drained head by head under the
    ledger's own test.  It goes on while every holder is predicted.  The walk of
    `estimate_waits`, which takes a release only when a waiter needs it, gives each waiter its
    start there, and no number to one that has none (`estimates_are_starts`). -/

namespace Loregarden.DockerWait

open Capacity List Walk
open Option hiding all_eq_true any_eq_false

variable {stats : HoldStats} {lease : DockerLease} {due : ℚ} {h : Holder}

theorem getD_mem {xs : List ℚ} {i : ℕ} (h : i < xs.length) : xs.getD i 0 ∈ xs := by
  rw [getD_eq_getElem xs 0 h]
  exact getElem_mem h

theorem lt_median {xs : List ℚ} {q : ℚ} (hne : xs ≠ []) (h : ∀ x ∈ xs, q < x) :
    q < median xs := by
  have hlength : 0 < (xs.insertionSort (· ≤ ·)).length := by
    rw [length_insertionSort]
    exact length_pos_of_ne_nil hne
  have hmem : ∀ i < (xs.insertionSort (· ≤ ·)).length,
      q < (xs.insertionSort (· ≤ ·)).getD i 0 := by
    intro i hi
    exact h _ ((mem_insertionSort _).mp (getD_mem hi))
  rw [median]
  split
  · exact hmem _ (by omega)
  · have hfirst := hmem ((xs.insertionSort (· ≤ ·)).length / 2 - 1) (by omega)
    have hsecond := hmem ((xs.insertionSort (· ≤ ·)).length / 2) (by omega)
    linarith

theorem predict_pos {pool : CapacityPool} {footprint : DockerFootprint}
    {heldFor seconds : ℚ} (h : stats.predict pool footprint heldFor = some seconds) :
    0 < seconds := by
  have hlonger : ∀ history : List ℚ, (if history.filter (heldFor < ·) = [] then none
      else some (median (history.filter (heldFor < ·)) - heldFor)) = some seconds →
        0 < seconds := by
    intro history hsome
    split at hsome
    · cases hsome
    · rename_i hne
      obtain rfl := some.inj hsome
      refine sub_pos.mpr (lt_median hne fun x hx => ?_)
      exact of_decide_eq_true (mem_filter.mp hx).2
  exact hlonger _ h

theorem holderOf_nonneg {now : Instant}
    (h : (holderOf stats now lease).releasesIn = some due) : 0 ≤ due := by
  rw [holderOf] at h
  split at h
  · rename_i seconds hremaining
    obtain rfl := some.inj h
    obtain ⟨granted, -, hpredict⟩ := bind_eq_some_iff.mp hremaining
    exact (predict_pos hpredict).le
  · split at h
    · obtain rfl := some.inj h
      exact le_max_left _ _
    · cases h

theorem holders_nonneg {db : Database} {now : Instant}
    (hmem : h ∈ holders db stats now) (hdue : h.releasesIn = some due) : 0 ≤ due := by
  obtain ⟨row, -, rfl⟩ := mem_map.mp hmem
  exact holderOf_nonneg hdue

/-! ## The reference simulation -/

/-- The queue at one moment: what each pool holds, who holds it, and who is waiting. -/
structure Moment where
  now : ℚ
  held : CapacityPool → Booking
  holders : List Holder
  line : List (DockerLease × LeaseId)

namespace Moment

variable (limit : CapacityPool → Booking) (stats : HoldStats) (m : Moment)

/-- The test of `claim_pool_capacity`, in every charged pool. -/
def Fits (lease : DockerLease) : Prop :=
  ∀ p ∈ chargedPools lease.pool, m.held p + claimOf lease ≤ limit p

def Stuck : Prop := ∀ lease id rest, m.line = (lease, id) :: rest → ¬ m.Fits limit lease

/-- The head starts, and holds its whole price until its own predicted release. -/
def start (lease : DockerLease) (rest : List (DockerLease × LeaseId)) : Moment where
  now := m.now
  held := fun p => if p ∈ chargedPools lease.pool then m.held p + claimOf lease else m.held p
  holders := m.holders ++
    [{ booking := claimOf lease
       pools := chargedPools lease.pool
       releasesIn := (stats.predict lease.pool lease.footprint 0).map (m.now + ·)
       basis := if (stats.predict lease.pool lease.footprint 0).isNone then .unknown
         else .history }]
  line := rest

/-- At its predicted time a holder gives its booking back. -/
def release (h : Holder) (due : ℚ) : Moment where
  now := due
  held := fun p => if p ∈ h.pools then m.held p - h.booking else m.held p
  holders := m.holders.erase h
  line := m.line

end Moment

/-- What starts from a moment on, and when: the line is drained first, and the next release
    comes while the holders are `known`. -/
inductive Reference (limit : CapacityPool → Booking) (stats : HoldStats)
    (known : List Holder → Prop) : Moment → List (LeaseId × ℚ) → Prop where
  | start {m : Moment} {lease : DockerLease} {id : LeaseId} {rest : List (DockerLease × LeaseId)}
      {starts : List (LeaseId × ℚ)} : m.line = (lease, id) :: rest → m.Fits limit lease →
      Reference limit stats known (m.start stats lease rest) starts →
      Reference limit stats known m ((id, m.now) :: starts)
  | release {m : Moment} {h : Holder} {due : ℚ} {starts : List (LeaseId × ℚ)} : m.Stuck limit →
      known m.holders → soonest m.holders = some h → h.releasesIn = some due →
      Reference limit stats known (m.release h due) starts → Reference limit stats known m starts
  | ends {m : Moment} : m.Stuck limit → (known m.holders → soonest m.holders = none) →
      Reference limit stats known m []

def AllPredicted (holders : List Holder) : Prop := ∀ h ∈ holders, h.releasesIn.isSome = true

instance (holders : List Holder) : Decidable (AllPredicted holders) :=
  inferInstanceAs (Decidable (∀ h ∈ holders, h.releasesIn.isSome = true))

variable {limit : CapacityPool → Booking} {stats : HoldStats} {known : List Holder → Prop}
  {m : Moment} {w : Walk} {starts : List (LeaseId × ℚ)}

theorem soonest_spec {holders : List Holder} (hsoonest : soonest holders = some h) :
    h ∈ holders ∧ ∃ due, h.releasesIn = some due ∧
      ∀ other ∈ holders, ∀ t, other.releasesIn = some t → due ≤ t := by
  obtain ⟨hmem, hsome⟩ := mem_filter.mp (argmin_mem hsoonest)
  obtain ⟨due, hdue⟩ := isSome_iff_exists.mp hsome
  refine ⟨hmem, due, hdue, fun other hother t ht => ?_⟩
  have hle := le_of_mem_argmin (f := fun h : Holder => h.releasesIn.getD 0)
    (mem_filter.mpr ⟨hother, isSome_iff_exists.mpr ⟨t, ht⟩⟩) hsoonest
  rwa [hdue, ht] at hle

theorem Reference.unique {starts' : List (LeaseId × ℚ)} (h : Reference limit stats known m starts)
    (h' : Reference limit stats known m starts') : starts = starts' := by
  induction h generalizing starts' with
  | start hline hfits _ ih =>
    cases h' with
    | start hline' _ hrest =>
      obtain ⟨hrow, rfl⟩ := List.cons.inj (hline.symm.trans hline')
      obtain ⟨rfl, rfl⟩ := Prod.mk.inj hrow
      rw [ih hrest]
    | release hstuck | ends hstuck => exact absurd hfits (hstuck _ _ _ hline)
  | release hstuck hknown hsoonest hdue _ ih =>
    cases h' with
    | start hline hfits => exact absurd hfits (hstuck _ _ _ hline)
    | release _ _ hsoonest' hdue' hrest =>
      obtain rfl := some.inj (hsoonest.symm.trans hsoonest')
      obtain rfl := some.inj (hdue.symm.trans hdue')
      exact ih hrest
    | ends _ hnone => exact nomatch hsoonest.symm.trans (hnone hknown)
  | ends hstuck hnone =>
    cases h' with
    | start hline hfits => exact absurd hfits (hstuck _ _ _ hline)
    | release _ hknown hsoonest => exact nomatch hsoonest.symm.trans (hnone hknown)
    | ends => rfl

theorem exists_reference (limit : CapacityPool → Booking) (stats : HoldStats)
    (known : List Holder → Prop) (m : Moment) : ∃ starts, Reference limit stats known m starts := by
  induction hn : m.holders.length + 2 * m.line.length using Nat.strong_induction_on
      generalizing m with
  | _ n ih =>
    by_cases hhead : ∃ lease id rest, m.line = (lease, id) :: rest ∧ m.Fits limit lease
    · obtain ⟨lease, id, rest, hline, hfits⟩ := hhead
      have hless : (m.start stats lease rest).holders.length
          + 2 * (m.start stats lease rest).line.length < n := by
        rw [← hn, hline]
        show (m.holders ++ [_]).length + 2 * rest.length < _
        rw [length_append, length_singleton, length_cons]
        omega
      obtain ⟨starts, hstarts⟩ := ih _ hless (m.start stats lease rest) rfl
      exact ⟨_, .start hline hfits hstarts⟩
    · have hstuck : m.Stuck limit :=
        fun lease id rest hline hfits => hhead ⟨lease, id, rest, hline, hfits⟩
      by_cases hover : known m.holders → soonest m.holders = none
      · exact ⟨[], .ends hstuck hover⟩
      · push Not at hover
        obtain ⟨hknown, hsome⟩ := hover
        obtain ⟨h, hsoonest⟩ := ne_none_iff_exists'.mp hsome
        obtain ⟨hmem, due, hdue, -⟩ := soonest_spec hsoonest
        have hless : (m.release h due).holders.length
            + 2 * (m.release h due).line.length < n := by
          show (m.holders.erase h).length + 2 * m.line.length < _
          rw [length_erase_of_mem hmem]
          have hpos := length_pos_of_mem hmem
          omega
        obtain ⟨starts, hstarts⟩ := ih _ hless (m.release h due) rfl
        exact ⟨starts, .release hstuck hknown hsoonest hdue hstarts⟩

/-- A moment from which no predicted release lies back. -/
def Ahead (m : Moment) : Prop := ∀ h ∈ m.holders, ∀ due, h.releasesIn = some due → m.now ≤ due

theorem Ahead.start (h : Ahead m) (lease : DockerLease) (rest : List (DockerLease × LeaseId)) :
    Ahead (m.start stats lease rest) := by
  intro holder hmem due hdue
  rcases mem_append.mp hmem with hmem | hmem
  · exact h holder hmem due hdue
  · obtain rfl := mem_singleton.mp hmem
    obtain ⟨seconds, hpredict, rfl⟩ := map_eq_some_iff.mp hdue
    exact le_add_of_nonneg_right (predict_pos hpredict).le

theorem Ahead.release (hsoonest : soonest m.holders = some h)
    (hdue : h.releasesIn = some due) : Ahead (m.release h due) := by
  intro other hmem t ht
  obtain ⟨-, due', hdue', hleast⟩ := soonest_spec hsoonest
  obtain rfl : due = due' := some.inj (hdue.symm.trans hdue')
  exact hleast other (mem_of_mem_erase hmem) t ht

theorem Reference.sorted (h : Reference limit stats known m starts) (hahead : Ahead m) :
    (∀ s ∈ starts, m.now ≤ s.2) ∧ starts.Pairwise fun s t => s.2 ≤ t.2 := by
  induction h with
  | start hline hfits hrest ih =>
    obtain ⟨hlater, hsorted⟩ := ih (hahead.start _ _)
    refine ⟨fun s hs => ?_, pairwise_cons.mpr ⟨hlater, hsorted⟩⟩
    rcases mem_cons.mp hs with rfl | hs
    · exact le_refl _
    · exact hlater s hs
  | release hstuck hknown hsoonest hdue hrest ih =>
    obtain ⟨hlater, hsorted⟩ := ih (Ahead.release hsoonest hdue)
    obtain ⟨hmem, -⟩ := soonest_spec hsoonest
    exact ⟨fun s hs => (hahead _ hmem _ hdue).trans (hlater s hs), hsorted⟩
  | ends => exact ⟨nofun, .nil⟩

theorem Reference.at_once (h : Reference limit stats AllPredicted m starts)
    (hblind : ∃ holder ∈ m.holders, holder.releasesIn = none) : ∀ s ∈ starts, s.2 = m.now := by
  induction h with
  | start hline hfits hrest ih =>
    obtain ⟨holder, hmem, hnone⟩ := hblind
    intro s hs
    rcases mem_cons.mp hs with rfl | hs
    · rfl
    · exact ih ⟨holder, mem_append_left _ hmem, hnone⟩ s hs
  | release hstuck hknown hsoonest hdue hrest ih =>
    obtain ⟨holder, hmem, hnone⟩ := hblind
    have hsome := hknown holder hmem
    rw [hnone] at hsome
    cases hsome
  | ends => exact nofun

/-! ## The walk takes the same steps -/

def report (line : List (DockerLease × LeaseId)) (starts : List (LeaseId × ℚ)) :
    List (LeaseId × Option ℤ) :=
  starts.map (fun s => (s.1, some (pyRound s.2))) ++
    (line.drop starts.length).map fun row => (row.2, none)

def told (estimates : List (LeaseId × WaitEstimate)) : List (LeaseId × Option ℤ) :=
  estimates.map fun e => (e.1, e.2.seconds)

structure Walk.At (limit : CapacityPool → Booking) (w : Walk) (m : Moment) : Prop where
  sees : w.blind = false
  clock : w.clock = m.now
  holders : w.holders = m.holders
  free : ∀ p, w.free p = limit p - m.held p

theorem Walk.At.fits_iff (h : w.At limit m) (lease : DockerLease) :
    w.fits lease = true ↔ m.Fits limit lease := by
  rw [fits, all_eq_true]
  refine forall_congr' fun p => imp_congr_right fun _ => ?_
  rw [decide_eq_true_iff, h.free, le_sub_iff_add_le, add_comm]

theorem Walk.At.start (h : w.At limit m) (lease : DockerLease)
    (rest : List (DockerLease × LeaseId)) :
    (w.start stats lease).At limit (m.start stats lease rest) where
  sees := h.sees
  clock := h.clock
  holders := by
    rw [Walk.start, Moment.start, h.holders, h.clock]
  free p := by
    show (if p ∈ chargedPools lease.pool then w.free p + -claimOf lease else w.free p)
      = limit p - if p ∈ chargedPools lease.pool then m.held p + claimOf lease else m.held p
    rw [h.free]
    split
    · abel
    · rfl

theorem Walk.At.turn (h : w.At limit m) (hahead : Ahead m) {holder : Holder}
    (hknown : AllPredicted m.holders) (hsoonest : soonest m.holders = some holder)
    (hdue : holder.releasesIn = some due) : w.turn.At limit (m.release holder due) := by
  obtain ⟨hmem, -⟩ := soonest_spec hsoonest
  have hall : w.holders.any (fun other => other.releasesIn.isNone) = false := by
    rw [h.holders, any_eq_false]
    intro other hother hno
    have hsome := hknown other hother
    rw [isNone_iff_eq_none.mp hno] at hsome
    cases hsome
  have hnow : max w.clock (holder.releasesIn.getD 0) = due := by
    rw [hdue, h.clock]
    exact max_eq_right (hahead holder hmem due hdue)
  have hturn : w.turn = { w with
      clock := max w.clock (holder.releasesIn.getD 0)
      basis := if holder.basis = .ttlBound then .ttlBound else w.basis
      free := addIn w.free holder.pools holder.booking
      holders := w.holders.erase holder } := by
    rw [Walk.turn, h.holders, hsoonest]
    rw [← h.holders, hall]
    rfl
  rw [hturn]
  refine ⟨h.sees, hnow, ?_, fun p => ?_⟩
  · rw [h.holders]
    rfl
  · show (if p ∈ holder.pools then w.free p + holder.booking else w.free p)
      = limit p - if p ∈ holder.pools then m.held p - holder.booking else m.held p
    rw [h.free]
    split
    · abel
    · rfl

theorem Walk.At.turn_blind (h : w.At limit m)
    (hover : AllPredicted m.holders → soonest m.holders = none) : w.turn.blind = true := by
  rw [Walk.turn, h.holders]
  cases hsoonest : soonest m.holders with
  | none => rfl
  | some holder =>
    have hany : m.holders.any (fun other => other.releasesIn.isNone) = true := by
      by_contra hno
      rw [Bool.not_eq_true, any_eq_false] at hno
      have hknown : AllPredicted m.holders := by
        intro other hother
        rw [← not_isNone, Bool.not_eq_true']
        exact Bool.eq_false_iff.mpr (hno other hother)
      exact nomatch hsoonest.symm.trans (hover hknown)
    dsimp only
    rw [if_pos hany]

theorem Walk.await_blind {turns : ℕ} (h : w.blind = true) :
    w.await lease turns = w := by
  cases turns with
  | zero => rfl
  | succ turns =>
    rw [await, h]
    rfl

theorem told_blind (line : List (DockerLease × LeaseId)) (h : w.blind = true) :
    told (estimates stats line w) = line.map fun row => (row.2, none) := by
  induction line with
  | nil => rfl
  | cons row line ih =>
    rw [estimates, await_blind h]
    rw [if_pos h, told, map_cons, map_cons]
    exact congrArg _ ih

/-- **The walk tells each waiter its start in the simulation, and the others nothing.** -/
theorem told_of_reference (h : Reference limit stats AllPredicted m starts) (hahead : Ahead m)
    (hat : w.At limit m) : told (estimates stats m.line w) = report m.line starts := by
  induction h generalizing w with
  | @start m lease id rest starts hline hfits hrest ih =>
    have hawait : w.await lease (w.holders.length + 1) = w := by
      rw [await, (hat.fits_iff lease).mpr hfits, Bool.or_true]
      rfl
    rw [hline, estimates, hawait]
    rw [if_neg (by rw [hat.sees]; exact Bool.false_ne_true), hat.clock]
    exact congrArg _ (ih (hahead.start lease rest) (hat.start lease rest))
  | @release m holder due starts hstuck hknown hsoonest hdue hrest ih =>
    have hnext := ih (Ahead.release hsoonest hdue) (hat.turn hahead hknown hsoonest hdue)
    rw [← show report m.line starts = report (m.release holder due).line starts from rfl,
      ← show m.line = (m.release holder due).line from rfl] at hnext
    rw [← hnext]
    cases hline : m.line with
    | nil => rfl
    | cons row rest =>
      obtain ⟨lease, id⟩ := row
      -- the inner loop takes this one turn and goes on
      have hawait : w.await lease (w.holders.length + 1)
          = w.turn.await lease (w.turn.holders.length + 1) := by
        obtain ⟨hmem, -⟩ := soonest_spec hsoonest
        have hno : w.fits lease = false := by
          rw [← Bool.not_eq_true, hat.fits_iff]
          exact hstuck lease id rest hline
        rw [await, hat.sees, hno,
          (hat.turn hahead hknown hsoonest hdue).holders]
        show w.turn.await lease w.holders.length
          = w.turn.await lease ((m.holders.erase holder).length + 1)
        rw [hat.holders, length_erase_of_mem hmem,
          Nat.sub_add_cancel (length_pos_of_mem hmem)]
      rw [estimates, estimates, hawait]
  | @ends m hstuck hover =>
    rw [show report m.line [] = m.line.map fun row => (row.2, none) from rfl]
    cases hline : m.line with
    | nil => rfl
    | cons row rest =>
      obtain ⟨lease, id⟩ := row
      have hno : w.fits lease = false := by
        rw [← Bool.not_eq_true, hat.fits_iff]
        exact hstuck lease id rest hline
      have hblind := hat.turn_blind hover
      have hawait : w.await lease (w.holders.length + 1) = w.turn := by
        rw [await, hat.sees, hno]
        exact await_blind hblind
      rw [estimates, hawait]
      rw [if_pos hblind, told, map_cons, map_cons]
      exact congrArg _ (told_blind rest hblind)

theorem floor_le_pyRound (q : ℚ) : ⌊q⌋ ≤ pyRound q ∧ pyRound q ≤ ⌊q⌋ + 1 := by
  rw [pyRound]
  split
  · omega
  · split
    · omega
    · split
      · omega
      · omega

theorem pyRound_mono {a b : ℚ} (h : a ≤ b) : pyRound a ≤ pyRound b := by
  rcases (Int.floor_le_floor h).lt_or_eq with hlt | heq
  · have ha := (floor_le_pyRound a).2
    have hb := (floor_le_pyRound b).1
    omega
  · -- between the same two whole numbers
    have hpart : a - ⌊a⌋ ≤ b - ⌊b⌋ := by
      rw [heq]
      linarith
    rw [pyRound, pyRound, heq]
    rw [heq] at hpart
    by_cases hb : b - ⌊b⌋ < 1 / 2
    · rw [if_pos hb, if_pos (lt_of_le_of_lt hpart hb)]
    · rw [if_neg hb]
      by_cases ha : a - ⌊b⌋ < 1 / 2
      · split
        · omega
        · split
          · omega
          · omega
      · rw [if_neg ha]
        by_cases hup : 1 / 2 < b - ⌊b⌋
        · split
          · omega
          · split
            · omega
            · omega
        · rw [if_neg hup, if_neg (fun hua => hup (lt_of_lt_of_le hua hpart))]

/-- The ledger at the start: what its pools hold, its holders and its line. -/
def Moment.of (db : Database) (stats : HoldStats) (now : Instant) : Moment where
  now := 0
  held := fun p => (db.pool p).held
  holders := DockerWait.holders db stats now
  line := DockerWait.line db

def limits (db : Database) (p : CapacityPool) : Booking := (db.pool p).ceiling.limit

/-- **Each waiter is told its start in the reference simulation, in whole seconds, and those
    without one nothing; what is told never decreases along the line; and while some occupying
    lease is unpredicted only those are told anything that fit without a release.** -/
theorem estimates_are_starts (db : Database) (stats : HoldStats) (now : Instant) :
    ∃ starts, (∀ starts', Reference (limits db) stats AllPredicted (Moment.of db stats now)
        starts' ↔ starts' = starts) ∧
      told (estimateWaits db stats now) = report (line db) starts ∧
      ((estimateWaits db stats now).filterMap (·.2.seconds)).Pairwise (· ≤ ·) ∧
      ((∃ h ∈ holders db stats now, h.releasesIn = none) → ∀ s ∈ starts, s.2 = 0) := by
  obtain ⟨starts, hstarts⟩ :=
    exists_reference (limits db) stats AllPredicted (Moment.of db stats now)
  have hahead : Ahead (Moment.of db stats now) := by
    intro h hmem due hdue
    have hmem' : h ∈ holders db stats now := hmem
    exact holders_nonneg hmem' hdue
  have htold : told (estimateWaits db stats now) = report (line db) starts :=
    told_of_reference hstarts hahead ⟨rfl, rfl, rfl, fun _ => rfl⟩
  refine ⟨starts, fun starts' => ?_, htold, ?_, fun hblind => hstarts.at_once hblind⟩
  · constructor
    · intro h
      exact h.unique hstarts
    · rintro rfl
      exact hstarts
  · have hseconds : (estimateWaits db stats now).filterMap (·.2.seconds)
        = starts.map fun s => pyRound s.2 := by
      have hfirst : (estimateWaits db stats now).filterMap (·.2.seconds)
          = (told (estimateWaits db stats now)).filterMap Prod.snd := by
        rw [told, filterMap_map]
        rfl
      have hrest : ((line db).drop starts.length).filterMap
          (Prod.snd ∘ fun row => (row.2, (none : Option ℤ))) = [] :=
        filterMap_eq_nil_iff.mpr fun _ _ => rfl
      rw [hfirst, htold, report, filterMap_append, filterMap_map, filterMap_map,
        hrest, append_nil]
      exact congrFun filterMap_eq_map starts
    rw [hseconds, pairwise_map]
    exact (hstarts.sorted hahead).2.imp pyRound_mono

/-- A host pool of so many slots, all of them held until the given times, and a line of two
    claims of a slot. -/
def slots (ends : List Instant) : Database where
  hostPool :=
    { held := ⟨0, 0, ends.length⟩, ceiling := { leases := ends.length, source := .probe } }
  leases := ends.map (fun t =>
      { status := .held, pool := .host, grantedAt := some 0, expiresAt := some t }) ++
    [{ status := .waiting, pool := .host, position := 1 },
      { status := .waiting, pool := .host, position := 2 }]

instance (limit : CapacityPool → Booking) (m : Moment) (lease : DockerLease) :
    Decidable (m.Fits limit lease) :=
  inferInstanceAs (Decidable (∀ p ∈ chargedPools lease.pool, _))

theorem stuck_of_head {id : LeaseId} {rest : List (DockerLease × LeaseId)}
    (hline : m.line = (lease, id) :: rest) (hno : ¬ m.Fits limit lease) : m.Stuck limit := by
  intro lease' id' rest' hline'
  obtain ⟨hrow, -⟩ := List.cons.inj (hline.symm.trans hline')
  obtain ⟨rfl, -⟩ := Prod.mk.inj hrow
  exact hno

theorem stuck_of_nil (hline : m.line = []) : m.Stuck limit := by
  intro lease id rest hline'
  rw [hline] at hline'
  cases hline'

/-- Without a history a waiter that has started is unpredicted, so the next one is told nothing
    although every occupying lease is predicted and the second release frees its slot; and a
    start between two seconds is told as a whole one. -/
theorem second_waiter_untold :
    ((∀ h ∈ holders (slots [10, 20]) ⟨fun _ _ => [], []⟩ 0, h.releasesIn.isSome = true) ∧
      Reference (limits (slots [10, 20])) ⟨fun _ _ => [], []⟩ (fun _ => True)
        (Moment.of (slots [10, 20]) ⟨fun _ _ => [], []⟩ 0) [(2, 10), (3, 20)] ∧
      told (estimateWaits (slots [10, 20]) ⟨fun _ _ => [], []⟩ 0)
        = [(2, some 10), (3, none)]) ∧
    Reference (limits (slots [10])) ⟨fun _ _ => [], [1 / 2]⟩ AllPredicted
        (Moment.of (slots [10]) ⟨fun _ _ => [], [1 / 2]⟩ 0) [(1, 1 / 2), (2, 1)] ∧
      told (estimateWaits (slots [10]) ⟨fun _ _ => [], [1 / 2]⟩ 0)
        = [(1, some 0), (2, some 1)] := by
  refine ⟨⟨by decide +kernel, ?_, by decide +kernel⟩, ?_, by decide +kernel⟩
  · refine .release (h := ⟨⟨0, 0, 1⟩, [.host], some 10, .ttlBound⟩)
      (stuck_of_head rfl (by decide +kernel)) trivial (by decide +kernel) rfl ?_
    refine .start rfl (by decide +kernel) ?_
    refine .release (h := ⟨⟨0, 0, 1⟩, [.host], some 20, .ttlBound⟩)
      (stuck_of_head rfl (by decide +kernel)) trivial (by decide +kernel) rfl ?_
    refine .start rfl (by decide +kernel) ?_
    exact .ends (stuck_of_nil rfl) fun _ => by decide +kernel
  · refine .release (h := ⟨⟨0, 0, 1⟩, [.host], some (1 / 2), .history⟩)
      (stuck_of_head rfl (by decide +kernel)) (by decide +kernel) (by decide +kernel) rfl ?_
    refine .start rfl (by decide +kernel) ?_
    refine .release (h := ⟨⟨0, 0, 1⟩, [.host], some 1, .history⟩)
      (stuck_of_head rfl (by decide +kernel)) (by decide +kernel) (by decide +kernel) rfl ?_
    refine .start rfl (by decide +kernel) ?_
    refine .release (h := ⟨⟨0, 0, 1⟩, [.host], some (3 / 2), .history⟩)
      (stuck_of_nil rfl) (by decide +kernel) (by decide +kernel) rfl ?_
    exact .ends (stuck_of_nil rfl) fun _ => by decide +kernel

end Loregarden.DockerWait

