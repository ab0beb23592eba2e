import Loregarden.GraphSearchProofs
import Loregarden.SlotProofs

/-! # What the two healing passes leave

`release_nested_slot_claims` gives back the slot of an orchestration that already runs under an
ancestor's, `claim_orphaned_orchestrations` gives the free slots to live orchestrations that have
none. Every slot the first pass frees is covered by one that keeps its claim: of the ancestors that
hold a slot the topmost is under none (`freed_covered`). The second pass reads its holders once and
adopts all its orphans against them, so what it leaves is settled exactly when none of the adopted
lies above another, or above a holder (`healing_settles_iff`). -/

namespace Loregarden.Lanes

open GraphSearch Ranked Relation List Option

variable {L : LaneService} {b : Board} {o : Outside} {s : AgentSlot} {held : List Nat}

def parentTicket (o : Outside) (ticketId : TicketId) : Option TicketId :=
  (o.ticket ticketId).bind (·.parentTicketId)

/-- Ticket `p` is above ticket `t`. -/
def AboveTicket (o : Outside) (p t : TicketId) : Prop := TransGen (Up (parentTicket o)) t p

def holdsSlot (o : Outside) (held : List Nat) (ticketId : TicketId) : Bool :=
  o.orchestrations.any fun run => run.ticketId = ticketId ∧ run.status.live ∧ run.id ∈ held

theorem coveredFrom_iff {rounds : Nat} {seen found : List TicketId} {t : TicketId}
    (hseen : ∀ p, p ∈ found ↔ p ∈ seen) :
    coveredFrom o held rounds seen t = true ↔
      ∃ p ∈ climb (parentTicket o) rounds t found, p ∉ found ∧ holdsSlot o held p = true := by
  induction rounds generalizing seen found t with
  | zero =>
    constructor
    · intro h
      cases h
    · rintro ⟨p, hp, hnew, -⟩
      exact absurd hp hnew
  | succ rounds ih =>
    rw [coveredFrom, climb]
    cases hparent : (o.ticket t).bind (·.parentTicketId) with
    | none =>
      rw [show parentTicket o t = none from hparent]
      constructor
      · intro h
        cases h
      · rintro ⟨p, hp, hnew, -⟩
        exact absurd hp hnew
    | some p =>
      rw [show parentTicket o t = some p from hparent]
      dsimp only
      by_cases hp : p ∈ found
      · rw [if_pos ((hseen p).mp hp), if_pos hp]
        constructor
        · intro h
          cases h
        · rintro ⟨q, hq, hnew, -⟩
          exact absurd hq hnew
      · rw [if_neg fun h => hp ((hseen p).mpr h), if_neg hp]
        show (if holdsSlot o held p = true then true else _) = true ↔ _
        by_cases hholds : holdsSlot o held p = true
        · rw [if_pos hholds]
          refine iff_of_true rfl ⟨p, ?_, hp, hholds⟩
          exact subset_climb _ rounds p _ (mem_append_right _ (mem_singleton_self p))
        · have hseen' : ∀ q, q ∈ found ++ [p] ↔ q ∈ p :: seen := by
            intro q
            rw [mem_append, mem_singleton, mem_cons, hseen, or_comm]
          rw [if_neg hholds, ih hseen']
          constructor
          · rintro ⟨q, hq, hnew, hask⟩
            exact ⟨q, hq, fun h => hnew (mem_append_left _ h), hask⟩
          · rintro ⟨q, hq, hnew, hask⟩
            refine ⟨q, hq, fun h => ?_, hask⟩
            rcases mem_append.mp h with h | h
            · exact hnew h
            · exact hholds (mem_singleton.mp h ▸ hask)

/-- **A ticket is covered when a live orchestration above it holds a slot.** -/
theorem coveredByAncestor_iff {t : TicketId} :
    coveredByAncestor o held t = true ↔ ∃ run ∈ o.orchestrations,
      AboveTicket o run.ticketId t ∧ run.status.live = true ∧ run.id ∈ held := by
  have hclimb : ∀ x, x ∈ climb (parentTicket o) (o.tickets.length + 1) t [] ↔
      TransGen (Up (parentTicket o)) t x := by
    refine mem_climb (parentTicket o) (o.tickets.map Ticket.id) ?_ (by simp) t
    intro x y hxy
    obtain ⟨ticket, hticket, -⟩ := bind_eq_some_iff.mp hxy
    have hid : ticket.id = x := by simpa using List.find?_some hticket
    exact hid ▸ mem_map_of_mem (mem_of_find?_eq_some hticket)
  rw [coveredByAncestor, @coveredFrom_iff o held _ [] [] t fun p => Iff.rfl]
  constructor
  · rintro ⟨p, hp, -, hholds⟩
    obtain ⟨run, hrun, hcond⟩ := any_eq_true.mp hholds
    obtain ⟨rfl, hlive, hheld⟩ := of_decide_eq_true hcond
    exact ⟨run, hrun, (hclimb _).mp hp, hlive, hheld⟩
  · rintro ⟨run, hrun, habove, hlive, hheld⟩
    refine ⟨run.ticketId, (hclimb _).mpr habove, not_mem_nil, ?_⟩
    exact any_eq_true.mpr ⟨run, hrun, decide_eq_true ⟨rfl, hlive, hheld⟩⟩

theorem mem_held {id : Nat} :
    id ∈ heldOrchestrations b ↔ ∃ s ∈ b.slots, s.currentOrchestrationRunId = some id :=
  mem_filterMap

theorem orchestration_spec {id : Nat} {run : OrchestrationRun} (h : o.orchestration id = some run) :
    run ∈ o.orchestrations ∧ run.id = id :=
  ⟨mem_of_find?_eq_some h, by simpa using List.find?_some h⟩

/-! ## The first pass -/

def nestedClaim (b : Board) (s : AgentSlot) : Bool :=
  (s.currentOrchestrationRunId.bind b.outside.orchestration).any fun orch =>
    coveredByAncestor b.outside ((heldOrchestrations b).filter (· ≠ orch.id)) orch.ticketId

theorem nestedClaim_iff :
    nestedClaim b s = true ↔ ∃ run, s.currentOrchestrationRunId = some run.id ∧
      b.outside.orchestration run.id = some run ∧ ∃ holder ∈ b.outside.orchestrations,
        AboveTicket b.outside holder.ticketId run.ticketId ∧ holder.status.live = true ∧
        holder.id ∈ heldOrchestrations b ∧ holder.id ≠ run.id := by
  rw [nestedClaim, Option.any_eq_true]
  constructor
  · rintro ⟨run, hbind, hcovered⟩
    obtain ⟨id, hid, hrun⟩ := bind_eq_some_iff.mp hbind
    obtain ⟨-, rfl⟩ := orchestration_spec hrun
    obtain ⟨holder, hmem, habove, hlive, hheld⟩ := coveredByAncestor_iff.mp hcovered
    obtain ⟨hin, hne⟩ := mem_filter.mp hheld
    exact ⟨run, hid, hrun, holder, hmem, habove, hlive, hin, of_decide_eq_true hne⟩
  · rintro ⟨run, hid, hrun, holder, hmem, habove, hlive, hin, hne⟩
    refine ⟨run, by rw [hid]; exact hrun,
      coveredByAncestor_iff.mpr ⟨holder, hmem, habove, hlive, ?_⟩⟩
    exact mem_filter.mpr ⟨hin, decide_eq_true hne⟩

def AgentSlot.unclaimed (s : AgentSlot) : AgentSlot := { s.released with assignedAt := none }

theorem foldl_unclaim_slots (numbers : List Nat) (b : Board) :
    (numbers.foldl (fun b n => (releaseSlot b n).updateSlot n fun s =>
        { s with assignedAt := none }) b).slots
      = b.slots.map fun s => if s.slotNumber ∈ numbers then s.unclaimed else s := by
  induction numbers generalizing b with
  | nil => simp
  | cons n numbers ih =>
    rw [foldl_cons, ih]
    show ((b.slots.map _).map _).map _ = _
    rw [List.map_map, List.map_map]
    refine map_congr_left fun s _ => ?_
    by_cases hn : s.slotNumber = n
    · by_cases hrest : n ∈ numbers <;> simp [hn, hrest, AgentSlot.unclaimed, AgentSlot.released]
    · by_cases hrest : s.slotNumber ∈ numbers <;> simp [hn, hrest]

theorem foldl_unclaim_outside (numbers : List Nat) (b : Board) :
    (numbers.foldl (fun b n => (releaseSlot b n).updateSlot n fun s =>
        { s with assignedAt := none }) b).outside = b.outside := by
  induction numbers generalizing b with
  | nil => rfl
  | cons n numbers ih => exact ih _

theorem released_slots (hpool : b.Pool) :
    (releaseNestedSlotClaims L b).1.slots = (initializeSlots L b).slots.map fun s =>
      if nestedClaim (initializeSlots L b) s = true then s.unclaimed else s := by
  refine (foldl_unclaim_slots _ _).trans (map_congr_left fun s hs => ?_)
  have hiff : s.slotNumber ∈ (releaseNestedSlotClaims L b).2 ↔
      nestedClaim (initializeSlots L b) s = true := by
    constructor
    · intro h
      obtain ⟨t, ht, hnum⟩ := mem_map.mp h
      obtain ⟨hmem, hnested⟩ := mem_filter.mp ht
      rw [← inj_on_of_nodup_map (initializeSlots_pool hpool) hmem hs hnum]
      exact hnested
    · intro h
      exact mem_map.mpr ⟨s, mem_filter.mpr ⟨hs, h⟩, rfl⟩
  by_cases hnested : nestedClaim (initializeSlots L b) s = true
  · rw [if_pos hnested]
    exact if_pos (hiff.mpr hnested)
  · rw [if_neg hnested]
    exact if_neg fun h => hnested (hiff.mp h)

theorem released_outside : (releaseNestedSlotClaims L b).1.outside = b.outside :=
  foldl_unclaim_outside _ _

theorem mem_held_released (hpool : b.Pool) {id : Nat} :
    id ∈ heldOrchestrations (releaseNestedSlotClaims L b).1 ↔
      ∃ s ∈ (initializeSlots L b).slots, s.currentOrchestrationRunId = some id ∧
        nestedClaim (initializeSlots L b) s = false := by
  rw [mem_held, released_slots hpool]
  constructor
  · rintro ⟨s', hs', hid⟩
    obtain ⟨s, hs, rfl⟩ := mem_map.mp hs'
    by_cases hnested : nestedClaim (initializeSlots L b) s = true
    · rw [if_pos hnested] at hid
      cases hid
    · rw [if_neg hnested] at hid
      exact ⟨s, hs, hid, by simpa using hnested⟩
  · rintro ⟨s, hs, hid, hnested⟩
    refine ⟨s, mem_map.mpr ⟨s, hs, ?_⟩, hid⟩
    rw [hnested]
    exact if_neg Bool.false_ne_true

/-- **Whatever the first pass frees is covered**: above it a live orchestration still holds a
    slot. -/
theorem freed_covered (hpool : b.Pool)
    (hkeys : (b.outside.orchestrations.map OrchestrationRun.id).Nodup)
    (hacyclic : ∀ t, ¬AboveTicket b.outside t t)
    {run : OrchestrationRun} (hid : s.currentOrchestrationRunId = some run.id)
    (hrun : b.outside.orchestration run.id = some run)
    (hnested : nestedClaim (initializeSlots L b) s = true) :
    ∃ holder ∈ b.outside.orchestrations, AboveTicket b.outside holder.ticketId run.ticketId ∧
      holder.status.live = true ∧
      holder.id ∈ heldOrchestrations (releaseNestedSlotClaims L b).1 := by
  classical
  -- up the ancestors: fewer orchestrations lie above a holder than above what it covers
  generalize hn : (b.outside.orchestrations.filter fun r =>
    decide (AboveTicket b.outside r.ticketId run.ticketId)).length = n
  induction n using Nat.strong_induction_on generalizing s run with
  | _ n ih =>
    obtain ⟨run', hid', hrun', holder, hmem, habove, hlive, hheld, -⟩ := nestedClaim_iff.mp hnested
    have hsame : run'.id = run.id := some.inj (hid'.symm.trans hid)
    obtain rfl : run = run' := some.inj (hrun.symm.trans (hsame ▸ hrun'))
    obtain ⟨t, ht, htid⟩ := mem_held.mp hheld
    by_cases htop : nestedClaim (initializeSlots L b) t = true
    · have hholder : b.outside.orchestration holder.id = some holder := find?_of_nodup hkeys hmem
      have hfewer : (b.outside.orchestrations.filter fun r =>
          decide (AboveTicket b.outside r.ticketId holder.ticketId)).length < n := by
        rw [← hn]
        refine length_filter_lt (x := holder) ?_ hmem (decide_eq_true habove)
          (decide_eq_false (hacyclic _))
        intro r hr
        exact decide_eq_true (habove.trans (of_decide_eq_true hr))
      obtain ⟨top, htopMem, htopAbove, htopLive, htopHeld⟩ := ih _ hfewer htid hholder htop rfl
      exact ⟨top, htopMem, habove.trans htopAbove, htopLive, htopHeld⟩
    · exact ⟨holder, hmem, habove, hlive,
        (mem_held_released hpool).mpr ⟨t, ht, htid, by simpa using htop⟩⟩

/-! ## The second pass -/

def freeSlotNumbers (b : Board) : List Nat :=
  ((b.slots.filter (·.isAvailable)).map (·.slotNumber)).insertionSort (· ≤ ·)

/-- The live orchestrations that never claimed a slot. -/
def orphanedRuns (b : Board) : List OrchestrationRun :=
  b.outside.orchestrations.filter fun run =>
    run.status.live ∧ run.id ∉ heldOrchestrations b ∧
      ¬coveredByAncestor b.outside (heldOrchestrations b) run.ticketId ∧
      ticketsHoldingLanes b none run.ticketId = []

def adoptable (b : Board) : List OrchestrationRun :=
  (orphanedRuns b).take (freeSlotNumbers b).length

/-- The slots that keep what they hold: there is no orphan for them. -/
def untaken (b : Board) : List AgentSlot :=
  b.slots.filter fun s => s.slotNumber ∉ (freeSlotNumbers b).take (orphanedRuns b).length

section

variable (claims : List (OrchestrationRun × Nat))
include claims

theorem mem_held_foldl_adopt (b : Board) (hdistinct : (claims.map Prod.snd).Nodup)
    (hthere : ∀ c ∈ claims, ∃ s ∈ b.slots, s.slotNumber = c.2) {id : Nat} :
    id ∈ heldOrchestrations (claims.foldl (fun b c => adoptOrphan b c.1 c.2) b) ↔
      (∃ c ∈ claims, c.1.id = id) ∨ ∃ s ∈ b.slots, s.slotNumber ∉ claims.map Prod.snd ∧
        s.currentOrchestrationRunId = some id := by
  induction claims generalizing b with
  | nil =>
    rw [foldl_nil, mem_held]
    simp
  | cons c claims ih =>
    obtain ⟨hfresh, hrest⟩ := nodup_cons.mp hdistinct
    rw [foldl_cons, ih (adoptOrphan b c.1 c.2) hrest]
    · constructor
      · rintro (⟨d, hd, rfl⟩ | ⟨s', hs', hnot, hid⟩)
        · exact .inl ⟨d, mem_cons_of_mem _ hd, rfl⟩
        · obtain ⟨s, hs, rfl⟩ := mem_map.mp hs'
          by_cases hnum : s.slotNumber = c.2
          · rw [if_pos hnum] at hid
            exact .inl ⟨c, mem_cons_self, some.inj hid⟩
          · rw [if_neg hnum] at hnot hid
            refine .inr ⟨s, hs, fun h => ?_, hid⟩
            rcases mem_cons.mp h with h | h
            · exact hnum h
            · exact hnot h
      · rintro (⟨d, hd, rfl⟩ | ⟨s, hs, hnot, hid⟩)
        · rcases mem_cons.mp hd with rfl | hd
          · obtain ⟨s, hs, hnum⟩ := hthere d mem_cons_self
            refine .inr ⟨_, mem_map.mpr ⟨s, hs, if_pos hnum⟩, ?_, rfl⟩
            rw [← hnum] at hfresh
            exact hfresh
          · exact .inl ⟨d, hd, rfl⟩
        · have hne : s.slotNumber ≠ c.2 := fun h => hnot (h ▸ mem_cons_self)
          refine .inr ⟨s, mem_map.mpr ⟨s, hs, if_neg hne⟩, fun h => ?_, hid⟩
          exact hnot (mem_cons_of_mem _ h)
    · intro d hd
      obtain ⟨s, hs, hnum⟩ := hthere d (mem_cons_of_mem _ hd)
      refine ⟨_, mem_map.mpr ⟨s, hs, rfl⟩, ?_⟩
      split
      · exact hnum
      · exact hnum

theorem foldl_adopt_outside (b : Board) :
    (claims.foldl (fun b c => adoptOrphan b c.1 c.2) b).outside = b.outside := by
  induction claims generalizing b with
  | nil => rfl
  | cons c claims ih => exact ih _

theorem foldl_adopt_available (b : Board)
    (h : s ∈ (claims.foldl (fun b c => adoptOrphan b c.1 c.2) b).slots)
    (havailable : s.isAvailable = true) : s ∈ b.slots := by
  induction claims generalizing b with
  | nil => exact h
  | cons c claims ih =>
    obtain ⟨t, ht, heq⟩ := mem_map.mp (ih _ h)
    split at heq
    · rw [← heq] at havailable
      cases havailable
    · exact heq ▸ ht

end

theorem initializeSlots_available (h : s ∈ (initializeSlots L b).slots)
    (havailable : s.isAvailable = true) : s.slotNumber ≤ L.maxConcurrent := by
  rcases mem_append.mp h with h | h
  · have hkept := of_decide_eq_true (mem_filter.mp h).2
    by_contra hsurplus
    exact hkept ⟨Nat.lt_of_not_le hsurplus, havailable⟩
  · obtain ⟨n, hn, rfl⟩ := mem_map.mp h
    obtain ⟨-, hle⟩ := mem_range'_1.mp (mem_filter.mp hn).1
    show n ≤ L.maxConcurrent
    omega

theorem mem_held_initializeSlots
    (hsurplus : ∀ s ∈ b.slots, s.isAvailable = true → s.slotNumber ≤ L.maxConcurrent) {id : Nat} :
    id ∈ heldOrchestrations (initializeSlots L b) ↔ id ∈ heldOrchestrations b := by
  rw [mem_held, mem_held]
  constructor
  · rintro ⟨s, hs, hid⟩
    rcases mem_initializeSlots hs with hs | hs
    · exact ⟨s, hs, hid⟩
    · rw [hs] at hid
      cases hid
  · rintro ⟨s, hs, hid⟩
    refine ⟨s, mem_append_left _ (mem_filter.mpr ⟨hs, decide_eq_true ?_⟩), hid⟩
    rintro ⟨hlt, havailable⟩
    exact absurd (hsurplus s hs havailable) (Nat.not_le_of_lt hlt)

theorem map_fst_zip_take {α β : Type*} (l : List α) (m : List β) :
    (l.zip m).map Prod.fst = l.take m.length := by
  induction l generalizing m with
  | nil => simp
  | cons x l ih =>
    cases m with
    | nil => rfl
    | cons y m => exact congrArg (x :: ·) (ih m)

theorem map_snd_zip_take {α β : Type*} (l : List α) (m : List β) :
    (l.zip m).map Prod.snd = m.take l.length := by
  induction l generalizing m with
  | nil => rfl
  | cons x l ih =>
    cases m with
    | nil => rfl
    | cons y m => exact congrArg (y :: ·) (ih m)

theorem mem_held_claimed (hpool : b.Pool) {id : Nat} :
    id ∈ heldOrchestrations (initializeSlots L (claimOrphanedOrchestrations L b)) ↔
      (∃ run ∈ adoptable (initializeSlots L b), run.id = id) ∨
        ∃ s ∈ untaken (initializeSlots L b), s.currentOrchestrationRunId = some id := by
  let pool := initializeSlots L b
  let claims := (orphanedRuns pool).zip (freeSlotNumbers pool)
  have hclaimed : claimOrphanedOrchestrations L b
      = claims.foldl (fun b c => adoptOrphan b c.1 c.2) pool := rfl
  have hfst : claims.map Prod.fst = adoptable pool := map_fst_zip_take _ _
  have hsnd : claims.map Prod.snd = (freeSlotNumbers pool).take (orphanedRuns pool).length :=
    map_snd_zip_take _ _
  have hnumbers : (freeSlotNumbers pool).Nodup := by
    refine (perm_insertionSort _ _).nodup_iff.mpr ?_
    exact (filter_sublist.map _).nodup (initializeSlots_pool hpool)
  rw [mem_held_initializeSlots, hclaimed, mem_held_foldl_adopt]
  · constructor
    · rintro (⟨c, hc, rfl⟩ | ⟨s, hs, hnot, hid⟩)
      · exact .inl ⟨c.1, hfst ▸ mem_map_of_mem hc, rfl⟩
      · exact .inr ⟨s, mem_filter.mpr ⟨hs, decide_eq_true (hsnd ▸ hnot)⟩, hid⟩
    · rintro (⟨run, hrun, rfl⟩ | ⟨s, hs, hid⟩)
      · rw [← hfst] at hrun
        obtain ⟨c, hc, rfl⟩ := mem_map.mp hrun
        exact .inl ⟨c, hc, rfl⟩
      · obtain ⟨hmem, hnot⟩ := mem_filter.mp hs
        exact .inr ⟨s, hmem, hsnd ▸ of_decide_eq_true hnot, hid⟩
  · rw [hsnd]
    exact (take_sublist _ _).nodup hnumbers
  · intro c hc
    have hc : c.2 ∈ freeSlotNumbers pool := mem_of_mem_take (hsnd ▸ mem_map_of_mem hc)
    obtain ⟨s, hs, hnum⟩ := mem_map.mp ((perm_insertionSort _ _).mem_iff.mp hc)
    exact ⟨s, (mem_filter.mp hs).1, hnum⟩
  · intro s hs havailable
    exact initializeSlots_available (foldl_adopt_available claims pool hs havailable) havailable

theorem released_nil_iff : (releaseNestedSlotClaims L b).2 = [] ↔
    ∀ run, b.outside.orchestration run.id = some run →
      run.id ∈ heldOrchestrations (initializeSlots L b) →
      ∀ holder ∈ b.outside.orchestrations, holder.status.live = true →
        holder.id ∈ heldOrchestrations (initializeSlots L b) → holder.id ≠ run.id →
        ¬AboveTicket b.outside holder.ticketId run.ticketId := by
  have hfreed : (releaseNestedSlotClaims L b).2 = [] ↔
      ∀ s ∈ (initializeSlots L b).slots, ¬nestedClaim (initializeSlots L b) s = true :=
    map_eq_nil_iff.trans filter_eq_nil_iff
  rw [hfreed]
  constructor
  · intro h run hrun hheld holder hmem hlive hholds hne habove
    obtain ⟨s, hs, hid⟩ := mem_held.mp hheld
    exact h s hs (nestedClaim_iff.mpr ⟨run, hid, hrun, holder, hmem, habove, hlive, hholds, hne⟩)
  · intro h s hs hnested
    obtain ⟨run, hid, hrun, holder, hmem, habove, hlive, hholds, hne⟩ := nestedClaim_iff.mp hnested
    exact h run hrun (mem_held.mpr ⟨s, hs, hid⟩) holder hmem hlive hholds hne habove

theorem released_pool (hpool : b.Pool) : (releaseNestedSlotClaims L b).1.Pool := by
  rw [Board.Pool, released_slots hpool, List.map_map]
  refine (congrArg List.Nodup (List.map_congr_left fun s _ => ?_)).mpr (initializeSlots_pool hpool)
  rw [Function.comp_apply]
  split <;> rfl

theorem released_settled (hpool : b.Pool) {run holder : OrchestrationRun}
    (hrun : b.outside.orchestration run.id = some run)
    (hheld : run.id ∈ heldOrchestrations (initializeSlots L (releaseNestedSlotClaims L b).1))
    (hholder : holder ∈ b.outside.orchestrations) (hlive : holder.status.live = true)
    (hholds : holder.id ∈ heldOrchestrations (initializeSlots L (releaseNestedSlotClaims L b).1))
    (hne : holder.id ≠ run.id) : ¬AboveTicket b.outside holder.ticketId run.ticketId := by
  intro habove
  have hbefore : ∀ {id : Nat},
      id ∈ heldOrchestrations (initializeSlots L (releaseNestedSlotClaims L b).1) →
      ∃ s ∈ (initializeSlots L b).slots, s.currentOrchestrationRunId = some id ∧
        nestedClaim (initializeSlots L b) s = false := by
    intro id hid
    obtain ⟨s, hs, hsid⟩ := mem_held.mp hid
    rcases mem_initializeSlots hs with hs | hs
    · exact (mem_held_released hpool).mp (mem_held.mpr ⟨s, hs, hsid⟩)
    · rw [hs] at hsid
      cases hsid
  obtain ⟨s, hs, hsid, hfree⟩ := hbefore hheld
  obtain ⟨t, ht, htid, -⟩ := hbefore hholds
  have hnested : nestedClaim (initializeSlots L b) s = true :=
    nestedClaim_iff.mpr ⟨run, hsid, hrun, holder, hholder, habove, hlive,
      mem_held.mpr ⟨t, ht, htid⟩, hne⟩
  rw [hnested] at hfree
  cases hfree

theorem adoptable_spec {run : OrchestrationRun} (h : run ∈ adoptable (initializeSlots L b)) :
    run ∈ b.outside.orchestrations ∧ run.status.live = true ∧
      coveredByAncestor b.outside (heldOrchestrations (initializeSlots L b)) run.ticketId
        = false := by
  obtain ⟨hmem, hcond⟩ := mem_filter.mp (mem_of_mem_take h)
  obtain ⟨hlive, -, hcovered, -⟩ := of_decide_eq_true hcond
  exact ⟨hmem, hlive, Bool.eq_false_iff.mpr hcovered⟩

/-- Of the orphans there are slots for, none is of a ticket above another's, or above the ticket
    of an orchestration that keeps its slot. -/
def NoneAdoptedAbove (b : Board) : Prop :=
  ∀ run ∈ adoptable b, ∀ other ∈ b.outside.orchestrations,
    (other ∈ adoptable b ∨ ∃ s ∈ untaken b, s.currentOrchestrationRunId = some other.id) →
    ¬AboveTicket b.outside run.ticketId other.ticketId

/-- **The two passes reach a fixpoint exactly when nothing is adopted above what holds a slot.**
    Whatever the first pass frees is covered by an orchestration that still holds one; behind
    the second pass another first pass frees nothing if and only if none of the orphans it has
    slots for lies above another of them or above a holder. -/
theorem healing_settles_iff (hpool : b.Pool)
    (hkeys : (b.outside.orchestrations.map OrchestrationRun.id).Nodup)
    (hacyclic : ∀ t, ¬AboveTicket b.outside t t) :
    (∀ s ∈ (initializeSlots L b).slots, s.slotNumber ∈ (releaseNestedSlotClaims L b).2 →
      ∃ run ∈ b.outside.orchestrations, s.currentOrchestrationRunId = some run.id ∧
        ∃ holder ∈ b.outside.orchestrations,
          AboveTicket b.outside holder.ticketId run.ticketId ∧ holder.status.live = true ∧
          holder.id ∈ heldOrchestrations (releaseNestedSlotClaims L b).1) ∧
    ((releaseNestedSlotClaims L
        (claimOrphanedOrchestrations L (releaseNestedSlotClaims L b).1)).2 = [] ↔
      NoneAdoptedAbove (initializeSlots L (releaseNestedSlotClaims L b).1)) := by
  constructor
  · intro s hs hfreed
    obtain ⟨t, ht, hnum⟩ := mem_map.mp hfreed
    obtain ⟨hmem, hnested⟩ := mem_filter.mp ht
    obtain rfl := inj_on_of_nodup_map (initializeSlots_pool hpool) hmem hs hnum
    obtain ⟨run, hid, hrun, -⟩ := nestedClaim_iff.mp hnested
    exact ⟨run, (orchestration_spec hrun).1, hid,
      freed_covered hpool hkeys hacyclic hid hrun hnested⟩
  · generalize hbefore : (releaseNestedSlotClaims L b).1 = before
    have houtside : before.outside = b.outside := hbefore ▸ released_outside
    have hheld := @mem_held_claimed L before (hbefore ▸ released_pool hpool)
    rw [released_nil_iff, show (claimOrphanedOrchestrations L before).outside = before.outside from
      foldl_adopt_outside _ _]
    rw [← houtside] at hkeys hacyclic
    constructor
    · intro hsettled run hrun other hother hholds habove
      obtain ⟨hmem, hlive, -⟩ := adoptable_spec hrun
      refine hsettled other (find?_of_nodup hkeys hother) ?_ run hmem hlive ?_ ?_ habove
      · rcases hholds with hadopted | hkept
        · exact hheld.mpr (.inl ⟨other, hadopted, rfl⟩)
        · exact hheld.mpr (.inr hkept)
      · exact hheld.mpr (.inl ⟨run, hrun, rfl⟩)
      · intro hsame
        obtain rfl := inj_on_of_nodup_map hkeys hmem hother hsame
        exact hacyclic _ habove
    · intro hnone run hrun hruns holder hholder hlive hholds hne habove
      obtain ⟨hmem, -⟩ := orchestration_spec hrun
      rcases hheld.mp hholds with ⟨adopted, hadopted, hid⟩ | ⟨s, hs, hsid⟩
      · -- the holder was adopted
        obtain rfl := inj_on_of_nodup_map hkeys (adoptable_spec hadopted).1 hholder hid
        refine hnone adopted hadopted run hmem ?_ habove
        rcases hheld.mp hruns with ⟨r, hr, hrid⟩ | hkept
        · exact .inl (inj_on_of_nodup_map hkeys (adoptable_spec hr).1 hmem hrid ▸ hr)
        · exact .inr hkept
      · -- the holder kept its slot
        have hkept : holder.id ∈ heldOrchestrations (initializeSlots L before) :=
          mem_held.mpr ⟨s, (mem_filter.mp hs).1, hsid⟩
        rcases hheld.mp hruns with ⟨r, hr, hrid⟩ | ⟨t, ht, htid⟩
        · obtain ⟨hrmem, -, huncovered⟩ := adoptable_spec hr
          obtain rfl := inj_on_of_nodup_map hkeys hrmem hmem hrid
          rw [coveredByAncestor_iff.mpr ⟨holder, hholder, habove, hlive, hkept⟩] at huncovered
          cases huncovered
        · have hrunHeld : run.id ∈ heldOrchestrations (initializeSlots L before) :=
            mem_held.mpr ⟨t, (mem_filter.mp ht).1, htid⟩
          subst hbefore
          rw [houtside] at hrun hholder habove
          exact released_settled hpool hrun hrunHeld hholder hlive hkept hne habove

/-! ## A parent and its child -/

theorem one_le_lanes : 1 ≤ 2 := Nat.le_succ 1

def twoLanes : LaneService where
  maxConcurrent := 2
  one_le := one_le_lanes
  rowOrder := id
  dispatcher := none
  prepareRerun := fun _ o => ("", o)

/-- Ticket 2 is a child of ticket 1, and both have a live orchestration. -/
def nestedPair : Outside where
  tickets := [{ id := 1 }, { id := 2, parentTicketId := some 1 }]
  orchestrations := [{ id := 11, ticketId := 1, status := .running },
    { id := 12, ticketId := 2, status := .running }]

def bothHold : Board where
  entries := Keyed.empty
  slots := [{ slotNumber := 1, isAvailable := false, currentOrchestrationRunId := some 11 },
    { slotNumber := 2, isAvailable := false, currentOrchestrationRunId := some 12 }]
  outside := nestedPair

def neitherHolds : Board where
  entries := Keyed.empty
  slots := [{ slotNumber := 1 }, { slotNumber := 2 }]
  outside := nestedPair

theorem nestedPair_acyclic (t : TicketId) : ¬AboveTicket nestedPair t t := by
  have hparent : ∀ x y, Up (parentTicket nestedPair) x y → y < x := by
    intro x y h
    obtain ⟨ticket, hticket, hparent⟩ := bind_eq_some_iff.mp h
    have hid : ticket.id = x := by simpa using List.find?_some hticket
    rcases mem_cons.mp (mem_of_find?_eq_some hticket) with rfl | hmem
    · cases hparent
    · obtain rfl := mem_singleton.mp hmem
      cases hparent
      exact hid ▸ Nat.lt_succ_self 1
  have habove : ∀ x y, AboveTicket nestedPair y x → y < x := by
    intro x y h
    induction h with
    | single h => exact hparent _ _ h
    | tail _ h ih => exact Nat.lt_trans (hparent _ _ h) ih
  exact fun h => Nat.lt_irrefl t (habove t t h)

/-- The child's slot is given back, and stays so. -/
theorem bothHold_settles : (releaseNestedSlotClaims twoLanes bothHold).2 = [2] ∧
    (releaseNestedSlotClaims twoLanes (claimOrphanedOrchestrations twoLanes
      (releaseNestedSlotClaims twoLanes bothHold).1)).2 = [] := by
  refine ⟨by decide +kernel, ?_⟩
  have hpool : bothHold.Pool := by
    show ([1, 2] : List Nat).Nodup
    decide
  refine (healing_settles_iff (b := bothHold) hpool (by decide +kernel)
    nestedPair_acyclic).2.mpr ?_
  intro run hrun
  have hnone : adoptable (initializeSlots twoLanes
      (releaseNestedSlotClaims twoLanes bothHold).1) = [] := by decide +kernel
  cases hrun

/-- With two free slots both are adopted, and the next pass takes the child's back. -/
theorem neitherHolds_adopts_nested : (releaseNestedSlotClaims twoLanes neitherHolds).2 = [] ∧
    heldOrchestrations (claimOrphanedOrchestrations twoLanes
      (releaseNestedSlotClaims twoLanes neitherHolds).1) = [11, 12] ∧
    (releaseNestedSlotClaims twoLanes (claimOrphanedOrchestrations twoLanes
      (releaseNestedSlotClaims twoLanes neitherHolds).1)).2 = [2] := by
  decide +kernel

end Loregarden.Lanes
