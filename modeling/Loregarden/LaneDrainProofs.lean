import Mathlib.Data.List.Dedup
import Loregarden.LaneLineProofs

/-! # Draining a lane

    Starting heads, settling holds and sweeping slots only take entries out of
    their lines, and renumber the lane they take one out of: `Shrinks`.

    * `SameLines`: a write that moves no entry.
    * `Shrinks`: entries only leave, and a numbered lane stays numbered.
    * `startLaneHead_shrinks`, `driveRepairingEntries_shrinks`,
      `reconcileLanesSlots_shrinks`: the passes that drain. -/

namespace Loregarden.Lanes

open Ranked List

variable {L : LaneService} {t t' t'' : EntryTable} {n m : Nat} {f : QueuedRun → QueuedRun}
variable {i : EntryId} {b : Board} {head entry : QueuedRun}

/-! ## Writes that move no entry -/

structure SameLines (L : LaneService) (t t' : EntryTable) : Prop where
  lines : ∀ n, line L t' n = line L t n
  numbered : ∀ n, Numbered L t n → Numbered L t' n

/-- Entries only leave their lines, and a numbered lane stays numbered. -/
structure Shrinks (L : LaneService) (t t' : EntryTable) : Prop where
  sublist : ∀ n, (line L t' n).Sublist (line L t n)
  numbered : ∀ n, Numbered L t n → Numbered L t' n

theorem SameLines.refl (L : LaneService) (t : EntryTable) : SameLines L t t :=
  ⟨fun _ => rfl, fun _ h => h⟩

theorem SameLines.trans (h : SameLines L t t') (h' : SameLines L t' t'') : SameLines L t t'' :=
  ⟨fun n => (h'.lines n).trans (h.lines n), fun n hn => h'.numbered n (h.numbered n hn)⟩

theorem SameLines.shrinks (h : SameLines L t t') : Shrinks L t t' :=
  ⟨fun n => by rw [h.lines n], h.numbered⟩

theorem Shrinks.refl (L : LaneService) (t : EntryTable) : Shrinks L t t :=
  (SameLines.refl L t).shrinks

theorem Shrinks.trans (h : Shrinks L t t') (h' : Shrinks L t' t'') : Shrinks L t t'' :=
  ⟨fun n => List.Sublist.trans (h'.sublist n) (h.sublist n),
    fun n hn => h'.numbered n (h.numbered n hn)⟩

theorem Shrinks.not_mem (h : Shrinks L t t') (hi : ∀ n, i ∉ line L t n) (n : Nat) :
    i ∉ line L t' n :=
  fun hmem => hi n ((h.sublist n).subset hmem)

theorem SameLines.of_touch (hrows : t'.rows = t.rows.map f)
    (h : ∀ e ∈ t.rows, (f e).id = e.id ∧ (f e).position = e.position ∧
      ∀ n, (f e).inLane n = e.inLane n) : SameLines L t t' := by
  have hplace : ∀ e ∈ t.rows, L.place (f e) = L.place e := by
    intro e he
    obtain ⟨hid, hpos, -⟩ := h e he
    rw [LaneService.place, hid, hpos, LaneService.place]
  have hread : ∀ n, waitingInLane L t' n = (waitingInLane L t n).map f := fun n =>
    waitingInLane_touch hrows fun e he => ⟨(h e he).2.2 n, hplace e he⟩
  constructor
  · intro n
    rw [line, hread, map_map]
    exact map_congr_left fun e he => (h e (mem_waitingInLane.mp he).1).1
  · intro n hn
    rw [Numbered, hread, counted_map fun e he => (h e (mem_waitingInLane.mp he).1).2.1]
    exact hn

section OneEntry

variable {i : EntryId} {g : QueuedRun → QueuedRun}

section

variable (hrows : t'.rows = t.rows.map fun e => if e.id = i then g e else e)
include hrows

theorem SameLines.update
    (h : ∀ e ∈ t.rows, e.id = i → (g e).id = e.id ∧ (g e).position = e.position ∧
      ∀ n, (g e).inLane n = e.inLane n) : SameLines L t t' := by
  refine SameLines.of_touch hrows fun e he => ?_
  by_cases hi : e.id = i
  · rw [if_pos hi]
    exact h e he hi
  · rw [if_neg hi]
    exact ⟨rfl, rfl, fun _ => rfl⟩

theorem SameLines.update_out
    (hi : ∀ n, i ∉ line L t n)
    (h : ∀ e, (g e).id = e.id ∧ (g e).position = e.position ∧ (g e).status.waiting = false) :
    SameLines L t t' := by
  refine SameLines.update hrows fun e he hid => ⟨(h e).1, (h e).2.1, fun n => ?_⟩
  have hout : e.inLane n = false := by
    cases hn : e.inLane n with
    | false => rfl
    | true => exact absurd (mem_line.mpr ⟨e, he, hn, hid⟩) (hi n)
  rw [hout, QueuedRun.inLane, (h e).2.2, Bool.false_and]

end

end OneEntry

theorem Shrinks.of_renumberLanes (lanes : List Nat) (hsub : ∀ m, (line L t' m).Sublist (line L t m))
    (hnum : ∀ m, m ∉ lanes → Numbered L t m → Numbered L t' m) :
    Shrinks L t (renumberLanes L lanes t') := by
  obtain ⟨hline, hspec⟩ := renumberLanes_spec L lanes t'
  refine ⟨fun m => hline m ▸ hsub m, fun m hm => hspec m ?_⟩
  by_cases h : m ∈ lanes
  · exact .inl h
  · exact .inr (hnum m h hm)

/-- **One entry leaves its lane, and the lane is renumbered.** -/
theorem Shrinks.of_take (hi : i ∈ line L t n)
    (h : ∀ m, waitingInLane L t' m = (waitingInLane L t m).filter fun e => e.id ≠ i) :
    Shrinks L t (renumber L n none t') := by
  refine Shrinks.of_renumberLanes [n] (fun m => ?_) fun m hm hnum => ?_
  · rw [line, h m]
    exact filter_sublist.map _
  · have hne : m ≠ n := fun e => hm (mem_singleton.mpr e)
    have hall : (waitingInLane L t m).filter (fun e => e.id ≠ i) = waitingInLane L t m := by
      refine filter_eq_self.mpr fun e he => decide_eq_true ?_
      rintro rfl
      exact hne (line_unique (mem_map_of_mem he) hi)
    rw [Numbered, h m, hall]
    exact hnum

/-! ## Starting a head -/

theorem claimLaneSlot_entries {b' : Board} (h : claimLaneSlot b n = some b') :
    b'.entries = b.entries := by
  rw [claimLaneSlot] at h
  split at h
  · cases h
  · split at h
    · obtain rfl := Option.some.inj h
      rfl
    · cases h

theorem refuse_sameLines (b : Board) (i : EntryId) (reason : String) :
    SameLines L b.entries (b.refuse i reason).entries :=
  SameLines.update rfl fun _ _ _ => ⟨rfl, rfl, fun _ => rfl⟩

theorem startEntryWork_sameLines (d : Dispatcher) (ticket : Ticket) (head : QueuedRun)
    (b : Board) : SameLines L b.entries (startEntryWork d ticket head n b).1.entries := by
  rw [startEntryWork]
  split
  · split
    · exact refuse_sameLines { b with outside := _ } _ _
    · exact SameLines.update rfl fun _ _ _ => ⟨rfl, rfl, fun _ => rfl⟩
  · split
    · exact SameLines.refl L b.entries
    · exact SameLines.update rfl fun _ _ _ => ⟨rfl, rfl, fun _ => rfl⟩

theorem activateHead_shrinks (h : head.id ∈ line L b.entries n) :
    Shrinks L b.entries (activateHead L n head b).entries :=
  Shrinks.of_take h fun _ => waitingInLane_take rfl fun _ _ _ => rfl

theorem deleteHead_shrinks (h : i ∈ line L t n) : Shrinks L t (renumber L n none (t.delete i)) :=
  Shrinks.of_take h fun _ => waitingInLane_delete i

theorem dispatchHead_shrinks (d : Dispatcher) (ticket : Ticket) (h : head.id ∈ line L b.entries n) :
    Shrinks L b.entries (dispatchHead L n head d ticket b).1.entries := by
  have hwork := startEntryWork_sameLines (L := L) (n := n) d ticket head b
  rw [dispatchHead]
  split
  · exact (refuse_sameLines b _ _).shrinks
  · split
    · next b' heq =>
        rw [heq] at hwork
        exact hwork.shrinks
    · next b' heq =>
        rw [heq] at hwork
        exact hwork.shrinks.trans (activateHead_shrinks (by rw [hwork.lines n]; exact h))

theorem head_mem_line (h : (waitingInLane L t n).head? = some head) : head.id ∈ line L t n :=
  mem_map_of_mem (mem_of_mem_head? h)

theorem startLaneHeadFrom_shrinks (fuel : Nat) (b : Board) :
    Shrinks L b.entries (startLaneHeadFrom L n fuel b).1.entries := by
  induction fuel generalizing b with
  | zero => exact Shrinks.refl L b.entries
  | succ fuel ih =>
    rw [startLaneHeadFrom]
    split
    · split
      · exact Shrinks.refl L b.entries
      · exact (refuse_sameLines b _ _).shrinks
    · split
      · exact Shrinks.refl L b.entries
      · next b' hclaim =>
          rw [← claimLaneSlot_entries hclaim]
          split
          · exact Shrinks.refl L b'.entries
          · exact Shrinks.refl L b'.entries
          · next head d hhead _ =>
              split
              · -- the ticket is gone: its entry leaves, and the lane is tried again
                have hrest := ih (releaseSlot ((b'.delete head.id).renumber L n) n)
                exact (deleteHead_shrinks (head_mem_line hhead)).trans hrest
              · exact dispatchHead_shrinks d _ (head_mem_line hhead)

/-- **Starting a lane's head only takes entries out of that lane**, and keeps its numbering. -/
theorem startLaneHead_shrinks (L : LaneService) (b : Board) (n : Nat) :
    Shrinks L b.entries (startLaneHead L b n).1.entries :=
  startLaneHeadFrom_shrinks _ b

theorem startReleased_shrinks (L : LaneService) (b : Board) (slot : AgentSlot) : Shrinks L b.entries
      (startLaneHead L (releaseSlot b slot.slotNumber) slot.slotNumber).1.entries :=
  startLaneHead_shrinks L (releaseSlot b slot.slotNumber) slot.slotNumber

theorem settleRepair_shrinks (reason : String) (h : ∀ n, entry.id ∉ line L b.entries n) :
    Shrinks L b.entries (settleRepair L b entry reason).entries := by
  have hsettle : SameLines L b.entries (b.update entry.id
      (fun e => { settled e with failureReason := orReason reason e }) fun _ => rfl).entries :=
    SameLines.update_out rfl h fun _ => ⟨rfl, rfl, rfl⟩
  rw [settleRepair]
  split
  · exact hsettle.shrinks
  · exact hsettle.shrinks.trans (startReleased_shrinks L _ _)

theorem countAttempt_sameLines (b : Board) (i : EntryId) : SameLines L b.entries (b.update i
      (fun e => { e with repairAttempts := e.repairAttempts + 1 }) fun _ => rfl).entries :=
  SameLines.update rfl fun _ _ _ => ⟨rfl, rfl, fun _ => rfl⟩

theorem retryHeld_sameLines (ticket : Ticket)
    (slot : AgentSlot) (d : Dispatcher) (h : ∀ n, entry.id ∉ line L b.entries n) :
    SameLines L b.entries (retryHeld b entry ticket slot d).entries := by
  have hcount := countAttempt_sameLines (L := L) b entry.id
  have hwork := startEntryWork_sameLines (L := L) (n := slot.slotNumber) d ticket entry
    (b.update entry.id (fun e => { e with repairAttempts := e.repairAttempts + 1 }) fun _ => rfl)
  rw [retryHeld]
  split
  · next b' heq =>
      rw [heq] at hwork
      exact hcount.trans hwork
  · next b' heq =>
      rw [heq] at hwork
      refine (hcount.trans hwork).trans ?_
      refine SameLines.update_out rfl (fun n => ?_) fun _ => ⟨rfl, rfl, rfl⟩
      show entry.id ∉ line L b'.entries n
      rw [(hcount.trans hwork).lines n]
      exact h n

theorem driveOneRepair_shrinks (h : ∀ n, entry.id ∉ line L b.entries n) :
    Shrinks L b.entries (driveOneRepair L b entry).entries := by
  rw [driveOneRepair]
  split
  · exact settleRepair_shrinks _ h
  · split
    · exact settleRepair_shrinks _ h
    · next slot _ =>
        obtain ⟨refused, o⟩ := L.prepareRerun _ b.outside
        dsimp only
        generalize (if refused = "" then _ else refused) = reason
        by_cases hr : reason = ""
        · rw [if_neg (not_not.mpr hr)]
          split
          · exact (countAttempt_sameLines { b with outside := o } entry.id).shrinks
          · exact (retryHeld_sameLines (b := { b with outside := o }) _ slot _ h).shrinks
        · rw [if_pos hr]
          exact settleRepair_shrinks (b := { b with outside := o }) _ h

/-- Driving the holds takes entries out of the lanes it hands on, and no held entry was waiting. -/
theorem driveRepairingEntries_shrinks (L : LaneService) (b : Board) :
    Shrinks L b.entries (driveRepairingEntries L b).entries := by
  have hloop : ∀ (ids : List EntryId) (b : Board), (∀ i ∈ ids, ∀ n, i ∉ line L b.entries n) →
      Shrinks L b.entries (ids.foldl (driveHeld L) b).entries := by
    intro ids
    induction ids with
    | nil => exact fun b _ => Shrinks.refl L b.entries
    | cons i ids ih =>
      intro b hout
      rw [foldl_cons, driveHeld]
      cases hget : b.entries.get i with
      | none => exact ih b fun j hj => hout j (mem_cons_of_mem _ hj)
      | some entry =>
        obtain ⟨-, hid⟩ := Keyed.get_eq_some hget
        have hwaits : ∀ n, entry.id ∉ line L b.entries n := fun n =>
          hid ▸ hout i mem_cons_self n
        have hdrive := driveOneRepair_shrinks hwaits
        exact hdrive.trans (ih _ fun j hj =>
          hdrive.not_mem (hout j (mem_cons_of_mem _ hj)))
  refine hloop _ b fun i hi n hmem => ?_
  obtain ⟨e, he, rfl⟩ := mem_map.mp hi
  obtain ⟨he, hrep⟩ := mem_filter.mp he
  obtain ⟨x, hx, hxn, hid⟩ := mem_line.mp hmem
  obtain rfl := Keyed.eq_of_id hx he hid
  have hwait := (inLane_iff.mp hxn).1
  rw [of_decide_eq_true hrep] at hwait
  cases hwait

/-! ## The rest of the sweep -/

theorem cancelTerminalTicketEntries_shrinks (L : LaneService) (o : Outside) (t : EntryTable) :
    Shrinks L t (cancelTerminalTicketEntries L o t) := by
  have hstale : ∀ e : QueuedRun, e.stale o = true →
      ∀ n, ({ e with status := .cancelled } : QueuedRun).inLane n = false := fun _ _ _ => rfl
  refine Shrinks.of_renumberLanes _ (fun n => ?_) fun n hn hnum => ?_
  · rw [line, line, waitingInLane_write rfl fun e _ hin => ?_, map_map]
    · refine (map_congr_left fun e _ => ?_).symm ▸ filter_sublist.map _
      rw [Function.comp_apply]
      split <;> rfl
    · by_cases hs : e.stale o = true
      · rw [if_pos hs, hstale e hs] at hin
        cases hin
      · rw [if_neg hs] at hin ⊢
        exact ⟨hin, rfl⟩
  · -- no stale entry waits in a lane that is not renumbered
    rw [Numbered, waitingInLane_frame rfl fun e he hin => ?_]
    · exact hnum
    · rw [if_neg]
      intro hs
      rw [if_pos hs, hstale e hs] at hin
      have hlane := (inLane_iff.mp (hin.resolve_right Bool.false_ne_true)).2
      refine hn (mem_dedup.mpr (mem_map.mpr ⟨e, ?_, hlane⟩))
      exact mem_filter.mpr ⟨he, hs⟩

theorem settleFinishedEntries_sameLines (o : Outside) (t : EntryTable) :
    SameLines L t (settleFinishedEntries o t) := by
  refine SameLines.of_touch rfl fun e _ => ?_
  by_cases h : (e.status = .active ∨ e.status = .promoted) ∧ entryWorkIsOver o e = true
  · rw [if_pos h]
    refine ⟨rfl, rfl, fun n => ?_⟩
    rcases h.1 with hs | hs <;> rw [QueuedRun.inLane, QueuedRun.inLane, hs] <;> rfl
  · rw [if_neg h]
    exact ⟨rfl, rfl, fun _ => rfl⟩

theorem ensureActiveEntry_sameLines (o : Outside) (t : EntryTable) (orch : Nat) :
    SameLines L t (ensureActiveEntry o t n orch) := by
  have hread : ∀ (e : QueuedRun) (he : e.id = t.next), e.status.waiting = false →
      SameLines L t (t.insert e he) := by
    intro e he hw
    have hsame : ∀ n, waitingInLane L (t.insert e he) n = waitingInLane L t n := fun n =>
      waitingInLane_insert_frame he (by rw [QueuedRun.inLane, hw, Bool.false_and])
    exact ⟨fun n => by rw [line, hsame, line], fun n hn => by rw [Numbered, hsame]; exact hn⟩
  rw [ensureActiveEntry]
  split
  · exact hread _ rfl rfl
  · exact SameLines.refl L t

theorem claimOrphanedOrchestrations_sameLines (L : LaneService) (b : Board) :
    SameLines L b.entries (claimOrphanedOrchestrations L b).entries := by
  have hloop : ∀ (pairs : List (OrchestrationRun × Nat)) (b : Board),
      SameLines L b.entries (pairs.foldl (fun b p =>
        adoptOrphan b p.1 p.2) b).entries := by
    intro pairs
    induction pairs with
    | nil => exact fun b => SameLines.refl L b.entries
    | cons p pairs ih =>
      intro b
      exact (ensureActiveEntry_sameLines (L := L) b.outside b.entries p.1.id).trans
        (ih (adoptOrphan b p.1 p.2))
  exact hloop _ (initializeSlots L b)

theorem startLanes_shrinks (L : LaneService) (lanes : List Nat) (b : Board) :
    Shrinks L b.entries (startLanes L lanes b).entries := by
  induction lanes generalizing b with
  | nil => exact Shrinks.refl L b.entries
  | cons n lanes ih => exact (startLaneHead_shrinks L b n).trans (ih (startLaneHead L b n).1)

private theorem foldl_entries {step : Board → Nat → Board}
    (h : ∀ b n, (step b n).entries = b.entries) (lanes : List Nat) (b : Board) :
    (lanes.foldl step b).entries = b.entries := by
  induction lanes generalizing b with
  | nil => rfl
  | cons n lanes ih => exact (ih (step b n)).trans (h b n)

theorem reconcileSlots_entries (b : Board) : (reconcileSlots b).1.entries = b.entries := by
  refine foldl_entries ?_ _ b
  exact fun _ _ => rfl

theorem releaseNestedSlotClaims_entries (L : LaneService) (b : Board) :
    (releaseNestedSlotClaims L b).1.entries = b.entries := by
  refine foldl_entries ?_ _ (initializeSlots L b)
  exact fun _ _ => rfl

theorem reconcileLanesSlots_eq (L : LaneService) (b : Board) : ∃ lanes b', b'.entries = b.entries ∧
      (reconcileLanesSlots L b).1 = claimOrphanedOrchestrations L (startLanes L lanes b') :=
  ⟨_, initializeSlots L (releaseNestedSlotClaims L (reconcileSlots b).1).1,
    (releaseNestedSlotClaims_entries L _).trans (reconcileSlots_entries b), rfl⟩

theorem reconcileLanesSlots_shrinks (L : LaneService) (b : Board) :
    Shrinks L b.entries (reconcileLanesSlots L b).1.entries := by
  obtain ⟨lanes, b', hentries, hswept⟩ := reconcileLanesSlots_eq L b
  rw [hswept, ← hentries]
  exact (startLanes_shrinks L lanes b').trans (claimOrphanedOrchestrations_sameLines L _).shrinks

end Loregarden.Lanes
