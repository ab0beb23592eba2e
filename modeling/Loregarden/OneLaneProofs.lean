import Loregarden.LaneHolderProofs
import Loregarden.SweepModel

/-! # One lane per ticket: the sweep, and whole runs

The reconcile sweep ends or spends the repair holds, frees slots, starts idle lanes and adopts
orphans. Each pass keeps `Sole`; the last one needs that no two orphans are of one ticket, because
it reads who holds a lane once, for all of them. -/

namespace Loregarden.Lanes

open Ranked Runs List Option

variable {Q : QueueService} {L : LaneService} {P : Outside → Prop} {b b' : Board}
  {o o' : Outside} {n : Nat} {s : AgentSlot} {entry : QueuedRun} {ticket : Ticket}

/-! ## Repair holds -/

theorem holdEnded_ok (h : holdEnded b entry ticket = .ok s) : FreeBut b s.slotNumber ticket.id := by
  rw [holdEnded] at h
  dsimp only at h
  split at h
  · cases h
  · split at h
    · cases h
    · split at h
      · cases h
      · split at h
        · cases h
        · next slot _ =>
            split at h
            · cases h
            · next helse =>
                cases h
                intro x hx hn
                exact ticketsHoldingLanes_eq_nil.mp (not_not.mp helse) x hx
                  fun heq => hn (some.inj heq)

theorem settleRepair_sole (hQ : Q.Keeps P) (h : Sole P b) (entry : QueuedRun) (reason : String) :
    Sole P (settleRepair Q.toLaneService b entry reason) := by
  rw [settleRepair]
  split
  · exact h.of_slots rfl h.outside (.refl _)
  · next slot _ =>
      refine startLaneHead_sole hQ ?_ slot.slotNumber
      exact (releaseSlot_sole h slot.slotNumber).of_slots rfl h.outside (.refl _)

theorem Sole.names (h : Sole P b) {change : AgentSlot → AgentSlot} {t : TicketId}
    (hslots : b'.slots = (b.updateSlot n change).slots)
    (hc : ∀ s, (change s).slotNumber = s.slotNumber) (ho : P b'.outside)
    (hk : b.outside.Keeps b'.outside)
    (hchange : ∀ s, Known b'.outside s → Known b'.outside (change s) ∧
      ∀ t' ∈ slotTickets b'.outside (change s), t' ∈ slotTickets b'.outside s ∨ t' = t)
    (hfree : FreeBut b n t) : Sole P b' := by
  refine h.but (T := (· = t)) (.updateSlot hslots hc) ho hk (fun s' hs' => ?_) ?_
  · rw [slot_updateSlot_self hslots hc] at hs'
    obtain ⟨s, hs, rfl⟩ := map_eq_some_iff.mp hs'
    have hknown := h.known s ((slot_eq_some h.pool).mp hs).1
    obtain ⟨hknown', htickets⟩ := hchange s (hknown.keeps hk)
    refine ⟨hknown', fun t' ht' => ?_⟩
    rw [hknown.tickets hk] at htickets
    exact (htickets t' ht').imp_left fun hold => ⟨s, hs, hold⟩
  · rintro t' rfl x hx hn
    exact hfree x hx hn

theorem names_run {t : TicketId} {id : Nat} (hread : ∃ r, o.run id = some r ∧ r.ticketId = t)
    (s : AgentSlot) (h : Known o s) : Known o { s with currentRunId := some id } ∧
      ∀ t' ∈ slotTickets o { s with currentRunId := some id }, t' ∈ slotTickets o s ∨ t' = t := by
  obtain ⟨r, hr, rfl⟩ := hread
  refine ⟨⟨fun i hi => ?_, h.orchestration⟩, fun t' ht' => ?_⟩
  · cases hi
    exact ⟨r, hr⟩
  · rcases mem_append.mp ht' with ht' | ht'
    · rw [bind_some, hr] at ht'
      exact .inr (mem_singleton.mp ht')
    · exact .inl (mem_append_right _ ht')

theorem names_orchestration {t : TicketId} {id : Nat}
    (hread : ∃ r, o.orchestration id = some r ∧ r.ticketId = t) (s : AgentSlot) (h : Known o s) :
    Known o { s with currentOrchestrationRunId := some id } ∧
      ∀ t' ∈ slotTickets o { s with currentOrchestrationRunId := some id },
        t' ∈ slotTickets o s ∨ t' = t := by
  obtain ⟨r, hr, rfl⟩ := hread
  refine ⟨⟨h.run, fun i hi => ?_⟩, fun t' ht' => ?_⟩
  · cases hi
    exact ⟨r, hr⟩
  · rcases mem_append.mp ht' with ht' | ht'
    · exact .inl (mem_append_left _ ht')
    · rw [bind_some, hr] at ht'
      exact .inr (mem_singleton.mp ht')

section

variable (hQ : Q.Keeps P) (h : Sole P b)
include hQ h

theorem startEntryWork_sole {d : Dispatcher}
    (hd : Q.dispatcher = some d) (ticket : Ticket) (entry : QueuedRun)
    (hfree : FreeBut b n ticket.id) : Sole P (startEntryWork d ticket entry n b).1 := by
  rw [startEntryWork]
  cases entry.entryKind with
  | stage =>
    obtain ⟨hk, hp, hread⟩ := hQ.stage d hd ticket entry b.outside h.outside
    generalize d.dispatchStage ticket entry b.outside = reply at hk hp hread
    obtain ⟨result, o'⟩ := reply
    cases result with
    | error reason => exact h.of_slots rfl hp hk
    | ok id => exact h.names rfl (fun _ => rfl) hp hk (names_run (hread id rfl)) hfree
  | orchestration =>
    obtain ⟨hk, hp, hread⟩ := hQ.whole d hd ticket entry.ask b.outside h.outside
    generalize d.dispatchOrchestration ticket entry.ask b.outside = reply at hk hp hread
    obtain ⟨result, o'⟩ := reply
    cases result with
    | none => exact h.of_slots rfl hp hk
    | some id =>
      exact h.names rfl (fun _ => rfl) hp hk (names_orchestration (hread id rfl)) hfree

omit hQ h in
theorem Sole.stamped (h : Sole P b) {now : Option Instant}
    (hslots : b'.slots = (b.updateSlot n fun s => { s with assignedAt := now }).slots)
    (ho : b'.outside = b.outside) : Sole P b' := by
  refine h.but (T := fun _ => False) (.updateSlot hslots fun _ => rfl) (ho ▸ h.outside)
    (ho ▸ .refl _) (fun s' hs' => ?_) (fun _ hf => hf.elim)
  rw [slot_updateSlot_self hslots fun _ => rfl] at hs'
  obtain ⟨s, hs, rfl⟩ := map_eq_some_iff.mp hs'
  have hknown := h.known s ((slot_eq_some h.pool).mp hs).1
  rw [ho]
  exact ⟨⟨hknown.run, hknown.orchestration⟩, fun t ht => .inl ⟨s, hs, ht⟩⟩

theorem retryHeld_sole {d : Dispatcher}
    (hd : Q.dispatcher = some d) (hfree : FreeBut b s.slotNumber ticket.id) :
    Sole P (retryHeld b entry ticket s d) := by
  rw [retryHeld]
  have hspent : Sole P (b.update entry.id
      (fun e => { e with repairAttempts := e.repairAttempts + 1 }) fun _ => rfl) :=
    h.of_slots rfl h.outside (.refl _)
  have hwork := startEntryWork_sole hQ hspent hd ticket entry hfree
  generalize startEntryWork d ticket entry s.slotNumber _ = reply at hwork ⊢
  obtain ⟨b', started⟩ := reply
  cases started with
  | false => exact hwork
  | true => exact hwork.stamped rfl rfl

omit hQ h in
theorem FreeBut.keeps (h : Sole P b) {t : TicketId} (hfree : FreeBut b n t)
    (hk : b.outside.Keeps b'.outside) (hs : b'.slots = b.slots) : FreeBut b' n t := by
  intro x hx hn
  rw [hs] at hx
  rw [(h.known x hx).tickets hk]
  exact hfree x hx hn

theorem driveOneRepair_sole (entry : QueuedRun) :
    Sole P (driveOneRepair Q.toLaneService b entry) := by
  rw [driveOneRepair]
  split
  · exact settleRepair_sole hQ h entry _
  · next ticket _ =>
      split
      · exact settleRepair_sole hQ h entry _
      · next slot hslot =>
          obtain ⟨hk, hp⟩ := hQ.prepare ticket b.outside h.outside
          have hprep : Sole P { b with outside := (Q.prepareRerun ticket b.outside).2 } :=
            h.of_slots rfl hp hk
          have hfree : FreeBut { b with outside := (Q.prepareRerun ticket b.outside).2 }
              slot.slotNumber ticket.id := FreeBut.keeps h (holdEnded_ok hslot) hk rfl
          dsimp only
          generalize (if _ = "" then _ else _) = reason
          split
          · exact settleRepair_sole hQ hprep entry _
          · split
            · exact hprep.of_slots rfl hp (.refl _)
            · next d hd => exact retryHeld_sole hQ hprep hd hfree

theorem driveRepairingEntries_sole :
    Sole P (driveRepairingEntries Q.toLaneService b) := by
  have hloop : ∀ (ids : List EntryId) (b : Board), Sole P b →
      Sole P (ids.foldl (driveHeld Q.toLaneService) b) := by
    intro ids
    induction ids with
    | nil => exact fun _ h => h
    | cons i ids ih =>
      intro b h
      refine ih _ ?_
      rw [driveHeld]
      split
      · exact h
      · next entry _ => exact driveOneRepair_sole hQ h entry
  exact hloop _ b h

theorem reconcileEntries_sole :
    Sole P (reconcileEntries Q.toLaneService b) := by
  have hdrive := driveRepairingEntries_sole hQ (b := { b with
    entries := rehomeRetiredLaneEntries Q.toLaneService
      (requeueStrandedEntries Q.toLaneService b.entries) })
    (h.of_slots rfl h.outside (.refl _))
  rw [reconcileEntries]
  exact hdrive.of_slots rfl hdrive.outside (.refl _)

omit hQ h in
theorem foldl_releaseSlot_sole (h : Sole P b) (ns : List Nat) :
    Sole P (ns.foldl releaseSlot b) := by
  induction ns generalizing b with
  | nil => exact h
  | cons n ns ih => exact ih (releaseSlot_sole h n)

omit hQ h in
theorem releaseNestedSlotClaims_sole (h : Sole P b) : Sole P (releaseNestedSlotClaims L b).1 := by
  have hloop : ∀ (ns : List Nat) (b : Board), Sole P b → Sole P (ns.foldl
      (fun b n => (releaseSlot b n).updateSlot n fun s => { s with assignedAt := none }) b) := by
    intro ns
    induction ns with
    | nil => exact fun _ h => h
    | cons n ns ih => exact fun b h => ih _ ((releaseSlot_sole h n).stamped rfl rfl)
  exact hloop _ _ (initializeSlots_sole h)

theorem startLanes_sole (ns : List Nat) :
    Sole P (startLanes Q.toLaneService ns b) := by
  induction ns generalizing b with
  | nil => exact h
  | cons n ns ih => exact ih (startLaneHead_sole hQ h n)

end

/-! ## Adopting orphans -/

/-- An orchestration found under its own id, of a ticket that works in no lane. -/
structure Adoptable (b : Board) (run : OrchestrationRun) : Prop where
  found : b.outside.orchestration run.id = some run
  free : ∀ x ∈ b.slots, run.ticketId ∉ slotTickets b.outside x

theorem adoptOrphan_but (b : Board) (run : OrchestrationRun) (n : Nat) :
    SlotsBut n b (adoptOrphan b run n) :=
  .updateSlot rfl fun _ => rfl

theorem adoptOrphan_tickets {run : OrchestrationRun}
    (hfound : b.outside.orchestration run.id = some run)
    (hs : (adoptOrphan b run n).slot n = some s) :
    Known b.outside s ∧ slotTickets b.outside s = [run.ticketId] := by
  have hself : (adoptOrphan b run n).slot n = _ := slot_updateSlot_self rfl fun _ => rfl
  obtain ⟨x, -, rfl⟩ := map_eq_some_iff.mp (hself.symm.trans hs)
  refine ⟨⟨fun i hi => ?_, fun i hi => ?_⟩, slotTickets_orchestration rfl rfl hfound⟩
  · cases hi
  · cases hi
    exact ⟨run, hfound⟩

theorem adoptOrphan_sole (h : Sole P b) {run : OrchestrationRun} (hrun : Adoptable b run) :
    Sole P (adoptOrphan b run n) := by
  refine h.but (T := (· = run.ticketId)) (adoptOrphan_but b run n) h.outside (.refl _)
    (fun s' hs' => ?_) ?_
  · obtain ⟨hknown, htickets⟩ := adoptOrphan_tickets hrun.found hs'
    refine ⟨hknown, fun t ht => ?_⟩
    have ht : t ∈ slotTickets b.outside s' := ht
    rw [htickets] at ht
    exact .inr (mem_singleton.mp ht)
  · rintro t rfl x hx -
    exact hrun.free x hx

theorem Adoptable.after (h : Sole P b) {run run' : OrchestrationRun} (hrun : Adoptable b run)
    (hrun' : Adoptable b run') (hne : run.ticketId ≠ run'.ticketId) :
    Adoptable (adoptOrphan b run n) run' where
  found := hrun'.found
  free x hx ht := by
    have ht : run'.ticketId ∈ slotTickets b.outside x := ht
    have hpool := (adoptOrphan_but b run n).pool h.pool
    by_cases hn : x.slotNumber = n
    · have hslot := (slot_eq_some hpool).mpr ⟨hx, hn⟩
      rw [(adoptOrphan_tickets hrun.found hslot).2] at ht
      exact hne (mem_singleton.mp ht).symm
    · exact hrun'.free x (((adoptOrphan_but b run n).mem h.pool hn).mp hx) ht

theorem foldl_adoptOrphan_sole (pairs : List (OrchestrationRun × Nat)) (h : Sole P b)
    (hruns : ∀ p ∈ pairs, Adoptable b p.1)
    (hne : pairs.Pairwise fun p q => p.1.ticketId ≠ q.1.ticketId) :
    Sole P (pairs.foldl (fun b p => adoptOrphan b p.1 p.2) b) := by
  induction pairs generalizing b with
  | nil => exact h
  | cons p pairs ih =>
    obtain ⟨hfirst, hrest⟩ := pairwise_cons.mp hne
    have hp := hruns p mem_cons_self
    refine ih (adoptOrphan_sole h hp) (fun q hq => ?_) hrest
    exact hp.after h (hruns q (mem_cons_of_mem _ hq)) (hfirst q hq)

theorem zip_fst_sublist {α β : Type*} (xs : List α) (ys : List β) :
    ((xs.zip ys).map Prod.fst).Sublist xs := by
  induction xs generalizing ys with
  | nil => exact nil_sublist []
  | cons x xs ih =>
    cases ys with
    | nil => exact nil_sublist _
    | cons y ys => exact (ih ys).cons_cons x

theorem claimOrphanedOrchestrations_sole (h : Sole Outside.Once b) :
    Sole Outside.Once (claimOrphanedOrchestrations L b) := by
  have hinit : Sole Outside.Once (initializeSlots L b) := initializeSlots_sole h
  refine foldl_adoptOrphan_sole (orphanClaims (initializeSlots L b)) hinit ?_ ?_
  · intro p hp
    obtain ⟨hmem, hcond⟩ := mem_filter.mp (of_mem_zip hp).1
    obtain ⟨-, -, -, hnone⟩ := of_decide_eq_true hcond
    exact ⟨find?_of_nodup hinit.outside.ids hmem,
      fun x hx => ticketsHoldingLanes_eq_nil.mp hnone x hx (by simp)⟩
  · -- orphans are live, so no two of them are of one ticket
    have hfst : ((orphanClaims (initializeSlots L b)).map Prod.fst).Pairwise
        fun r r' => r.ticketId ≠ r'.ticketId := by
      refine List.Pairwise.sublist (zip_fst_sublist _ _) ?_
      refine pairwise_filter.mpr (hinit.outside.live.imp fun hne hp hq => ?_)
      exact hne (of_decide_eq_true hp).1 (of_decide_eq_true hq).1
    rw [pairwise_map] at hfst
    exact hfst

/-- **The reconcile sweep** keeps one lane per ticket. -/
theorem reconcileLanes_sole (hQ : Q.Keeps Outside.Once) (h : Sole Outside.Once b) :
    Sole Outside.Once (reconcileLanes Q.toLaneService b).1 := by
  have hentries := reconcileEntries_sole hQ h
  rw [reconcileLanes]
  generalize reconcileEntries Q.toLaneService b = b' at hentries ⊢
  have hslots : Sole Outside.Once (reconcileSlots b').1 := foldl_releaseSlot_sole hentries _
  have hnested := releaseNestedSlotClaims_sole (L := Q.toLaneService) hslots
  exact claimOrphanedOrchestrations_sole
    (startLanes_sole hQ (initializeSlots_sole (L := Q.toLaneService) hnested) _)

theorem Sole.weaken {P' : Outside → Prop} (h : Sole P b) (hP : P' b.outside) : Sole P' b :=
  ⟨h.pool, hP, h.known, h.sole⟩

/-- Nothing is asked of the rest of the program but that it keeps tickets. -/
abbrev AnyOutside : Outside → Prop := fun _ => True

section

variable (hQ : Q.Keeps AnyOutside) (hQ' : Q.Keeps Outside.Once) (h : Sole AnyOutside b)
include hQ hQ' h

theorem serve_sole {call : HolderCall} (hk : KeepsSole b call) :
    Sole AnyOutside (call.serve Q b) := by
  cases call with
  | reserveOrchestration ticketId ask preferred =>
    exact reserve_sole hQ h ticketId .orchestration "" ask preferred none
  | reserveStage ticketId stageKey ask preferred orch =>
    exact reserve_sole hQ h ticketId .stage stageKey ask preferred orch
  | bind res run orch => exact bind_sole h hk
  | startLaneHead n => exact startLaneHead_sole hQ h n
  | onOrchestrationComplete orch => exact onOrchestrationComplete_sole hQ h orch
  | onRunComplete run => exact onRunComplete_sole hQ h hk
  | reconcileLanes => exact (reconcileLanes_sole hQ' (h.weaken hk)).weaken trivial

theorem step_sole {step : Outside × HolderCall} (hs : SoleStep Q b step b') :
    Sole AnyOutside b' := by
  obtain ⟨hk, ho, rfl⟩ := hs
  exact serve_sole hQ hQ' (b := { b with outside := step.1 }) (h.of_slots rfl trivial ho) hk

end

/-- In a `Sole` pool the answer of `tickets_holding_lanes` for a ticket is one slot
    number, if it is any. -/
theorem Sole.holding (h : Sole P b) (ticketId : TicketId) :
    (ticketsHoldingLanes b none ticketId).length ≤ 1 := by
  rw [ticketsHoldingLanes, length_insertionSort]
  generalize hnums : ((b.slots.filter fun s => some s.slotNumber ≠ none ∧
    ticketId ∈ slotTickets b.outside s).map (·.slotNumber)) = nums
  have hsame : ∀ n ∈ nums, ∀ m ∈ nums, n = m := by
    intro n hn m hm
    rw [← hnums] at hn hm
    obtain ⟨s, hs, rfl⟩ := mem_map.mp hn
    obtain ⟨s', hs', rfl⟩ := mem_map.mp hm
    obtain ⟨hmem, hcond⟩ := mem_filter.mp hs
    obtain ⟨hmem', hcond'⟩ := mem_filter.mp hs'
    exact h.sole s hmem s' hmem' ticketId (of_decide_eq_true hcond).2 (of_decide_eq_true hcond').2
  have hnodup := nodup_dedup nums
  cases hd : nums.dedup with
  | nil => exact Nat.zero_le _
  | cons n rest =>
    cases rest with
    | nil => exact Nat.le_refl _
    | cons m rest =>
      -- two numbers, each once, would be equal
      rw [hd] at hnodup
      have hn : n ∈ nums := mem_dedup.mp (hd ▸ mem_cons_self)
      have hm : m ∈ nums := mem_dedup.mp (hd ▸ mem_cons_of_mem _ mem_cons_self)
      rw [hsame n hn m hm] at hnodup
      exact absurd mem_cons_self (nodup_cons.mp hnodup).1

/-- **One lane per ticket**: from slots that name nobody, in every run that meets the
    condition, `tickets_holding_lanes` maps no ticket to two slots. -/
theorem one_lane_per_ticket (hQ : Q.Keeps AnyOutside) (hQ' : Q.Keeps Outside.Once)
    {trace : List (Outside × HolderCall)} (hp : b.Pool)
    (h0 : ∀ s ∈ b.slots, s.currentRunId = none ∧ s.currentOrchestrationRunId = none)
    (hr : Run (SoleStep Q) b trace b') :
    ∀ ticketId, (ticketsHoldingLanes b' none ticketId).length ≤ 1 := by
  have hstart : Sole AnyOutside b := by
    refine ⟨hp, trivial, fun s hs => .nameless _ (h0 s hs).1 (h0 s hs).2, ?_⟩
    intro s hs s' _ t ht
    rw [slotTickets_nameless _ (h0 s hs).1 (h0 s hs).2] at ht
    cases ht
  have hend : Sole AnyOutside b' := Run.invariant (P := Sole AnyOutside)
    (fun _ _ _ h hs => step_sole hQ hQ' h hs) hstart hr
  exact hend.holding

/-! ## Two slots -/

theorem Outside.Keeps.of_tickets
    (hruns : ∀ r ∈ o.runs, (o'.run r.id).map (·.ticketId) = (o.run r.id).map (·.ticketId))
    (horchs : ∀ r ∈ o.orchestrations,
      (o'.orchestration r.id).map (·.ticketId) = (o.orchestration r.id).map (·.ticketId)) :
    o.Keeps o' where
  runs id r hr := by
    have hid : r.id = id := by simpa using List.find?_some (l := o.runs) hr
    have h := hruns r (mem_of_find?_eq_some hr)
    rw [hid, hr] at h
    exact map_eq_some_iff.mp h
  orchestrations id r hr := by
    have hid : r.id = id := by simpa using List.find?_some (l := o.orchestrations) hr
    have h := horchs r (mem_of_find?_eq_some hr)
    rw [hid, hr] at h
    exact map_eq_some_iff.mp h

def nextId (ids : List Nat) : Nat := ids.foldr max 0 + 1

theorem nextId_notMem (ids : List Nat) : nextId ids ∉ ids := by
  have hle : ∀ id ∈ ids, id ≤ ids.foldr max 0 := by
    intro id hid
    induction ids with
    | nil => cases hid
    | cons first ids ih =>
      rcases mem_cons.mp hid with rfl | hid
      · exact Nat.le_max_left _ _
      · exact (ih hid).trans (Nat.le_max_right _ _)
  intro h
  have := hle _ h
  rw [nextId] at this
  omega

def startRun (ticket : Ticket) (o : Outside) : Except String Nat × Outside :=
  let id := nextId (o.runs.map (·.id))
  (.ok id, { o with runs := o.runs ++ [{ id := id, ticketId := ticket.id, status := .running }] })

/-- A new orchestration, of a ticket that has no live one. -/
def startOrchestration (ticket : Ticket) (o : Outside) : Option Nat × Outside :=
  if o.orchestrations.any fun r => r.status.live && r.ticketId == ticket.id then (none, o)
  else
    let id := nextId (o.orchestrations.map (·.id))
    (some id, { o with orchestrations := o.orchestrations
      ++ [{ id := id, ticketId := ticket.id, status := .running }] })

theorem startRun_keeps (ticket : Ticket) (o : Outside) : o.Keeps (startRun ticket o).2 where
  runs id r hr := ⟨r, by
    show List.find? _ (_ ++ _) = some r
    rw [List.find?_append, show o.runs.find? _ = some r from hr, some_or], rfl⟩
  orchestrations id r hr := ⟨r, hr, rfl⟩

theorem startRun_run (ticket : Ticket) (o : Outside) :
    ((startRun ticket o).2.run (nextId (o.runs.map (·.id)))).map (·.ticketId)
      = some ticket.id := by
  have hnone : o.runs.find? (fun r => decide (r.id = nextId (o.runs.map (·.id)))) = none := by
    refine List.find?_eq_none.mpr fun r hr hid => nextId_notMem (o.runs.map (·.id)) ?_
    exact mem_map.mpr ⟨r, hr, of_decide_eq_true hid⟩
  simp [startRun, Outside.run, hnone]

theorem startOrchestration_keeps (ticket : Ticket) (o : Outside) :
    o.Keeps (startOrchestration ticket o).2 := by
  rw [startOrchestration]
  split
  · exact .refl o
  · refine ⟨fun id r hr => ⟨r, hr, rfl⟩, fun id r hr => ⟨r, ?_, rfl⟩⟩
    show List.find? _ (_ ++ _) = some r
    rw [List.find?_append, show o.orchestrations.find? _ = some r from hr, some_or]

theorem startOrchestration_orchestration {ticket : Ticket} {id : Nat}
    (h : (startOrchestration ticket o).1 = some id) :
    ((startOrchestration ticket o).2.orchestration id).map (·.ticketId) = some ticket.id := by
  rw [startOrchestration] at h ⊢
  split at h
  · cases h
  · rename_i hlive
    rw [if_neg hlive]
    simp only [Option.some.injEq] at h
    subst h
    have hnone : o.orchestrations.find?
        (fun r => decide (r.id = nextId (o.orchestrations.map (·.id)))) = none := by
      refine List.find?_eq_none.mpr fun r hr hid =>
        nextId_notMem (o.orchestrations.map (·.id)) ?_
      exact mem_map.mpr ⟨r, hr, of_decide_eq_true hid⟩
    simp [Outside.orchestration, hnone]

theorem startOrchestration_once (ticket : Ticket) (h : o.Once) :
    (startOrchestration ticket o).2.Once := by
  rw [startOrchestration]
  split
  · exact h
  · rename_i hlive
    refine ⟨?_, pairwise_append.mpr ⟨h.live, pairwise_singleton _ _, ?_⟩⟩
    · rw [map_append]
      refine h.ids.append (nodup_singleton _) ?_
      intro id hid hnew
      exact nextId_notMem _ (mem_singleton.mp hnew ▸ hid)
    · -- the ticket has no live orchestration, so the new one is its only one
      rintro r hr r' hr' hlv - ht
      rw [mem_singleton.mp hr'] at ht
      exact hlive (any_eq_true.mpr ⟨r, hr, by simp [hlv, ht]⟩)

/-- Two slots, and a dispatcher that starts one orchestration of a ticket at a time. -/
def twoSlots : QueueService where
  maxConcurrent := 2
  one_le := Nat.le_succ 1
  rowOrder := id
  dispatcher := some {
    dispatchStage := fun ticket _ o => startRun ticket o
    dispatchOrchestration := fun ticket _ o => startOrchestration ticket o }
  prepareRerun := fun _ o => ("", o)
  dispatchRun := fun _ o => o
  stderr := fun _ _ => ""
  stageBlocked := fun _ _ => false

theorem twoSlots_keeps (hrun : ∀ ticket o, P o → P (startRun ticket o).2)
    (horch : ∀ ticket o, P o → P (startOrchestration ticket o).2) : twoSlots.Keeps P where
  prepare _ o h := ⟨.refl o, h⟩
  run _ o h := ⟨.refl o, h⟩
  stage d hd ticket _ o h := by
    cases hd
    refine ⟨startRun_keeps ticket o, hrun ticket o h, fun id hid => ?_⟩
    cases hid
    exact map_eq_some_iff.mp (startRun_run ticket o)
  whole d hd ticket _ o h := by
    cases hd
    refine ⟨startOrchestration_keeps ticket o, horch ticket o h, fun id hid => ?_⟩
    exact map_eq_some_iff.mp (startOrchestration_orchestration hid)

def twoFreeSlots : Board where
  entries := Keyed.empty
  slots := [{ slotNumber := 1 }, { slotNumber := 2 }]
  outside := {}

def boardAfter (trace : List (Outside × HolderCall)) : Board :=
  trace.foldl (fun b step => step.2.serve twoSlots { b with outside := step.1 }) twoFreeSlots

/-- Orchestration 1 is of ticket 1 and run 1 is of `ticketId`. -/
def workOf (orch : OrchestrationRunStatus) (ticketId : TicketId) : Outside where
  tickets := [{ id := 1 }, { id := 2 }, { id := 3 }]
  orchestrations := [{ id := 1, ticketId := 1, status := orch }]
  runs := [{ id := 1, ticketId := ticketId, status := .running }]

/-- An orchestration of ticket 1 in slot 1, then a stage of run 1's ticket in slot 2. -/
def bothBound (ticketId : TicketId) : List (Outside × HolderCall) :=
  [(workOf .running ticketId, .reserveOrchestration 1 {} none),
    (workOf .running ticketId, .bind { admitted := true, slotNumber := 1 } none (some 1)),
    (workOf .running ticketId, .reserveStage ticketId "build" {} none none),
    (workOf .running ticketId, .bind { admitted := true, slotNumber := 2 } (some 1) none)]

/-- Ticket 3 waits for the first lane, which orchestration 1 then gives back. -/
def takeover : List (Outside × HolderCall) :=
  bothBound 2 ++ [(workOf .running 2, .reserveOrchestration 3 {} (some 1)),
    (workOf .succeeded 2, .onOrchestrationComplete 1)]

theorem keeps_workOf (orch : OrchestrationRunStatus) (ticketId : TicketId) :
    twoFreeSlots.outside.Keeps (workOf orch ticketId) :=
  .of_tickets (fun _ hr => by cases hr) (fun _ hr => by cases hr)

theorem workOf_keeps (orch orch' : OrchestrationRunStatus) (ticketId : TicketId) :
    (workOf orch ticketId).Keeps (workOf orch' ticketId) :=
  .of_tickets (fun r hr => by rw [mem_singleton.mp hr]; rfl)
    (fun r hr => by rw [mem_singleton.mp hr]; rfl)

/-- Tickets 1 and 2 are bound, and the waiting ticket 3 takes the first lane over. -/
theorem one_lane_per_ticket_takeover :
    (ticketsHoldingLanes (boardAfter takeover) none 3).length ≤ 1 := by
  have hpool : twoFreeSlots.Pool := nodup_cons.mpr ⟨by decide, nodup_singleton 2⟩
  have hr : Run (SoleStep twoSlots) twoFreeSlots takeover (boardAfter takeover) := by
    refine .cons ⟨trivial, keeps_workOf _ _, rfl⟩ (.cons ⟨fun _ _ => ⟨?_, ?_⟩, .refl _, rfl⟩
      (.cons ⟨trivial, .refl _, rfl⟩ (.cons ⟨fun _ _ => ⟨?_, ?_⟩, .refl _, rfl⟩
      (.cons ⟨trivial, .refl _, rfl⟩ (.cons ⟨trivial, workOf_keeps _ _ _, rfl⟩ (.nil _))))))
    · intro id hid
      cases hid
    · intro id hid
      cases hid
      exact ⟨_, rfl, by unfold FreeBut; decide +kernel⟩
    · intro id hid
      cases hid
      exact ⟨_, rfl, by unfold FreeBut; decide +kernel⟩
    · intro id hid
      cases hid
  exact one_lane_per_ticket (twoSlots_keeps (fun _ _ h => h) fun _ _ h => h)
    (twoSlots_keeps (fun _ _ h => ⟨h.ids, h.live⟩)
      fun ticket _ h => startOrchestration_once ticket h)
    hpool (by decide) hr 3

/-- An orchestration of ticket 1 holds slot 1, and a stage of ticket 1 is given slot 2;
    and two live orchestrations of ticket 1 are adopted in one pass. -/
theorem one_ticket_two_lanes : (∃ trace b, Run (HolderStep twoSlots) twoFreeSlots trace b ∧
      ticketsHoldingLanes b none 1 = [1, 2]) ∧
    ∃ o, Run (HolderStep twoSlots) twoFreeSlots [(o, .reconcileLanes)]
        (boardAfter [(o, .reconcileLanes)]) ∧
      ticketsHoldingLanes (boardAfter [(o, .reconcileLanes)]) none 1 = [1, 2] := by
  constructor
  · refine ⟨bothBound 1, boardAfter (bothBound 1), ?_, by decide +kernel⟩
    exact .cons ⟨keeps_workOf _ _, rfl⟩ (.cons ⟨.refl _, rfl⟩ (.cons ⟨.refl _, rfl⟩
      (.cons ⟨.refl _, rfl⟩ (.nil _))))
  · refine ⟨{ orchestrations := [{ id := 1, ticketId := 1, status := .running },
      { id := 2, ticketId := 1, status := .running }] }, ?_, by decide +kernel⟩
    exact .cons ⟨.of_tickets (fun _ hr => by cases hr) (fun _ hr => by cases hr), rfl⟩ (.nil _)

end Loregarden.Lanes
