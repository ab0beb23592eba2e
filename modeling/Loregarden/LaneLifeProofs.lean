import Loregarden.LaneDrainProofs

/-! # What the lane calls may make of an entry

    A property of entries that survives the few changes a lane call makes to a
    row survives the whole call. The changes are named once:

    * `StartKept`: what starting the head of a lane does to the entries;
    * `CompletionKept`: what the end of an orchestration adds to it;
    * `SweepKept`: what the reconcile sweep adds to it.

    Each call is then one lemma over an arbitrary property. -/

namespace Loregarden.Lanes

open Ranked List

variable {L : LaneService} {P : QueuedRun → Prop} {lanes : Nat → Prop} {k n : Nat}
  {t t' : EntryTable} {b : Board} {entry : QueuedRun}

/-- Every entry has the property, and the ids from `k` on are new or were handed out since. -/
structure Every (P : QueuedRun → Prop) (k : Nat) (t : EntryTable) : Prop where
  le_next : k ≤ t.next
  all : ∀ e ∈ t.rows, P e

theorem Every.write {f : QueuedRun → QueuedRun} (hrows : t'.rows = t.rows.map f)
    (hnext : t'.next = t.next) (h : Every P k t) (hP : ∀ e ∈ t.rows, P e → P (f e)) :
    Every P k t' := by
  refine ⟨hnext ▸ h.le_next, fun e' he' => ?_⟩
  rw [hrows] at he'
  obtain ⟨e, he, rfl⟩ := mem_map.mp he'
  exact hP e he (h.all e he)

theorem Every.updateId {g : QueuedRun → QueuedRun} {i : EntryId}
    (hrows : t'.rows = t.rows.map fun e => if e.id = i then g e else e) (hnext : t'.next = t.next)
    (h : Every P k t) (hP : ∀ e ∈ t.rows, e.id = i → P e → P (g e)) : Every P k t' := by
  refine h.write hrows hnext fun e he hPe => ?_
  by_cases hid : e.id = i
  · rw [if_pos hid]
    exact hP e he hid hPe
  · rw [if_neg hid]
    exact hPe

theorem Every.update {g : QueuedRun → QueuedRun}
    (hrows : t'.rows = t.rows.map fun e => if e.id = entry.id then g e else e)
    (hnext : t'.next = t.next) (h : Every P k t) (hmem : entry ∈ t.rows) (hP : P (g entry)) :
    Every P k t' :=
  h.updateId hrows hnext fun _ he hid _ => (Keyed.eq_of_id he hmem hid) ▸ hP

theorem Every.delete (h : Every P k t) (i : EntryId) : Every P k (t.delete i) :=
  ⟨h.le_next, fun e he => h.all e (mem_filter.mp he).1⟩

theorem Every.insert {e : QueuedRun} (h : Every P k t) (he : e.id = t.next) (hP : P e) :
    Every P k (t.insert e he) := by
  refine ⟨Nat.le_succ_of_le h.le_next, fun x hx => ?_⟩
  rcases mem_append.mp hx with hx | hx
  · exact h.all x hx
  · rw [mem_singleton.mp hx]
    exact hP

theorem map_update_update {g g' : QueuedRun → QueuedRun} {i : EntryId}
    {rows rows' rows'' : List QueuedRun} (h : rows' = rows.map fun e => if e.id = i then g e else e)
    (h' : rows'' = rows'.map fun e => if e.id = i then g' e else e) (hg : ∀ e, (g e).id = e.id) :
    rows'' = rows.map fun e => if e.id = i then g' (g e) else e := by
  rw [h', h, map_map]
  refine map_congr_left fun e _ => ?_
  rw [Function.comp_apply]
  by_cases hid : e.id = i
  · rw [if_pos hid, if_pos hid, if_pos ((hg e).trans hid)]
  · rw [if_neg hid, if_neg hid, if_neg hid]

/-! ## Starting the head of a lane -/

/-- Kept when the head of one of some lanes is started, or refused. -/
structure StartKept (lanes : Nat → Prop) (P : QueuedRun → Prop) : Prop where
  renumbered : ∀ e p, P e → P { e with position := p }
  refused : ∀ e reason, P e → P { e with failureReason := reason }
  startedStage : ∀ e n run now, lanes n → e.inLane n = true → e.entryKind = .stage → P e →
    P { e with runId := some run, status := .active, promotedAt := some now }
  startedWhole : ∀ e n orch now, lanes n → e.inLane n = true → e.entryKind = .orchestration →
    P e → P { e with orchestrationRunId := some orch, status := .active, promotedAt := some now }

theorem numbered_keeps (hP : ∀ e p, P e → P { e with position := p }) (order : List EntryId)
    {e : QueuedRun} (h : P e) : P (numbered order e) := by
  rw [numbered]
  split
  · exact hP e _ h
  · exact h

section

variable (hP : StartKept lanes P)
include hP

theorem StartKept.numbered (order : List EntryId) {e : QueuedRun}
    (h : P e) : P (numbered order e) :=
  numbered_keeps hP.renumbered order h

theorem Every.renumber (h : Every P k t) (n : Nat)
    (insertAt : Option (EntryId × Int)) : Every P k (renumber L n insertAt t) :=
  h.write rfl rfl fun _ _ => hP.numbered _

theorem Every.renumberLanes (h : Every P k t) (ns : List Nat) :
    Every P k (renumberLanes L ns t) := by
  induction ns generalizing t with
  | nil => exact h
  | cons n ns ih => exact ih (h.renumber hP n none)

theorem Every.refuse (h : Every P k b.entries) (i : EntryId)
    (reason : String) : Every P k (b.refuse i reason).entries := by
  refine h.write rfl rfl fun e _ hPe => ?_
  split
  · exact hP.refused e reason hPe
  · exact hPe

omit hP in
theorem head_mem (h : (waitingInLane L t n).head? = some entry) :
    entry ∈ t.rows ∧ entry.inLane n = true :=
  mem_waitingInLane.mp (mem_of_mem_head? h)

theorem dispatchHead_every (hn : lanes n) (d : Dispatcher)
    (ticket : Ticket) (hmem : entry ∈ b.entries.rows) (hin : entry.inLane n = true)
    (h : Every P k b.entries) : Every P k (dispatchHead L n entry d ticket b).1.entries := by
  have hentry := h.all entry hmem
  rw [dispatchHead]
  split
  · exact h.refuse hP _ _
  · rw [startEntryWork]
    cases hk : entry.entryKind with
    | stage =>
      obtain ⟨result, o⟩ := d.dispatchStage ticket entry b.outside
      cases result with
      | error reason => exact Every.refuse (b := { b with outside := o }) hP h _ _
      | ok run =>
        refine Every.renumber hP ?_ n none
        exact h.update (map_update_update rfl rfl fun _ => rfl) rfl hmem
          (hP.startedStage entry n run o.now hn hin hk hentry)
    | orchestration =>
      obtain ⟨result, o⟩ := d.dispatchOrchestration ticket entry.ask b.outside
      cases result with
      | none => exact h
      | some orch =>
        refine Every.renumber hP ?_ n none
        exact h.update (map_update_update rfl rfl fun _ => rfl) rfl hmem
          (hP.startedWhole entry n orch o.now hn hin hk hentry)

theorem startLaneHeadFrom_every (hn : lanes n) (fuel : Nat)
    (h : Every P k b.entries) : Every P k (startLaneHeadFrom L n fuel b).1.entries := by
  induction fuel generalizing b with
  | zero => exact h
  | succ fuel ih =>
    rw [startLaneHeadFrom]
    split
    · split
      · exact h
      · exact h.refuse hP _ _
    · split
      · exact h
      · next b' hclaim =>
          rw [← claimLaneSlot_entries hclaim] at h
          split
          · exact h
          · exact h
          · next head d hhead _ =>
              obtain ⟨hmem, hin⟩ := head_mem hhead
              split
              · exact ih (b := releaseSlot ((b'.delete head.id).renumber L n) n)
                  ((h.delete head.id).renumber hP n none)
              · exact dispatchHead_every hP hn d _ hmem hin h

def Board.laneIdle (b : Board) (n : Nat) : Prop := ∃ s, b.slot n = some s ∧ s.isAvailable = true

omit hP in
theorem laneIdle_of_claim {b' : Board} (h : claimLaneSlot b n = some b') : b.laneIdle n := by
  rw [claimLaneSlot] at h
  split at h
  · cases h
  · next s hs =>
      split at h
      · next hfree => exact ⟨s, hs, hfree⟩
      · cases h

/-- **Starting a lane's head** keeps what its few changes keep, and changes nothing
    but a refusal's text where the lane is not idle. -/
theorem startLaneHead_every (hn : b.laneIdle n → lanes n)
    (h : Every P k b.entries) : Every P k (startLaneHead L b n).1.entries := by
  by_cases hidle : b.laneIdle n
  · exact startLaneHeadFrom_every hP (hn hidle) _ h
  · rw [startLaneHead, startLaneHeadFrom]
    split
    · split
      · exact h
      · exact h.refuse hP _ _
    · split
      · exact h
      · next hclaim => exact absurd (laneIdle_of_claim hclaim) hidle

omit hP in
theorem startAdded_board (L : LaneService) (n : Nat) (idle : Bool) (i : EntryId) (b : Board) :
    (startAdded L n idle i b).1 = if idle then (startLaneHead L b n).1 else b := by
  rw [startAdded]
  cases idle with
  | false => rfl
  | true =>
    rw [if_pos rfl, if_pos rfl]
    dsimp only
    split <;> rfl

theorem startAdded_every {idle : Bool} (hn : idle = true → lanes n)
    (i : EntryId) (h : Every P k b.entries) :
    Every P k (startAdded L n idle i b).1.entries := by
  rw [startAdded_board]
  split
  · next hidle => exact startLaneHead_every hP (fun _ => hn hidle) h
  · exact h

/-- Adding to a lane keeps what the new entry has too, and starts the lane only where it is idle. -/
theorem addToLane_every {ticketId : TicketId} {kind : QueueEntryKind}
    {stageKey : String} {ask : Ask} (hn : (initializeSlots L b).laneIdle n → lanes n)
    (hnew : ∀ e : QueuedRun, k ≤ e.id → e.status = .queued → e.entryKind = kind →
      e.stageKey = stageKey → e.ask = ask → e.runId = none → e.orchestrationRunId = none → P e)
    (h : Every P k b.entries) :
    Every P k (addToLane L b ticketId n kind stageKey ask).1.entries := by
  rw [addToLane]
  split
  · exact h
  · next ticket _ =>
      dsimp only
      split
      · exact h
      · next slot hslot =>
          split
          · exact h
          · split
            · exact h
            · refine startAdded_every (b := { initializeSlots L b with
                entries := (initializeSlots L b).entries.insert
                  (newEntry L b.entries ticket n kind stageKey ask) rfl }) hP
                (fun hfree => hn ⟨slot, hslot, hfree⟩) _ ?_
              exact h.insert rfl (hnew _ h.le_next rfl rfl rfl rfl rfl rfl)

/-! ## The end of an orchestration -/

/-- Kept, besides, when an orchestration ends and its entry is settled or held. -/
structure CompletionKept (lanes : Nat → Prop) (P : QueuedRun → Prop) : Prop
    extends StartKept lanes P where
  settled : ∀ e, e.orchestrationRunId.isSome → P e → P (settled e)
  held : ∀ e now, e.orchestrationRunId.isSome → P e →
    P { e with status := .repairing, repairingSince := some now }

/-- The lanes the end of an orchestration may start: those it holds, and the one
    its entry left busy with nothing. -/
def completionLanes (b : Board) (orch n : Nat) : Prop :=
  (∃ s ∈ b.slots, s.currentOrchestrationRunId = some orch ∧ s.slotNumber = n) ∨
    ∃ e s, entryOfOrchestration b.entries orch = some e ∧ slotLeftBusyBy b e = some s ∧
      s.slotNumber = n

omit hP in
theorem entryOfOrchestration_some {orch : Nat} (h : entryOfOrchestration t orch = some entry) :
    entry ∈ t.rows ∧ entry.orchestrationRunId = some orch :=
  ⟨mem_of_find?_eq_some h, by simpa using List.find?_some h⟩

theorem startReleased_every {slot : Option AgentSlot}
    (hslot : ∀ s ∈ slot, lanes s.slotNumber) (h : Every P k b.entries) :
    Every P k (slot.elim b fun s =>
      (startLaneHead L (releaseSlot b s.slotNumber) s.slotNumber).1).entries := by
  cases slot with
  | none => exact h
  | some s =>
    exact startLaneHead_every (b := releaseSlot b s.slotNumber) hP (fun _ => hslot s rfl) h

end

theorem settleAndFree_eq (L : LaneService) (b : Board) (entry : Option QueuedRun)
    (slot : Option AgentSlot) :
    settleAndFree L b entry slot = (fun b : Board => slot.elim b fun s =>
        (startLaneHead L (releaseSlot b s.slotNumber) s.slotNumber).1)
      (entry.elim b fun e => if e.status = QueuePosition.started then b
        else b.update e.id Lanes.settled fun _ => rfl) := by
  cases entry <;> cases slot <;> rfl

section

variable (hP : CompletionKept lanes P)
include hP

theorem settleAndFree_every {entry : Option QueuedRun} {slot : Option AgentSlot}
    (hentry : ∀ e ∈ entry, ∀ x ∈ b.entries.rows, x.id = e.id → x.orchestrationRunId.isSome)
    (hslot : ∀ s ∈ slot, lanes s.slotNumber) (h : Every P k b.entries) :
    Every P k (settleAndFree L b entry slot).entries := by
  rw [settleAndFree_eq]
  refine startReleased_every hP.toStartKept hslot ?_
  cases entry with
  | none => exact h
  | some e =>
    rw [Option.elim_some]
    split
    · exact h
    · exact h.updateId rfl rfl fun x hx hid => hP.settled x (hentry e rfl x hx hid)

theorem holdForRepair_every (hmem : entry ∈ b.entries.rows)
    (horch : entry.orchestrationRunId.isSome) (h : Every P k b.entries) :
    Every P k (holdForRepair L b entry).1.entries := by
  have hentry := h.all entry hmem
  rw [holdForRepair]
  split
  · dsimp only
    split
    · exact h
    · split
      · exact h.update rfl rfl hmem (hP.refused entry _ hentry)
      · split
        · exact h
        · split
          · exact h
          · exact h.update rfl rfl hmem (hP.held entry _ horch hentry)
  · exact h

theorem CompletionKept.naming (i : EntryId) :
    CompletionKept lanes fun e => P e ∧ (e.id = i → e.orchestrationRunId.isSome) where
  renumbered e p h := ⟨hP.renumbered e p h.1, h.2⟩
  refused e reason h := ⟨hP.refused e reason h.1, h.2⟩
  startedStage e n run now hn hin hk h := ⟨hP.startedStage e n run now hn hin hk h.1, h.2⟩
  startedWhole e n orch now hn hin hk h :=
    ⟨hP.startedWhole e n orch now hn hin hk h.1, fun _ => rfl⟩
  settled e ho h := ⟨hP.settled e ho h.1, h.2⟩
  held e now ho h := ⟨hP.held e now ho h.1, h.2⟩

omit hP in
theorem Every.imp {Q : QueuedRun → Prop} (h : Every P k t) (hQ : ∀ e ∈ t.rows, P e → Q e) :
    Every Q k t :=
  ⟨h.le_next, fun e he => hQ e he (h.all e he)⟩

/-- **The end of an orchestration** keeps what settling, holding and starting keep,
    in the lanes it may start. -/
theorem onOrchestrationComplete_every {orch : Nat}
    (hlanes : ∀ n, completionLanes b orch n → lanes n) (h : Every P k b.entries) :
    Every P k (onOrchestrationComplete L b orch).entries := by
  have hheld : ∀ s ∈ b.slots.find? (·.currentOrchestrationRunId = some orch),
      lanes s.slotNumber := fun s hs =>
    hlanes _ (.inl ⟨s, mem_of_find?_eq_some hs, by simpa using List.find?_some hs, rfl⟩)
  have hnames : ∀ entry, entryOfOrchestration b.entries orch = some entry →
      ∀ x ∈ b.entries.rows, x.id = entry.id → x.orchestrationRunId.isSome := by
    intro entry hentry x hx hid
    obtain ⟨hmem, horch⟩ := entryOfOrchestration_some hentry
    rw [Keyed.eq_of_id hx hmem hid, horch]
    rfl
  rw [onOrchestrationComplete]
  cases hentry : entryOfOrchestration b.entries orch with
  | none => exact settleAndFree_every hP (fun e he => absurd he (Option.not_mem_none e)) hheld h
  | some entry =>
    obtain ⟨hmem, horch⟩ := entryOfOrchestration_some hentry
    cases hslot : b.slots.find? (·.currentOrchestrationRunId = some orch) with
    | none =>
      refine settleAndFree_every hP ?_ ?_ h
      · rintro e ⟨⟩
        exact hnames entry hentry
      · intro s hs
        exact hlanes _ (.inr ⟨entry, s, hentry, hs, rfl⟩)
    | some slot =>
      -- held or not, the entry still names an orchestration when it is settled
      have hhold := holdForRepair_every (L := L) (hP.naming entry.id) hmem
        (by rw [horch]; rfl)
        (h.imp fun x hx hPx => ⟨hPx, hnames entry hentry x hx⟩)
      dsimp only
      cases hheld' : holdForRepair L b entry with
      | mk b' held =>
        rw [hheld'] at hhold
        cases held with
        | true => exact hhold.imp fun _ _ hx => hx.1
        | false =>
          refine settleAndFree_every hP ?_ ?_ (hhold.imp fun _ _ hx => hx.1)
          · rintro e ⟨⟩ x hx
            exact (hhold.all x hx).2
          · rintro s ⟨⟩
            exact hheld slot hslot

end

/-! ## The reconcile sweep -/

/-- Kept when a hold is spent or ended, whatever text the entry is left with. -/
structure RepairKept (P : QueuedRun → Prop) (e : QueuedRun) : Prop where
  settled : ∀ reason, P { settled e with failureReason := reason }
  attempted : ∀ count, P { e with repairAttempts := count }
  refused : ∀ count reason, P { e with repairAttempts := count, failureReason := reason }
  redispatchedStage : ∀ count run now, e.entryKind = .stage → P { e with
      repairAttempts := count, runId := some run, status := .active, promotedAt := some now
      repairingSince := none }
  redispatchedWhole : ∀ count orch now, e.entryKind = .orchestration → P { e with
      repairAttempts := count, orchestrationRunId := some orch, status := .active
      promotedAt := some now, repairingSince := none }

/-- Kept, besides, by the passes of the sweep; `k` is the first new id. -/
structure SweepKept (k : Nat) (P : QueuedRun → Prop) : Prop
    extends StartKept (fun _ => True) P where
  repair : ∀ e, e.status = .repairing → P e → RepairKept P e
  moved : ∀ e n p, P e → P { e with slotNumber := n, position := p }
  requeued : ∀ e, e.stranded = true → P e → P { e with status := .queued, promotedAt := none }
  cancelled : ∀ e, e.status.waiting = true → P e → P { e with status := .cancelled }
  finished : ∀ e, e.status = .active ∨ e.status = .promoted → P e → P { e with status := .started }
  adopted : ∀ e, k ≤ e.id → e.status = .active → e.entryKind = .orchestration →
    e.runId = none → e.orchestrationRunId.isSome → P e

theorem settleRepair_every (hP : StartKept (fun _ => True) P) (hmem : entry ∈ b.entries.rows)
    (hrow : RepairKept P entry) (reason : String) (h : Every P k b.entries) :
    Every P k (settleRepair L b entry reason).entries := by
  have hsettle : Every P k (b.update entry.id
      (fun e => { Lanes.settled e with failureReason := orReason reason e })
      fun _ => rfl).entries :=
    h.update rfl rfl hmem (hrow.settled _)
  rw [settleRepair]
  split
  · exact hsettle
  · exact startLaneHead_every (b := releaseSlot _ _) hP (fun _ => trivial) hsettle

theorem eq_of_update {g : QueuedRun → QueuedRun} {x : QueuedRun}
    (hrows : t'.rows = t.rows.map fun e => if e.id = entry.id then g e else e)
    (hg : ∀ e, (g e).id = e.id) (hmem : entry ∈ t.rows) (hx : x ∈ t'.rows)
    (hid : x.id = entry.id) : x = g entry := by
  have hself : g entry ∈ t'.rows := hrows ▸ mem_map.mpr ⟨entry, hmem, if_pos rfl⟩
  exact Keyed.eq_of_id hx hself (hid.trans (hg entry).symm)

theorem retryHeld_every (hmem : entry ∈ b.entries.rows) (hrow : RepairKept P entry)
    (ticket : Ticket) (slot : AgentSlot) (d : Dispatcher) (h : Every P k b.entries) :
    Every P k (retryHeld b entry ticket slot d).entries := by
  -- the attempt is counted whatever the dispatch answers
  have hcount : Every P k (b.update entry.id
      (fun e => { e with repairAttempts := e.repairAttempts + 1 }) fun _ => rfl).entries :=
    h.update rfl rfl hmem (hrow.attempted _)
  have hcounted : ∀ x ∈ (b.update entry.id
      (fun e => { e with repairAttempts := e.repairAttempts + 1 }) fun _ => rfl).entries.rows,
      x.id = entry.id → x = { entry with repairAttempts := entry.repairAttempts + 1 } :=
    fun _ hx hid => eq_of_update (g := fun e => { e with repairAttempts := e.repairAttempts + 1 })
      rfl (fun _ => rfl) hmem hx hid
  rw [retryHeld]
  rw [startEntryWork]
  cases hk : entry.entryKind with
  | stage =>
    generalize d.dispatchStage ticket entry (Board.outside _) = reply
    obtain ⟨result, o⟩ := reply
    cases result with
    | error reason =>
      refine hcount.updateId rfl rfl fun x hx hid _ => ?_
      rw [hcounted x hx hid]
      exact hrow.refused _ reason
    | ok run =>
      refine hcount.updateId (map_update_update rfl rfl fun _ => rfl) rfl fun x hx hid _ => ?_
      rw [hcounted x hx hid]
      exact hrow.redispatchedStage _ run o.now hk
  | orchestration =>
    generalize d.dispatchOrchestration ticket entry.ask (Board.outside _) = reply
    obtain ⟨result, o⟩ := reply
    cases result with
    | none => exact hcount
    | some orch =>
      refine hcount.updateId (map_update_update rfl rfl fun _ => rfl) rfl fun x hx hid _ => ?_
      rw [hcounted x hx hid]
      exact hrow.redispatchedWhole _ orch o.now hk

theorem driveOneRepair_every (hP : StartKept (fun _ => True) P) (hmem : entry ∈ b.entries.rows)
    (hrow : RepairKept P entry) (h : Every P k b.entries) :
    Every P k (driveOneRepair L b entry).entries := by
  rw [driveOneRepair]
  split
  · exact settleRepair_every hP hmem hrow _ h
  · split
    · exact settleRepair_every hP hmem hrow _ h
    · next slot _ =>
        obtain ⟨refused, o⟩ := L.prepareRerun _ b.outside
        dsimp only
        generalize (if refused = "" then _ else refused) = reason
        split
        · exact settleRepair_every (b := { b with outside := o }) hP hmem hrow _ h
        · split
          · exact h.update rfl rfl hmem (hrow.attempted _)
          · exact retryHeld_every (b := { b with outside := o }) hmem hrow _ slot _ h

section

variable (hP : SweepKept k P)
include hP

/-- Until its turn comes a hold stands: driving one hold starts waiting entries and
    writes the one it drives, and leaves the others repairing. -/
theorem SweepKept.standing (ids : List EntryId) :
    StartKept (fun _ => True) fun e => P e ∧ (e.id ∈ ids → e.status = .repairing) where
  renumbered e p h := ⟨hP.renumbered e p h.1, h.2⟩
  refused e reason h := ⟨hP.refused e reason h.1, h.2⟩
  startedStage e n run now hn hin hk h := by
    refine ⟨hP.startedStage e n run now hn hin hk h.1, fun hid => ?_⟩
    have hwait := (inLane_iff.mp hin).1
    rw [h.2 hid] at hwait
    cases hwait
  startedWhole e n orch now hn hin hk h := by
    refine ⟨hP.startedWhole e n orch now hn hin hk h.1, fun hid => ?_⟩
    have hwait := (inLane_iff.mp hin).1
    rw [h.2 hid] at hwait
    cases hwait

omit hP in
theorem RepairKept.of_not_mem {ids : List EntryId} (h : RepairKept P entry) (hid : entry.id ∉ ids) :
    RepairKept (fun e => P e ∧ (e.id ∈ ids → e.status = .repairing)) entry where
  settled reason := ⟨h.settled reason, fun hmem => absurd hmem hid⟩
  attempted count := ⟨h.attempted count, fun hmem => absurd hmem hid⟩
  refused count reason := ⟨h.refused count reason, fun hmem => absurd hmem hid⟩
  redispatchedStage count run now hk :=
    ⟨h.redispatchedStage count run now hk, fun hmem => absurd hmem hid⟩
  redispatchedWhole count orch now hk :=
    ⟨h.redispatchedWhole count orch now hk, fun hmem => absurd hmem hid⟩

theorem driveHeld_foldl_every (ids : List EntryId) (hids : ids.Nodup)
    (h : Every (fun e => P e ∧ (e.id ∈ ids → e.status = .repairing)) k b.entries) :
    Every P k (ids.foldl (driveHeld L) b).entries := by
  induction ids generalizing b with
  | nil => exact h.imp fun _ _ hx => hx.1
  | cons i ids ih =>
    obtain ⟨hi, hids⟩ := nodup_cons.mp hids
    refine ih hids ?_
    have hrest : Every (fun e => P e ∧ (e.id ∈ ids → e.status = .repairing)) k b.entries :=
      h.imp fun x _ hx => ⟨hx.1, fun hid => hx.2 (mem_cons_of_mem _ hid)⟩
    rw [driveHeld]
    cases hget : b.entries.get i with
    | none => exact hrest
    | some entry =>
      obtain ⟨hmem, rfl⟩ := Keyed.get_eq_some hget
      obtain ⟨hPe, hrep⟩ := h.all entry hmem
      have hrow := (hP.repair entry (hrep mem_cons_self) hPe).of_not_mem hi
      exact driveOneRepair_every (hP.standing ids) hmem hrow hrest

theorem driveRepairingEntries_every (h : Every P k b.entries) :
    Every P k (driveRepairingEntries L b).entries := by
  refine driveHeld_foldl_every hP _ ((filter_sublist.map _).nodup b.entries.nodup) ?_
  refine h.imp fun x hx hPx => ⟨hPx, fun hid => ?_⟩
  obtain ⟨e, he, hid⟩ := mem_map.mp hid
  obtain ⟨he, hrep⟩ := mem_filter.mp he
  obtain rfl := Keyed.eq_of_id hx he hid.symm
  exact of_decide_eq_true hrep

theorem rehomeRetiredLaneEntries_every (h : Every P k t) :
    Every P k (rehomeRetiredLaneEntries L t) := by
  have hloop : ∀ (ids : List EntryId) (t : EntryTable), Every P k t →
      Every P k (ids.foldl (rehome L) t) := by
    intro ids
    induction ids with
    | nil => exact fun _ h => h
    | cons i ids ih =>
      intro t h
      exact ih _ (h.updateId rfl rfl fun e _ _ => hP.moved e _ _)
  exact hloop _ t h

omit hP in
theorem startLanes_every (hP : StartKept (fun _ => True) P) (ns : List Nat)
    (h : Every P k b.entries) : Every P k (startLanes L ns b).entries := by
  induction ns generalizing b with
  | nil => exact h
  | cons n ns ih => exact ih (startLaneHead_every hP (fun _ => trivial) h)

theorem claimOrphanedOrchestrations_every (h : Every P k b.entries) :
    Every P k (claimOrphanedOrchestrations L b).entries := by
  have hloop : ∀ (pairs : List (OrchestrationRun × Nat)) (b : Board), Every P k b.entries →
      Every P k (pairs.foldl (fun b p => adoptOrphan b p.1 p.2) b).entries := by
    intro pairs
    induction pairs with
    | nil => exact fun _ h => h
    | cons p pairs ih =>
      intro b h
      refine ih _ ?_
      show Every P k (ensureActiveEntry b.outside b.entries p.2 p.1.id)
      rw [ensureActiveEntry]
      split
      · exact h.insert rfl (hP.adopted _ h.le_next rfl rfl rfl rfl)
      · exact h
  exact hloop _ (initializeSlots L b) h

theorem requeueStrandedEntries_every (h : Every P k t) :
    Every P k (requeueStrandedEntries L t) := by
  refine Every.renumberLanes hP.toStartKept ?_ _
  refine Every.write rfl rfl h fun e _ hPe => ?_
  split
  · next hs => exact hP.requeued e hs hPe
  · exact hPe

theorem cancelTerminalTicketEntries_every (o : Outside) (h : Every P k t) :
    Every P k (cancelTerminalTicketEntries L o t) := by
  refine Every.renumberLanes hP.toStartKept ?_ _
  refine Every.write rfl rfl h fun e _ hPe => ?_
  split
  · next hs => exact hP.cancelled e (Bool.and_eq_true_iff.mp hs).1 hPe
  · exact hPe

theorem settleFinishedEntries_every (o : Outside) (h : Every P k t) :
    Every P k (settleFinishedEntries o t) := by
  refine Every.write rfl rfl h fun e _ hPe => ?_
  split
  · next hs => exact hP.finished e hs.1 hPe
  · exact hPe

theorem reconcileEntries_every (h : Every P k b.entries) :
    Every P k (reconcileEntries L b).entries := by
  have hdrive := driveRepairingEntries_every (L := L) (b := { b with
    entries := rehomeRetiredLaneEntries L (requeueStrandedEntries L b.entries) }) hP
    (rehomeRetiredLaneEntries_every hP (requeueStrandedEntries_every hP h))
  exact settleFinishedEntries_every hP _ (cancelTerminalTicketEntries_every hP _ hdrive)

/-- **The reconcile sweep** keeps what its passes keep. -/
theorem reconcileLanes_every (h : Every P k b.entries) :
    Every P k (reconcileLanes L b).1.entries := by
  have hentries := reconcileEntries_every (L := L) hP h
  obtain ⟨lanes, b', hb', hswept⟩ := reconcileLanesSlots_eq L (reconcileEntries L b)
  rw [reconcileLanes, hswept]
  rw [← hb'] at hentries
  exact claimOrphanedOrchestrations_every hP (startLanes_every hP.toStartKept lanes hentries)

end

end Loregarden.Lanes
