import Loregarden.OwnershipProofs

/-! # One lane per ticket

    A ticket works in the lanes whose slots name its orchestration or one of its
    runs. `Sole` is that no ticket works in two; **`one_lane_per_ticket`** is that
    it holds in every run in which nothing is bound, and no queued run promoted,
    for a ticket that works elsewhere, and no ticket has two live orchestrations
    when the lanes are reconciled.

    * `Sole.gain`: what a change to the slots must show; every call is a chain of
      such changes. -/

namespace Loregarden.Lanes

open Ranked Runs List Option

structure Outside.Keeps (o o' : Outside) : Prop where
  runs : ∀ id r, o.run id = some r → ∃ r', o'.run id = some r' ∧ r'.ticketId = r.ticketId
  orchestrations : ∀ id r, o.orchestration id = some r →
    ∃ r', o'.orchestration id = some r' ∧ r'.ticketId = r.ticketId

/-- Every orchestration has an id of its own, and no ticket has two that are live. -/
structure Outside.Once (o : Outside) : Prop where
  ids : (o.orchestrations.map (·.id)).Nodup
  live : o.orchestrations.Pairwise fun r r' =>
    r.status.live = true → r'.status.live = true → r.ticketId ≠ r'.ticketId

/-- What the lanes ask of the rest of the program keeps tickets and `P`, and a
    dispatch answers with work of the ticket it was asked for. -/
structure QueueService.Keeps (Q : QueueService) (P : Outside → Prop) : Prop where
  prepare : ∀ ticket (o : Outside), P o →
    o.Keeps (Q.prepareRerun ticket o).2 ∧ P (Q.prepareRerun ticket o).2
  run : ∀ id (o : Outside), P o → o.Keeps (Q.dispatchRun id o) ∧ P (Q.dispatchRun id o)
  stage : ∀ d, Q.dispatcher = some d → ∀ ticket e (o : Outside), P o →
    o.Keeps (d.dispatchStage ticket e o).2 ∧ P (d.dispatchStage ticket e o).2 ∧
      ∀ id, (d.dispatchStage ticket e o).1 = .ok id →
        ∃ r, (d.dispatchStage ticket e o).2.run id = some r ∧ r.ticketId = ticket.id
  whole : ∀ d, Q.dispatcher = some d → ∀ ticket ask (o : Outside), P o →
    o.Keeps (d.dispatchOrchestration ticket ask o).2 ∧ P (d.dispatchOrchestration ticket ask o).2 ∧
      ∀ id, (d.dispatchOrchestration ticket ask o).1 = some id →
        ∃ r, (d.dispatchOrchestration ticket ask o).2.orchestration id = some r ∧
          r.ticketId = ticket.id

inductive HolderCall where
  | reserveOrchestration (ticketId : TicketId) (ask : Ask) (preferred : Option Nat)
  | reserveStage (ticketId : TicketId) (stageKey : String) (ask : Ask)
      (preferred orch : Option Nat)
  | bind (res : Reservation) (run orch : Option Nat)
  | startLaneHead (n : Nat)
  | onOrchestrationComplete (orch : Nat)
  | onRunComplete (run : Nat)
  | reconcileLanes

def HolderCall.serve (Q : QueueService) (b : Board) : HolderCall → Board
  | .reserveOrchestration ticketId ask preferred =>
    (Lanes.reserveOrchestration Q b ticketId ask preferred).1
  | .reserveStage ticketId stageKey ask preferred orch =>
    (Lanes.reserveStage Q b ticketId stageKey ask preferred orch).1
  | .bind res run orch => (res.bind b run orch).1
  | .startLaneHead n => (Lanes.startLaneHead Q.toLaneService b n).1
  | .onOrchestrationComplete orch => Lanes.onOrchestrationComplete Q.toLaneService b orch
  | .onRunComplete run => Lanes.onRunComplete Q b run
  | .reconcileLanes => (Lanes.reconcileLanes Q.toLaneService b).1

/-- One call, made when the rest of the program stands as `step.1`. -/
def HolderStep (Q : QueueService) (b : Board) (step : Outside × HolderCall) (b' : Board) : Prop :=
  b.outside.Keeps step.1 ∧ b' = step.2.serve Q { b with outside := step.1 }

/-- The ticket works in no lane but `n`. -/
def FreeBut (b : Board) (n : Nat) (ticketId : TicketId) : Prop :=
  ∀ x ∈ b.slots, x.slotNumber ≠ n → ticketId ∉ slotTickets b.outside x

def AgentSlot.without (run : Nat) (x : AgentSlot) : AgentSlot :=
  if x.currentRunId = some run then { x with currentRunId := none } else x

/-- The condition on a call, in the state it is made in: what is bound exists and its ticket works
    in no other lane; no queued run's ticket works in a lane but the one the finished run gives
    back; and no ticket has two live orchestrations when the lanes are reconciled. -/
def KeepsSole (b : Board) : HolderCall → Prop
  | .bind res run orch =>
    res.admitted = true → res.reused = false →
      (∀ id, run = some id → ∃ r, b.outside.run id = some r ∧ FreeBut b res.slotNumber r.ticketId) ∧
      ∀ id, orch = some id → ∃ r, b.outside.orchestration id = some r ∧
        FreeBut b res.slotNumber r.ticketId
  | .onRunComplete run =>
    ∀ e ∈ b.entries.rows, e.sharedQueued = true → ∀ id, e.runId = some id →
      ∃ r, b.outside.run id = some r ∧
        ∀ x ∈ b.slots, r.ticketId ∉ slotTickets b.outside (x.without run)
  | .reconcileLanes => b.outside.Once
  | .reserveOrchestration .. | .reserveStage .. | .startLaneHead _
  | .onOrchestrationComplete _ => True

abbrev SoleStep (Q : QueueService) : Board → Outside × HolderCall → Board → Prop :=
  Guarded (HolderStep Q) fun b step => KeepsSole { b with outside := step.1 } step.2

/-! ## The invariant -/

structure Known (o : Outside) (s : AgentSlot) : Prop where
  run : ∀ id, s.currentRunId = some id → ∃ r, o.run id = some r
  orchestration : ∀ id, s.currentOrchestrationRunId = some id → ∃ r, o.orchestration id = some r

structure Sole (P : Outside → Prop) (b : Board) : Prop where
  pool : b.Pool
  outside : P b.outside
  known : ∀ s ∈ b.slots, Known b.outside s
  sole : ∀ s ∈ b.slots, ∀ s' ∈ b.slots, ∀ t, t ∈ slotTickets b.outside s →
    t ∈ slotTickets b.outside s' → s.slotNumber = s'.slotNumber

variable {Q : QueueService} {L : LaneService} {P : Outside → Prop} {b b' : Board}
  {o o' : Outside} {n : Nat} {s s' : AgentSlot} {T : TicketId → Prop}

theorem Known.keeps (h : Known o s) (ho : o.Keeps o') : Known o' s where
  run id hid := by
    obtain ⟨r, hr⟩ := h.run id hid
    obtain ⟨r', hr', -⟩ := ho.runs id r hr
    exact ⟨r', hr'⟩
  orchestration id hid := by
    obtain ⟨r, hr⟩ := h.orchestration id hid
    obtain ⟨r', hr', -⟩ := ho.orchestrations id r hr
    exact ⟨r', hr'⟩

theorem Known.tickets (h : Known o s) (ho : o.Keeps o') : slotTickets o' s = slotTickets o s := by
  have hrun : (s.currentRunId.bind o'.run).map (·.ticketId)
      = (s.currentRunId.bind o.run).map (·.ticketId) := by
    cases hid : s.currentRunId with
    | none => rfl
    | some id =>
      obtain ⟨r, hr⟩ := h.run id hid
      obtain ⟨r', hr', ht⟩ := ho.runs id r hr
      rw [bind_some, bind_some, hr, hr', map_some, map_some, ht]
  have horch : (s.currentOrchestrationRunId.bind o'.orchestration).map (·.ticketId)
      = (s.currentOrchestrationRunId.bind o.orchestration).map (·.ticketId) := by
    cases hid : s.currentOrchestrationRunId with
    | none => rfl
    | some id =>
      obtain ⟨r, hr⟩ := h.orchestration id hid
      obtain ⟨r', hr', ht⟩ := ho.orchestrations id r hr
      rw [bind_some, bind_some, hr, hr', map_some, map_some, ht]
  rw [slotTickets, slotTickets, hrun, horch]

theorem Known.nameless (o : Outside) (hr : s.currentRunId = none)
    (ho : s.currentOrchestrationRunId = none) : Known o s where
  run id hid := by
    rw [hr] at hid
    cases hid
  orchestration id hid := by
    rw [ho] at hid
    cases hid

theorem slotTickets_nameless (o : Outside) (hr : s.currentRunId = none)
    (ho : s.currentOrchestrationRunId = none) : slotTickets o s = [] := by
  rw [slotTickets, hr, ho]
  rfl

section

variable (h : Sole P b)
include h

/-- What a slot works for after a change: what it worked for before, and, in lane
    `n`, tickets that worked in no other lane. -/
theorem Sole.gain (hp : b'.Pool) (ho : P b'.outside)
    (hslots : ∀ s' ∈ b'.slots, Known b'.outside s' ∧ ∀ t ∈ slotTickets b'.outside s',
      (∃ s ∈ b.slots, s.slotNumber = s'.slotNumber ∧ t ∈ slotTickets b.outside s) ∨
        s'.slotNumber = n ∧ T t)
    (hT : ∀ t, T t → ∀ s ∈ b.slots, s.slotNumber ≠ n → t ∉ slotTickets b.outside s) :
    Sole P b' := by
  refine ⟨hp, ho, fun s hs => (hslots s hs).1, fun s hs s' hs' t ht ht' => ?_⟩
  -- a ticket that is new in lane `n` worked nowhere else
  have hnew : ∀ x ∈ b.slots, t ∈ slotTickets b.outside x → T t → x.slotNumber = n := by
    intro x hx hxt hTt
    by_contra hn
    exact hT t hTt x hx hn hxt
  rcases (hslots s hs).2 t ht with ⟨x, hx, hnum, hxt⟩ | ⟨hn, hTt⟩
  · rcases (hslots s' hs').2 t ht' with ⟨x', hx', hnum', hxt'⟩ | ⟨hn', hTt'⟩
    · rw [← hnum, ← hnum']
      exact h.sole x hx x' hx' t hxt hxt'
    · rw [← hnum, hn']
      exact hnew x hx hxt hTt'
  · rcases (hslots s' hs').2 t ht' with ⟨x', hx', hnum', hxt'⟩ | ⟨hn', -⟩
    · rw [← hnum', hn]
      exact (hnew x' hx' hxt' hTt).symm
    · rw [hn, hn']

theorem Sole.kept (hk : b.outside.Keeps b'.outside) (hs : s ∈ b.slots) :
    Known b'.outside s ∧ ∀ t ∈ slotTickets b'.outside s,
      (∃ x ∈ b.slots, x.slotNumber = s.slotNumber ∧ t ∈ slotTickets b.outside x) ∨
        s.slotNumber = n ∧ T t := by
  refine ⟨(h.known s hs).keeps hk, fun t ht => .inl ⟨s, hs, rfl, ?_⟩⟩
  rw [(h.known s hs).tickets hk] at ht
  exact ht

/-- Only slot `n` changed. -/
theorem Sole.but (hbut : SlotsBut n b b') (ho : P b'.outside)
    (hk : b.outside.Keeps b'.outside) (hslot : ∀ s', b'.slot n = some s' → Known b'.outside s' ∧
      ∀ t ∈ slotTickets b'.outside s', (∃ s, b.slot n = some s ∧ t ∈ slotTickets b.outside s) ∨ T t)
    (hT : ∀ t, T t → ∀ s ∈ b.slots, s.slotNumber ≠ n → t ∉ slotTickets b.outside s) :
    Sole P b' := by
  refine h.gain (hbut.pool h.pool) ho (fun s' hs' => ?_) hT
  by_cases hn : s'.slotNumber = n
  · obtain ⟨hknown, htickets⟩ := hslot s' ((slot_eq_some (hbut.pool h.pool)).mpr ⟨hs', hn⟩)
    refine ⟨hknown, fun t ht => ?_⟩
    rcases htickets t ht with ⟨s, hs, hst⟩ | hTt
    · obtain ⟨hmem, hnum⟩ := (slot_eq_some h.pool).mp hs
      exact .inl ⟨s, hmem, hnum.trans hn.symm, hst⟩
    · exact .inr ⟨hn, hTt⟩
  · exact h.kept hk ((hbut.mem h.pool hn).mp hs')

theorem Sole.shrink (hp : b'.Pool) (ho : P b'.outside)
    (hk : b.outside.Keeps b'.outside) (hslots : ∀ s' ∈ b'.slots, s' ∈ b.slots ∨
      s'.currentRunId = none ∧ s'.currentOrchestrationRunId = none) : Sole P b' := by
  refine h.gain (n := 0) (T := fun _ => False) hp ho (fun s' hs' => ?_) (fun _ hf => hf.elim)
  rcases hslots s' hs' with hold | ⟨hr, horch⟩
  · exact h.kept hk hold
  · refine ⟨.nameless _ hr horch, fun t ht => ?_⟩
    rw [slotTickets_nameless _ hr horch] at ht
    cases ht

omit h in
theorem Outside.Keeps.refl (o : Outside) : o.Keeps o :=
  ⟨fun _ r hr => ⟨r, hr, rfl⟩, fun _ r hr => ⟨r, hr, rfl⟩⟩

theorem Sole.of_slots (hs : b'.slots = b.slots) (ho : P b'.outside)
    (hk : b.outside.Keeps b'.outside) : Sole P b' :=
  h.shrink ((SlotsBut.of_slots (n := 0) hs).pool h.pool) ho hk
    fun _ hs' => .inl (hs ▸ hs')

/-! ## Claims, releases and starts -/

omit h in
theorem slotTickets_run {id : Nat} {r : AgentRun} (hr : s.currentRunId = some id)
    (ho : s.currentOrchestrationRunId = none) (hread : o.run id = some r) :
    slotTickets o s = [r.ticketId] := by
  rw [slotTickets, hr, ho, bind_some, hread]
  rfl

omit h in
theorem slotTickets_orchestration {id : Nat} {r : OrchestrationRun} (hr : s.currentRunId = none)
    (ho : s.currentOrchestrationRunId = some id) (hread : o.orchestration id = some r) :
    slotTickets o s = [r.ticketId] := by
  rw [slotTickets, hr, ho, bind_some, hread]
  rfl

theorem initializeSlots_sole : Sole P (initializeSlots L b) := by
  refine h.shrink (initializeSlots_pool h.pool) h.outside (.refl _) fun s' hs' => ?_
  rcases mem_initializeSlots hs' with hold | hnew
  · exact .inl hold
  · rw [hnew]
    exact .inr ⟨rfl, rfl⟩

/-- Slot `n` names nobody now. -/
theorem Sole.cleared (hbut : SlotsBut n b b') (ho : P b'.outside)
    (hk : b.outside.Keeps b'.outside) (hslot : ∀ s', b'.slot n = some s' →
      s'.currentRunId = none ∧ s'.currentOrchestrationRunId = none) : Sole P b' := by
  refine h.but (T := fun _ => False) hbut ho hk (fun s' hs' => ?_) fun _ hf => hf.elim
  obtain ⟨hr, horch⟩ := hslot s' hs'
  refine ⟨.nameless _ hr horch, fun t ht => ?_⟩
  rw [slotTickets_nameless _ hr horch] at ht
  cases ht

theorem claimLaneSlot_sole (hclaim : claimLaneSlot b n = some b') : Sole P b' := by
  obtain ⟨⟨s, -, -, hs'⟩, hbut, -, hout⟩ := claimLaneSlot_eq_some hclaim
  refine h.cleared hbut (hout ▸ h.outside) (hout ▸ .refl _) fun x hx => ?_
  rw [hs', Option.some.injEq] at hx
  rw [← hx]
  exact ⟨rfl, rfl⟩

theorem releaseSlot_sole (n : Nat) : Sole P (releaseSlot b n) := by
  refine h.cleared (releaseSlot_but b n) h.outside (.refl _) fun x hx => ?_
  rw [releaseSlot_slot] at hx
  obtain ⟨s, -, rfl⟩ := map_eq_some_iff.mp hx
  exact ⟨rfl, rfl⟩

end

section

variable (hQ : Q.Keeps P)
include hQ

theorem DispatchMoves.keeps (ho : P o)
    (h : DispatchMoves Q.toLaneService o o') : o.Keeps o' ∧ P o' := by
  cases h with
  | same => exact ⟨.refl _, ho⟩
  | stage d ticket e hd =>
    obtain ⟨hk, hp, -⟩ := hQ.stage d hd ticket e o ho
    exact ⟨hk, hp⟩
  | whole d ticket ask hd =>
    obtain ⟨hk, hp, -⟩ := hQ.whole d hd ticket ask o ho
    exact ⟨hk, hp⟩

theorem Dispatched.tickets (ho : P o) {ticket : Ticket}
    (h : Dispatched Q.toLaneService ticket o o' s) :
    o.Keeps o' ∧ P o' ∧ Known o' s ∧ slotTickets o' s = [ticket.id] := by
  cases h with
  | stage d e id hd hreply hr horch =>
    obtain ⟨hk, hp, hread⟩ := hQ.stage d hd ticket e o ho
    rw [hreply] at hk hp hread
    obtain ⟨r, hr', ht⟩ := hread id rfl
    refine ⟨hk, hp, ⟨fun i hi => ?_, fun i hi => ?_⟩, ht ▸ slotTickets_run hr horch hr'⟩
    · rw [hr, Option.some.injEq] at hi
      exact hi ▸ ⟨r, hr'⟩
    · rw [horch] at hi
      cases hi
  | whole d ask id hd hreply hr horch =>
    obtain ⟨hk, hp, hread⟩ := hQ.whole d hd ticket ask o ho
    rw [hreply] at hk hp hread
    obtain ⟨r, hr', ht⟩ := hread id rfl
    refine ⟨hk, hp, ⟨fun i hi => ?_, fun i hi => ?_⟩, ht ▸ slotTickets_orchestration hr horch hr'⟩
    · rw [hr] at hi
      cases hi
    · rw [horch, Option.some.injEq] at hi
      exact hi ▸ ⟨r, hr'⟩

section

variable (h : Sole P b)
include h

theorem startLaneHead_sole (n : Nat) : Sole P (startLaneHead Q.toLaneService b n).1 := by
  have hstart := startLaneHead_slots Q.toLaneService n h.pool
  generalize startLaneHead Q.toLaneService b n = reply at hstart ⊢
  obtain ⟨b', i⟩ := reply
  cases hstart with
  | unmoved hslots hout => exact h.of_slots hslots (hout ▸ h.outside) (hout ▸ .refl _)
  | refused s s' _ _ hbut hs' _ hr horch hmove =>
    obtain ⟨hk, hp⟩ := hmove.keeps hQ h.outside
    refine h.cleared hbut hp hk fun x hx => ?_
    rw [hs', Option.some.injEq] at hx
    exact hx ▸ ⟨hr, horch⟩
  | started i ticket s s' _ _ hbut hs' _ hother hdisp =>
    obtain ⟨hk, hp, hknown, htickets⟩ := hdisp.tickets hQ h.outside
    refine h.but (T := (· = ticket.id)) hbut hp hk (fun x hx => ?_) ?_
    · rw [hs', Option.some.injEq] at hx
      subst hx
      refine ⟨hknown, fun t ht => ?_⟩
      rw [htickets] at ht
      exact .inr (mem_singleton.mp ht)
    · rintro t rfl x hx hn
      exact hother x hx hn

theorem endOrchestration_sole (orch : Nat) :
    Sole P (endOrchestration Q.toLaneService b orch).1 := by
  have hout : b.outside.Keeps (endOrchestration Q.toLaneService b orch).1.outside ∧
      P (endOrchestration Q.toLaneService b orch).1.outside := by
    rcases endOrchestration_outside (L := Q.toLaneService) b orch with ho | ⟨ticket, ho⟩
    · rw [ho]
      exact ⟨.refl _, h.outside⟩
    · rw [ho]
      exact hQ.prepare ticket b.outside h.outside
  rcases endOrchestration_slots (L := Q.toLaneService) b orch with hslots | ⟨slot, hslots, -⟩
  · exact h.of_slots hslots hout.2 hout.1
  · exact (releaseSlot_sole h slot.slotNumber).of_slots hslots hout.2 hout.1

theorem onOrchestrationComplete_sole (orch : Nat) :
    Sole P (onOrchestrationComplete Q.toLaneService b orch) := by
  have hended := endOrchestration_sole hQ h orch
  rw [onOrchestrationComplete_eq_startNext]
  generalize endOrchestration Q.toLaneService b orch = reply at hended ⊢
  obtain ⟨b', ended⟩ := reply
  cases ended with
  | held => exact hended
  | settled freed =>
    cases freed with
    | none => exact hended
    | some n => exact startLaneHead_sole hQ hended n

theorem addToLane_sole (ticketId : TicketId) (n : Nat)
    (entryKind : QueueEntryKind) (stageKey : String) (ask : Ask) :
    Sole P (addToLane Q.toLaneService b ticketId n entryKind stageKey ask).1 := by
  have hinit : Sole P (initializeSlots Q.toLaneService b) := initializeSlots_sole h
  rw [addToLane]
  split
  · exact h
  · dsimp only
    split
    · exact hinit
    · split
      · exact hinit
      · split
        · exact hinit
        · rw [startAdded_board]
          split
          · refine startLaneHead_sole hQ ?_ n
            exact hinit.of_slots rfl hinit.outside (.refl _)
          · exact hinit.of_slots rfl hinit.outside (.refl _)

theorem parkRequest_sole (ticketId : TicketId) (lane : Nat)
    (entryKind : QueueEntryKind) (stageKey : String) (ask : Ask) :
    Sole P (parkRequest Q b ticketId lane entryKind stageKey ask).1 := by
  have hadd := addToLane_sole hQ h ticketId lane entryKind stageKey ask
  rw [parkRequest]
  split
  · next b₁ why hreply =>
      rw [hreply] at hadd
      exact hadd
  · next b₁ reply hreply =>
      rw [hreply] at hadd
      exact hadd

theorem reserve_sole (ticketId : TicketId)
    (entryKind : QueueEntryKind) (stageKey : String) (ask : Ask) (preferred orch : Option Nat) :
    Sole P (reserve Q b ticketId entryKind stageKey ask preferred orch).1 := by
  have hinit : Sole P (initializeSlots Q.toLaneService b) := initializeSlots_sole h
  rw [reserve]
  split
  · exact hinit
  · dsimp only
    split
    · next b' n hclaim => exact claimLaneSlot_sole hinit (claimFreeSlot_eq_some hclaim)
    · exact parkRequest_sole hQ hinit ticketId _ entryKind stageKey ask

omit hQ in
theorem bind_sole {res : Reservation} {run orch : Option Nat}
    (hk : KeepsSole b (.bind res run orch)) : Sole P (res.bind b run orch).1 := by
  have hout : (res.bind b run orch).1.outside = b.outside := by
    rw [Reservation.bind]
    split <;> rfl
  rcases bind_board res b run orch with ⟨hslots, -⟩ | ⟨hin, hnew, hslots⟩
  · exact h.of_slots hslots (hout ▸ h.outside) (hout ▸ .refl _)
  · obtain ⟨hrun, horch⟩ := hk hin hnew
    have hbut : SlotsBut res.slotNumber b (res.bind b run orch).1 := .updateSlot hslots fun _ => rfl
    refine h.but (T := FreeBut b res.slotNumber) hbut (hout ▸ h.outside) (hout ▸ .refl _) ?_
      fun t ht x hx hn => ht x hx hn
    intro s' hs'
    rw [hout]
    rw [slot_updateSlot_self hslots fun _ => rfl] at hs'
    obtain ⟨s, hs, rfl⟩ := map_eq_some_iff.mp hs'
    have hknown := h.known s ((slot_eq_some h.pool).mp hs).1
    refine ⟨⟨fun id hid => ?_, fun id hid => ?_⟩, fun t ht => ?_⟩
    · cases run with
      | none => exact hknown.run id hid
      | some id' =>
        cases hid
        obtain ⟨r, hr, -⟩ := hrun id rfl
        exact ⟨r, hr⟩
    · cases orch with
      | none => exact hknown.orchestration id hid
      | some id' =>
        cases hid
        obtain ⟨r, hr, -⟩ := horch id rfl
        exact ⟨r, hr⟩
    · rcases mem_append.mp ht with ht | ht
      · cases run with
        | none => exact .inl ⟨s, hs, mem_append_left _ ht⟩
        | some id =>
          obtain ⟨r, hr, hfree⟩ := hrun id rfl
          rw [some_or, bind_some, hr] at ht
          rw [mem_singleton.mp ht]
          exact .inr hfree
      · cases orch with
        | none => exact .inl ⟨s, hs, mem_append_right _ ht⟩
        | some id =>
          obtain ⟨r, hr, hfree⟩ := horch id rfl
          rw [some_or, bind_some, hr] at ht
          rw [mem_singleton.mp ht]
          exact .inr hfree

/-! ## The end of a run -/

/-- Each queued run exists, and its ticket works nowhere in the slots as seen. -/
def QueueFree (b : Board) (seen : AgentSlot → AgentSlot) : Prop :=
  ∀ e ∈ b.entries.rows, e.sharedQueued = true → ∀ id, e.runId = some id →
    ∃ r, b.outside.run id = some r ∧ ∀ x ∈ b.slots, r.ticketId ∉ slotTickets b.outside (seen x)

theorem promoteFromQueue_sole (hfree : QueueFree b id)
    (only : Option Nat) : Sole P (promoteFromQueue Q b only).1 := by
  rw [promoteFromQueue]
  split
  · exact h
  · next entry hhead =>
      have hinit : Sole P (initializeSlots Q.toLaneService b) := initializeSlots_sole h
      dsimp only
      split
      · exact hinit
      · next b' n hclaim =>
          obtain ⟨hmem, hs⟩ := mem_sharedLine (mem_of_mem_head? hhead)
          obtain ⟨id, hid⟩ := isSome_iff_exists.mp (Bool.and_eq_true_iff.mp hs).2
          obtain ⟨r, hr, hnone⟩ := hfree entry hmem hs id hid
          obtain ⟨⟨s, -, -, hs'⟩, hbut, -, hout⟩ :=
            claimLaneSlot_eq_some (claimFreeSlot_eq_some hclaim)
          obtain ⟨hk, hp⟩ := hQ.run id b.outside h.outside
          obtain ⟨r', hr', ht⟩ := hk.runs id r hr
          have hout' : (promoteInto Q b' entry n).outside = Q.dispatchRun id b.outside := by
            show entry.runId.elim b'.outside (fun run => Q.dispatchRun run b'.outside) = _
            rw [hid, elim_some, hout]
            rfl
          refine hinit.but (T := (· = r.ticketId))
            (hbut.trans (.updateSlot rfl fun _ => rfl)) (hout' ▸ hp) (hout' ▸ hk) ?_ ?_
          · intro x hx
            rw [hout']
            have hx' : (promoteInto Q b' entry n).slot n = _ :=
              slot_write (fun s => { s with currentRunId := entry.runId }) hs' rfl fun _ => rfl
            rw [hx', Option.some.injEq] at hx
            subst hx
            refine ⟨⟨fun i hi => ?_, fun i hi => by cases hi⟩, fun t ht' => ?_⟩
            · rw [hid, Option.some.injEq] at hi
              exact hi ▸ ⟨r', hr'⟩
            · rw [slotTickets_run hid rfl hr', ht] at ht'
              exact .inr (mem_singleton.mp ht')
          · rintro t rfl x hx -
            rcases mem_initializeSlots hx with hold | hnew
            · exact hnone x hold
            · rw [hnew, slotTickets_nameless _ rfl rfl]
              exact not_mem_nil

end

end

theorem markFailed_slots (b : Board) (run : Nat) :
    (markFailed Q b run).slots = b.slots ∧ (markFailed Q b run).outside = b.outside := by
  rw [markFailed]
  split
  · split <;> exact ⟨rfl, rfl⟩
  · exact ⟨rfl, rfl⟩

theorem holdStageEntryForRepair_slots (b : Board) (run : Nat) :
    (holdStageEntryForRepair Q b run).1.slots = b.slots ∧
      ((holdStageEntryForRepair Q b run).1.outside = b.outside ∨ ∃ ticket,
        (holdStageEntryForRepair Q b run).1.outside = (Q.prepareRerun ticket b.outside).2) := by
  rw [holdStageEntryForRepair]
  split
  · exact ⟨rfl, .inl rfl⟩
  · split
    · exact ⟨rfl, .inl rfl⟩
    · next ticket _ =>
        dsimp only
        split
        · exact ⟨rfl, .inl rfl⟩
        · split
          · exact ⟨rfl, .inl rfl⟩
          · split
            · exact ⟨rfl, .inl rfl⟩
            · split
              · exact ⟨rfl, .inr ⟨ticket, rfl⟩⟩
              · exact ⟨rfl, .inr ⟨ticket, rfl⟩⟩

/-- What the shared queue would start meets `F`. -/
def Asks (F : Nat → Prop) (e : QueuedRun) : Prop :=
  e.sharedQueued = true → ∀ id, e.runId = some id → F id

variable {F : Nat → Prop} {e : QueuedRun}

theorem Asks.of_status (h : e.status ≠ .queued) : Asks F e := by
  intro hs
  rw [QueuedRun.sharedQueued, Bool.and_eq_true, beq_iff_eq] at hs
  exact absurd hs.1 h

theorem markFailed_asks {run : Nat} (h : Every (Asks F) 0 b.entries) :
    Every (Asks F) 0 (markFailed Q b run).entries := by
  rw [markFailed]
  split
  · next r entry _ hentry =>
      split
      · refine h.update rfl rfl (mem_of_find?_eq_some hentry) (.of_status ?_)
        simp [QueuedRun.failed]
      · exact h
  · exact h

theorem holdStageEntryForRepair_asks {run : Nat} (h : Every (Asks F) 0 b.entries) :
    Every (Asks F) 0 (holdStageEntryForRepair Q b run).1.entries := by
  rw [holdStageEntryForRepair]
  split
  · exact h
  · next entry hentry =>
      have hmem := mem_of_find?_eq_some hentry
      split
      · exact h
      · dsimp only
        split
        · exact h
        · split
          · exact h.update rfl rfl hmem (h.all entry hmem)
          · split
            · exact h
            · split
              · exact h
              · refine h.update rfl rfl hmem (.of_status ?_)
                simp [QueuedRun.held]

theorem slotTickets_without_subset {x : AgentSlot} (o : Outside) {t : TicketId}
    (h : t ∈ slotTickets o { x with currentRunId := none }) : t ∈ slotTickets o x :=
  mem_append_right _ h

theorem freeRunSlot_mem {slot x : AgentSlot} (hp : b.Pool) (hslot : slot ∈ b.slots)
    (hx : x ∈ (freeRunSlot L b slot.slotNumber).slots) :
    x ∈ b.slots ∧ x.slotNumber ≠ slot.slotNumber ∨
      x = { slot with isAvailable := true, currentRunId := none } := by
  rw [freeRunSlot] at hx
  split at hx
  · obtain ⟨hx, hne⟩ := mem_filter.mp hx
    exact .inl ⟨hx, of_decide_eq_true hne⟩
  · obtain ⟨y, hy, rfl⟩ := mem_map.mp hx
    by_cases hn : y.slotNumber = slot.slotNumber
    · have hy' := (slot_eq_some hp).mpr ⟨hy, hn⟩
      rw [(slot_eq_some hp).mpr ⟨hslot, rfl⟩, Option.some.injEq] at hy'
      rw [if_pos hn, ← hy']
      exact .inr rfl
    · rw [if_neg hn]
      exact .inl ⟨hy, hn⟩

theorem freeRunSlot_pool (hp : b.Pool) (n : Nat) : (freeRunSlot L b n).Pool := by
  rw [freeRunSlot]
  split
  · exact (filter_sublist.map _).nodup hp
  · have hbut : SlotsBut n b (b.updateSlot n fun s =>
        { s with isAvailable := true, currentRunId := none }) := .updateSlot rfl fun _ => rfl
    exact hbut.pool hp

theorem freeRunSlot_outside (L : LaneService) (b : Board) (n : Nat) :
    (freeRunSlot L b n).outside = b.outside := by
  rw [freeRunSlot]
  split <;> rfl

theorem freeRunSlot_sole (h : Sole P b) (hslot : s ∈ b.slots) :
    Sole P (freeRunSlot L b s.slotNumber) := by
  have hout := freeRunSlot_outside L b s.slotNumber
  refine h.gain (n := 0) (T := fun _ => False) (freeRunSlot_pool h.pool _) (hout ▸ h.outside)
    (fun x hx => ?_) (fun _ hf => hf.elim)
  rw [hout]
  rcases freeRunSlot_mem h.pool hslot hx with ⟨hold, -⟩ | rfl
  · exact h.kept (.refl b.outside) hold
  · refine ⟨⟨fun id hid => ?_, (h.known s hslot).orchestration⟩, fun t ht => ?_⟩
    · cases hid
    exact .inl ⟨s, hslot, rfl, slotTickets_without_subset b.outside ht⟩

/-- In a slot after the finished run's was freed, a ticket that works nowhere once the
    run is over works nowhere. -/
theorem freed_without (h : Sole P b) {run : Nat} {t : TicketId} (hslot : s ∈ b.slots)
    (hnames : s.currentRunId = some run) (hk : b.outside.Keeps b'.outside)
    (hsame : b'.slots = b.slots) {x : AgentSlot} (hx : x ∈ (freeRunSlot L b' s.slotNumber).slots)
    (hfree : ∀ x ∈ b.slots, t ∉ slotTickets b.outside (x.without run)) :
    t ∉ slotTickets b'.outside x := by
  have hpool : b'.Pool := (SlotsBut.of_slots (n := 0) hsame).pool h.pool
  rcases freeRunSlot_mem hpool (hsame ▸ hslot) hx with ⟨hold, hne⟩ | rfl
  · rw [hsame] at hold
    rw [(h.known x hold).tickets hk]
    -- no other slot names the run, whose ticket works in this one alone
    have hother : x.currentRunId ≠ some run := by
      intro hxr
      obtain ⟨r, hr⟩ := (h.known s hslot).run run hnames
      refine hne (h.sole x hold s hslot r.ticketId ?_ ?_)
      · rw [slotTickets, hxr, bind_some, hr]
        exact mem_append_left _ (mem_singleton_self _)
      · rw [slotTickets, hnames, bind_some, hr]
        exact mem_append_left _ (mem_singleton_self _)
    have hxw : x.without run = x := if_neg hother
    exact hxw ▸ hfree x hold
  · have hknown : Known b.outside { s with currentRunId := none } :=
      ⟨fun _ hid => (by cases hid), (h.known s hslot).orchestration⟩
    have hsw : s.without run = { s with currentRunId := none } := if_pos hnames
    show t ∉ slotTickets b'.outside { s with currentRunId := none }
    rw [hknown.tickets hk, ← hsw]
    exact hfree s hslot

theorem onRunComplete_sole (hQ : Q.Keeps P) (h : Sole P b) {run : Nat}
    (hk : KeepsSole b (.onRunComplete run)) : Sole P (onRunComplete Q b run) := by
  obtain ⟨hslots, hout⟩ := markFailed_slots (Q := Q) b run
  have hfailed : Sole P (markFailed Q b run) := h.of_slots hslots (hout ▸ h.outside) (hout ▸ .refl _)
  -- what each queued run asks of the slots, whatever the rest of the program becomes
  let F : Nat → Prop := fun id => ∃ r, b.outside.run id = some r ∧
    ∀ x ∈ b.slots, r.ticketId ∉ slotTickets b.outside (x.without run)
  have hasks : Every (Asks F) 0 (markFailed Q b run).entries :=
    markFailed_asks (Q := Q) ⟨Nat.zero_le _, hk⟩
  rw [onRunComplete]
  split
  · next hnone =>
      refine promoteFromQueue_sole hQ hfailed (fun e he hs id hid => ?_) none
      obtain ⟨r, hr, hfree⟩ := hasks.all e he hs id hid
      rw [hout, hslots]
      refine ⟨r, hr, fun x hx => ?_⟩
      have hne : x.currentRunId ≠ some run := by
        simpa using List.find?_eq_none.mp hnone x (hslots ▸ hx)
      have hsame : x.without run = x := if_neg hne
      exact hsame ▸ hfree x hx
  · next slot hslot =>
      have hmem : slot ∈ b.slots := hslots ▸ mem_of_find?_eq_some hslot
      have hnames : slot.currentRunId = some run := by simpa using List.find?_some hslot
      obtain ⟨hslots', hout'⟩ := holdStageEntryForRepair_slots (Q := Q) (markFailed Q b run) run
      have hasks' : Every (Asks F) 0
          (holdStageEntryForRepair Q (markFailed Q b run) run).1.entries :=
        holdStageEntryForRepair_asks hasks
      have hmove : (markFailed Q b run).outside.Keeps
            (holdStageEntryForRepair Q (markFailed Q b run) run).1.outside ∧
          P (holdStageEntryForRepair Q (markFailed Q b run) run).1.outside := by
        rcases hout' with ho | ⟨ticket, ho⟩
        · rw [ho]
          exact ⟨.refl _, hfailed.outside⟩
        · rw [ho]
          exact hQ.prepare ticket _ hfailed.outside
      have hheld := hfailed.of_slots hslots' hmove.2 hmove.1
      generalize holdStageEntryForRepair Q (markFailed Q b run) run = reply at *
      obtain ⟨b', held⟩ := reply
      cases held with
      | true => exact hheld
      | false =>
        have hsame : b'.slots = b.slots := hslots'.trans hslots
        have hkeeps : b.outside.Keeps b'.outside := hout ▸ hmove.1
        refine promoteFromQueue_sole hQ (freeRunSlot_sole hheld (hsame ▸ hmem))
          (fun e he hs id hid => ?_) none
        rw [freeRunSlot_entries] at he
        obtain ⟨r, hr, hfree⟩ := hasks'.all e he hs id hid
        obtain ⟨r', hr', ht⟩ := hkeeps.runs id r hr
        rw [freeRunSlot_outside]
        refine ⟨r', hr', fun x hx => ?_⟩
        rw [ht]
        exact freed_without h hmem hnames hkeeps hsame hx hfree

end Loregarden.Lanes
