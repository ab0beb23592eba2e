import Loregarden.SweepModel

/-! # A sweep leaves live slots alone

A sweep decides from rows it read and writes without comparing: **`sweeps_leave_live_slots`** is
that no slot with a live occupant, or with a fresh reservation, changes under any read or write of a
sweep, in every run whose writes find their rows as they were read. What keeps the verdicts is
`Judged`: what a sweep under way decided by is over, and stays so. -/

namespace Loregarden.Lanes

open Ranked Runs List

variable {L : LaneService} {b b' : Board} {o o' : Outside} {n : Nat} {s s' t t' : Sweeping}
  {row slot : AgentSlot}

theorem occupantIsLive_eq (b : Board) (s : AgentSlot) :
    occupantIsLive b s = (heldForRepair b.entries s || inFlight b.outside s) := rfl

/-- What a row was judged dead by: an occupant that is over or whose lease had run
    out, or a reservation past its grace. -/
structure Spent (o : Outside) (lapsed : List Nat) (row : AgentSlot) : Prop where
  orchestration : ∀ id, row.currentOrchestrationRunId = some id →
    o.orchestrationOver id = true ∨ id ∈ lapsed
  run : row.currentOrchestrationRunId = none → ∀ id, row.currentRunId = some id →
    o.runOver id = true
  reservation : row.currentOrchestrationRunId = none → row.currentRunId = none →
    claimIsFresh row (some o.now) none = false

theorem runOver_eq (o : Outside) (id : Nat) : o.runOver id = !(o.run id).any (·.status.live) := by
  rw [Outside.runOver]
  cases o.run id with
  | none | some run => rfl

theorem Spent.of_deadSlots (h : row ∈ deadSlots b) :
    Spent b.outside (lapsedAmong b.outside (deadSlots b)) row := by
  obtain ⟨hmem, hdead⟩ := mem_filter.mp h
  obtain ⟨hbusy, hdead⟩ := of_decide_eq_true hdead
  rw [occupantIsLive_eq, Bool.or_eq_true, not_or] at hdead
  have hover : inFlight b.outside row = false := by simpa using hdead.2
  refine ⟨fun id hid => ?_, fun ho id hid => ?_, fun ho hr => ?_⟩
  · by_cases hlive : b.outside.orchestrationOver id = true
    · exact .inl hlive
    · refine .inr (mem_filter.mpr ⟨mem_filterMap.mpr ⟨row, h, hid⟩, ?_⟩)
      exact decide_eq_true hlive
  · rw [inFlight, ho, hid] at hover
    have hover : (b.outside.run id).any (·.status.live) = false := hover
    rw [runOver_eq, hover]
    rfl
  · rw [inFlight, ho, hr] at hover
    exact hover

theorem claimIsFresh_mono {now now' : Instant} (h : now ≤ now')
    (hstale : claimIsFresh row (some now) none = false) :
    claimIsFresh row (some now') none = false := by
  rw [claimIsFresh] at hstale ⊢
  cases hat : row.assignedAt with
  | none =>
    rw [hat] at hstale
    cases hstale
  | some claimed =>
    rw [hat] at hstale
    simp only [Option.any_some, Option.any_none, Bool.or_false, decide_eq_false_iff_not]
      at hstale ⊢
    exact fun hlt => hstale (lt_of_le_of_lt (Int.sub_le_sub_right h claimed) hlt)

theorem Spent.onward (h : o.Onward o') {lapsed : List Nat} (hs : Spent o lapsed row) :
    Spent o' lapsed row where
  orchestration id hid := (hs.orchestration id hid).imp_left (h.orchestrations id)
  run ho id hid := h.runs id (hs.run ho id hid)
  reservation ho hr := claimIsFresh_mono h.clock (hs.reservation ho hr)

theorem Spent.not_inFlight {lapsed : List Nat} (hs : Spent o lapsed row)
    (hlapsed : ∀ id ∈ lapsed, ∀ orch ∈ o.orchestration id,
      orch.status.live = true → orch.leaseExpired = true) : inFlight o row = false := by
  rw [inFlight]
  cases ho : row.currentOrchestrationRunId with
  | some id =>
    show (o.orchestration id).any _ = false
    cases hread : o.orchestration id with
    | none => rfl
    | some orch =>
      rw [Option.any_some, Bool.and_eq_false_iff]
      rcases hs.orchestration id ho with hover | hin
      · rw [Outside.orchestrationOver, hread] at hover
        exact .inl (by simpa using hover)
      · by_cases hlive : orch.status.live = true
        · right
          rw [hlapsed id hin orch hread hlive]
          rfl
        · exact .inl (by simpa using hlive)
  | none =>
    cases hr : row.currentRunId with
    | some id =>
      have hover := hs.run ho id hr
      rw [runOver_eq] at hover
      simpa using hover
    | none => exact hs.reservation ho hr

/-! ## Writing -/

/-- What a write to the slots under some numbers leaves alone. -/
structure SlotsOutside (nums : List Nat) (b b' : Board) : Prop where
  numbers : b'.slots.map (·.slotNumber) = b.slots.map (·.slotNumber)
  others : ∀ n, n ∉ nums → b'.slot n = b.slot n
  outside : b'.outside = b.outside

theorem SlotsOutside.refl (nums : List Nat) (b : Board) : SlotsOutside nums b b :=
  ⟨rfl, fun _ _ => rfl, rfl⟩

theorem SlotsOutside.foldl {α : Type*} (num : α → Nat) (f : Board → α → Board) (xs : List α)
    (hf : ∀ b x, SlotsBut (num x) b (f b x)) (ho : ∀ b x, (f b x).outside = b.outside)
    (b : Board) : SlotsOutside (xs.map num) b (xs.foldl f b) := by
  induction xs generalizing b with
  | nil => exact .refl _ b
  | cons x xs ih =>
    have hrest := ih (f b x)
    refine ⟨hrest.numbers.trans (hf b x).numbers, fun n hn => ?_, hrest.outside.trans (ho b x)⟩
    rw [map_cons, mem_cons, not_or] at hn
    exact (hrest.others n hn.2).trans ((hf b x).others n hn.1)

theorem giveBack_but (b : Board) (row : AgentSlot) : SlotsBut row.slotNumber b (giveBack b row) :=
  .updateSlot rfl fun _ => rfl

theorem adopt_but (b : Board) (p : OrchestrationRun × AgentSlot) :
    SlotsBut p.2.slotNumber b (adopt b p) :=
  .updateSlot rfl fun _ => rfl

def Sweep.rows : Sweep → List AgentSlot
  | .slots dead _ => dead
  | .orphans pairs => pairs.map Prod.snd

theorem write_slots (b : Board) (sweep : Sweep) :
    SlotsOutside (sweep.rows.map (·.slotNumber)) b (sweep.write b) := by
  cases sweep with
  | slots dead lapsed =>
    rw [Sweep.write]
    split
    · exact .foldl (·.slotNumber) giveBack dead giveBack_but (fun _ _ => rfl) b
    · exact .refl _ b
  | orphans pairs =>
    rw [Sweep.write, Sweep.rows, map_map]
    split
    · exact .foldl (fun p => p.2.slotNumber) adopt pairs adopt_but (fun _ _ => rfl) b
    · exact .refl _ b

/-- What a sweep under way decided by, as things stand. -/
def Sweep.Judged (o : Outside) : Sweep → Prop
  | .slots dead lapsed => ∀ row ∈ dead, Spent o lapsed row
  | .orphans _ => True

theorem write_keeps {sweep : Sweep} (hj : sweep.Judged o) (hs : sweep.Stands b o)
    (hslot : b.slot n = some slot) (hocc : Occupied o slot) :
    (sweep.write b).slot n = some slot := by
  rw [(write_slots b sweep).others n, hslot]
  intro hn
  obtain ⟨row, hrow, rfl⟩ := mem_map.mp hn
  obtain ⟨hbusy, hlive⟩ := hocc
  cases sweep with
  | slots dead lapsed =>
    rcases hs.1 row hrow slot hslot with rfl | hfree
    · rw [(hj slot hrow).not_inFlight hs.2] at hlive
      cases hlive
    · rw [hbusy] at hfree
      cases hfree
  | orphans pairs =>
    obtain ⟨p, hp, rfl⟩ := mem_map.mp hrow
    have hfree := hs p hp slot hslot
    rw [hbusy] at hfree
    cases hfree

theorem updateSlot_congr (hp : b.Pool) {f g : AgentSlot → AgentSlot}
    (hrow : b.slot n = some row) (h : f row = g row) : b.updateSlot n f = b.updateSlot n g := by
  rw [Board.updateSlot, Board.updateSlot]
  congr 1
  refine map_congr_left fun x hx => ?_
  by_cases hn : x.slotNumber = n
  · have hx' := (slot_eq_some hp).mpr ⟨hx, hn⟩
    rw [hrow, Option.some.injEq] at hx'
    rw [← hx', h]
  · rw [if_neg hn, if_neg hn]

theorem givenBack_self (row : AgentSlot) : row.givenBack row = row.released := by
  obtain ⟨_, _, run, orch, _⟩ := row
  cases run <;> cases orch <;> rfl

theorem foldl_giveBack (rows : List AgentSlot) (hn : (rows.map (·.slotNumber)).Nodup)
    (hp : b.Pool) (hrows : ∀ row ∈ rows, b.slot row.slotNumber = some row) :
    rows.foldl giveBack b = (rows.map (·.slotNumber)).foldl releaseSlot b := by
  induction rows generalizing b with
  | nil => rfl
  | cons row rows ih =>
    rw [map_cons, nodup_cons] at hn
    rw [foldl_cons, map_cons, foldl_cons]
    have hfirst : giveBack b row = releaseSlot b row.slotNumber :=
      updateSlot_congr hp (hrows row mem_cons_self) (givenBack_self row)
    rw [← hfirst]
    have hbut := giveBack_but b row
    refine ih hn.2 (hbut.pool hp) fun x hx => ?_
    rw [hbut.others x.slotNumber fun h => hn.1 (h ▸ mem_map_of_mem hx)]
    exact hrows x (mem_cons_of_mem _ hx)

/-- Written as soon as it is read, a sweep of the slots is `reconcile_slots`. -/
theorem write_readSlots (hp : b.Pool) (lapsed : List Nat) :
    (Sweep.slots (deadSlots b) lapsed).write b = (reconcileSlots b).1 := by
  have hrows : ∀ row ∈ deadSlots b, b.slot row.slotNumber = some row := fun row hrow =>
    (slot_eq_some hp).mpr ⟨(mem_filter.mp hrow).1, rfl⟩
  rw [Sweep.write, if_pos (all_eq_true.mpr fun row hrow => by
    rw [Board.hasSlot, hrows row hrow]; rfl)]
  exact foldl_giveBack _ ((filter_sublist.map _).nodup hp) hp hrows

theorem foldl_adopt {b₀ : Board} (claims : List (OrchestrationRun × Nat))
    (hn : (claims.map Prod.snd).Nodup) (hp : b.Pool)
    (hrows : ∀ p ∈ claims, ∃ row, b₀.slot p.2 = some row ∧ b.slot p.2 = some row) :
    (claims.filterMap fun p => (b₀.slot p.2).map fun row => (p.1, row)).foldl adopt b
      = claims.foldl (fun b p => adoptOrphan b p.1 p.2) b := by
  induction claims generalizing b with
  | nil => rfl
  | cons p claims ih =>
    obtain ⟨row, hrow₀, hrow⟩ := hrows p mem_cons_self
    rw [map_cons, nodup_cons] at hn
    have hread : (b₀.slot p.2).map (fun row => (p.1, row)) = some (p.1, row) := by rw [hrow₀]; rfl
    rw [filterMap_cons_some (f := fun p : OrchestrationRun × Nat =>
      (b₀.slot p.2).map fun row => (p.1, row)) hread, foldl_cons, foldl_cons]
    have hnum := slot_number hrow
    have hslots : b.updateSlot row.slotNumber (row.adopted p.1.id b.outside.now)
        = b.updateSlot p.2 fun s =>
          { s with
            isAvailable := false, currentOrchestrationRunId := some p.1.id,
            currentRunId := none, assignedAt := some b.outside.now } := by
      rw [hnum]
      refine updateSlot_congr hp hrow ?_
      obtain ⟨_, _, run, orch, _⟩ := row
      cases run <;> rfl
    have hfirst : adopt b (p.1, row) = adoptOrphan b p.1 p.2 := by
      rw [adopt, hslots, hnum]
      rfl
    rw [← hfirst]
    have hbut := adopt_but b (p.1, row)
    refine ih hn.2 (hbut.pool hp) fun q hq => ?_
    obtain ⟨row', h₀, h⟩ := hrows q (mem_cons_of_mem _ hq)
    refine ⟨row', h₀, (hbut.others q.2 fun heq => hn.1 ?_).trans h⟩
    rw [← hnum]
    exact heq ▸ mem_map_of_mem hq

theorem zip_snd_sublist {α β : Type*} (xs : List α) (ys : List β) :
    ((xs.zip ys).map Prod.snd).Sublist ys := by
  induction xs generalizing ys with
  | nil => exact nil_sublist ys
  | cons x xs ih =>
    cases ys with
    | nil => exact nil_sublist []
    | cons y ys => exact (ih ys).cons_cons y

/-- Written as soon as it is read, the orphan pass is `claim_orphaned_orchestrations`. -/
theorem write_readOrphans (hp : s.board.Pool) :
    ∃ sweep, (s.readOrphans L).pending = s.pending ++ [sweep] ∧
      sweep.write (s.readOrphans L).board = claimOrphanedOrchestrations L s.board := by
  refine ⟨_, rfl, ?_⟩
  let b := initializeSlots L s.board
  have hpool : b.Pool := initializeSlots_pool hp
  have hfree : ∀ p ∈ orphanClaims b, ∃ row, b.slot p.2 = some row := by
    intro p hmem
    have hnum := (perm_insertionSort _ _).mem_iff.mp (of_mem_zip hmem).2
    obtain ⟨row, hrow, hrn⟩ := mem_map.mp hnum
    exact ⟨row, (slot_eq_some hpool).mpr ⟨(mem_filter.mp hrow).1, hrn⟩⟩
  have hnodup : ((orphanClaims b).map Prod.snd).Nodup := by
    refine (zip_snd_sublist _ _).nodup ?_
    rw [(perm_insertionSort _ _).nodup_iff]
    exact (filter_sublist.map _).nodup hpool
  rw [Sweep.write, if_pos]
  · exact foldl_adopt _ hnodup hpool fun p hmem => by
      obtain ⟨row, hrow⟩ := hfree p hmem
      exact ⟨row, hrow, hrow⟩
  · refine all_eq_true.mpr fun q hq => ?_
    obtain ⟨p, hmem, hq⟩ := mem_filterMap.mp hq
    obtain ⟨row, hrow, rfl⟩ := Option.map_eq_some_iff.mp hq
    have hself : b.slot row.slotNumber = some row := by rw [slot_number hrow]; exact hrow
    show (b.slot row.slotNumber).isSome = true
    rw [hself]
    rfl

theorem write_last (b : Board) (pending : List Sweep) (sweep : Sweep) :
    Sweeping.write ⟨b, pending ++ [sweep]⟩ pending.length = ⟨sweep.write b, pending⟩ := by
  simp [Sweeping.write, eraseIdx_append_of_length_le]

/-- **A sweep that nobody comes between is the whole call**, whatever sweeps are under way. -/
theorem sweep_at_once (L : LaneService) (s : Sweeping) (hp : s.board.Pool) :
    s.readSlots.write s.pending.length = { s with board := (reconcileSlots s.board).1 } ∧
      (s.readOrphans L).write s.pending.length =
        { s with board := claimOrphanedOrchestrations L s.board } := by
  refine ⟨?_, ?_⟩
  · rw [Sweeping.readSlots, write_last, write_readSlots hp]
  · obtain ⟨sweep, hpending, hwrite⟩ := write_readOrphans (L := L) hp
    rw [← hwrite, ← write_last _ s.pending, ← hpending]

/-! ## What the other calls do to the rest of the program -/

theorem Outside.Onward.refl (o : Outside) : o.Onward o :=
  ⟨Int.le_refl _, fun _ h => h, fun _ h => h⟩

theorem Outside.Onward.trans {o'' : Outside} (h : o.Onward o') (h' : o'.Onward o'') :
    o.Onward o'' :=
  ⟨Int.le_trans h.clock h'.clock, fun id hid => h'.orchestrations id (h.orchestrations id hid),
    fun id hid => h'.runs id (h.runs id hid)⟩

section

variable (hL : L.Onward)
include hL

theorem DispatchMoves.onward (h : DispatchMoves L o o') : o.Onward o' := by
  cases h with
  | same => exact .refl _
  | stage d ticket e hd => exact hL.stage d hd ticket e o
  | whole d ticket ask hd => exact hL.whole d hd ticket ask o

theorem Dispatched.onward {ticket : Ticket} (h : Dispatched L ticket o o' slot) : o.Onward o' := by
  cases h with
  | stage d e run hd hreply _ _ =>
    have hmove := hL.stage d hd ticket e o
    rw [hreply] at hmove
    exact hmove
  | whole d ask orch hd hreply _ _ =>
    have hmove := hL.whole d hd ticket ask o
    rw [hreply] at hmove
    exact hmove

theorem LaneStart.onward {i : Option EntryId} (h : LaneStart L n b b' i) :
    b.outside.Onward b'.outside := by
  cases h with
  | unmoved _ hout => exact hout ▸ .refl _
  | refused _ _ _ _ _ _ _ _ _ hmove => exact hmove.onward hL
  | started _ _ _ _ _ _ _ _ _ _ hdisp => exact hdisp.onward hL

theorem endOrchestration_onward (b : Board) (orch : Nat) :
    b.outside.Onward (endOrchestration L b orch).1.outside := by
  rcases endOrchestration_outside (L := L) b orch with ho | ⟨ticket, ho⟩
  · exact ho ▸ .refl _
  · rw [ho]
    exact hL.prepare ticket b.outside

omit hL in
theorem endOrchestration_pool (hp : b.Pool) (orch : Nat) : (endOrchestration L b orch).1.Pool := by
  rcases endOrchestration_slots (L := L) b orch with hslots | ⟨slot, hslots, -⟩
  · exact (SlotsBut.of_slots (n := 0) hslots).pool hp
  · exact ((releaseSlot_but b slot.slotNumber).trans (.of_slots hslots)).pool hp

theorem onOrchestrationComplete_onward (hp : b.Pool) (orch : Nat) :
    (onOrchestrationComplete L b orch).Pool ∧
      b.outside.Onward (onOrchestrationComplete L b orch).outside := by
  have hended := endOrchestration_onward hL b orch
  have hpool := endOrchestration_pool (L := L) hp orch
  rw [onOrchestrationComplete_eq_startNext]
  cases hreply : endOrchestration L b orch with
  | mk b₁ ended =>
    rw [hreply] at hended hpool
    cases ended with
    | held => exact ⟨hpool, hended⟩
    | settled freed =>
      cases freed with
      | none => exact ⟨hpool, hended⟩
      | some n =>
        have hstart := startLaneHead_slots L n hpool
        exact ⟨hstart.but.pool hpool, hended.trans (hstart.onward hL)⟩

end

theorem bind_pool (hp : b.Pool) (res : Reservation) (run orch : Option Nat) :
    (res.bind b run orch).1.Pool ∧ (res.bind b run orch).1.outside = b.outside := by
  refine ⟨?_, ?_⟩
  · rcases bind_board res b run orch with ⟨hslots, -⟩ | ⟨-, -, hslots⟩
    · exact (SlotsBut.of_slots (n := 0) hslots).pool hp
    · exact (SlotsBut.updateSlot hslots fun _ => rfl).pool hp
  · rw [Reservation.bind]
    split <;> rfl

/-! ## Runs -/

/-- The slots carry numbers of their own, and what the sweeps under way decided by is over. -/
structure SweepsJudged (s : Sweeping) : Prop where
  pool : s.board.Pool
  judged : ∀ sweep ∈ s.pending, sweep.Judged s.board.outside

theorem Sweep.Judged.onward {sweep : Sweep} (h : o.Onward o') (hj : sweep.Judged o) :
    sweep.Judged o' := by
  cases sweep with
  | slots dead lapsed => exact fun row hrow => (hj row hrow).onward h
  | orphans pairs => trivial

theorem SweepsJudged.onward (h : SweepsJudged s) (hp : b.Pool)
    (ho : s.board.outside.Onward b.outside) : SweepsJudged { s with board := b } :=
  ⟨hp, fun sweep hs => (h.judged sweep hs).onward ho⟩

theorem SweepsJudged.read (h : SweepsJudged s) {sweep : Sweep} (hj : sweep.Judged s.board.outside) :
    SweepsJudged { s with pending := s.pending ++ [sweep] } := by
  refine ⟨h.pool, fun x hx => ?_⟩
  rcases mem_append.mp hx with hx | hx
  · exact h.judged x hx
  · rw [mem_singleton.mp hx]
    exact hj

theorem claimFreeSlot_onward (hp : b.Pool) (preferred : Option Nat) :
    ((claimFreeSlot b preferred).elim b Prod.fst).Pool ∧
      b.outside.Onward ((claimFreeSlot b preferred).elim b Prod.fst).outside := by
  cases hclaim : claimFreeSlot b preferred with
  | none => exact ⟨hp, .refl _⟩
  | some reply =>
    have hslot : claimLaneSlot b reply.2 = some reply.1 := claimFreeSlot_eq_some hclaim
    obtain ⟨-, hbut, -, hout⟩ := claimLaneSlot_eq_some hslot
    exact ⟨hbut.pool hp, hout ▸ .refl _⟩

theorem claimLaneSlot_onward (hp : b.Pool) (n : Nat) :
    ((claimLaneSlot b n).getD b).Pool ∧ b.outside.Onward ((claimLaneSlot b n).getD b).outside := by
  cases hclaim : claimLaneSlot b n with
  | none => exact ⟨hp, .refl _⟩
  | some b₁ =>
    obtain ⟨-, hbut, -, hout⟩ := claimLaneSlot_eq_some hclaim
    exact ⟨hbut.pool hp, hout ▸ .refl _⟩

/-- **Any call** keeps the verdicts of the sweeps under way. -/
theorem serve_judged (hL : L.Onward) (h : SweepsJudged s) (call : SweepCall) :
    SweepsJudged (call.serve L s) := by
  cases call with
  | readSlots => exact h.read fun _ hrow => .of_deadSlots hrow
  | readOrphans =>
    exact (h.onward (initializeSlots_pool h.pool) (.refl _)).read trivial
  | write k =>
    rw [SweepCall.serve, Sweeping.write]
    cases s.pending[k]? with
    | none => exact h
    | some sweep =>
      have hw := write_slots s.board sweep
      refine ⟨?_, fun x hx => ?_⟩
      · rw [Option.elim_some, Board.Pool, hw.numbers]
        exact h.pool
      · rw [Option.elim_some, hw.outside]
        exact h.judged x (mem_of_mem_eraseIdx hx)
  | onOrchestrationComplete orch =>
    obtain ⟨hp, ho⟩ := onOrchestrationComplete_onward hL h.pool orch
    exact h.onward hp ho
  | claimFreeSlot preferred =>
    obtain ⟨hp, ho⟩ := claimFreeSlot_onward h.pool preferred
    exact h.onward hp ho
  | claimLaneSlot n =>
    obtain ⟨hp, ho⟩ := claimLaneSlot_onward h.pool n
    exact h.onward hp ho
  | bind res run orch =>
    obtain ⟨hp, ho⟩ := bind_pool h.pool res run orch
    exact h.onward hp (ho ▸ .refl _)

theorem step_judged (hL : L.Onward) {step : Outside × SweepCall} (h : SweepsJudged s)
    (hs : SweepStep L s step s') : SweepsJudged s' := by
  obtain ⟨ho, rfl⟩ := hs
  exact serve_judged hL (s := s.standing step.1) (h.onward h.pool ho) step.2

/-- **A sweep leaves live slots alone**: in every run whose writes still stand, no slot with a live
    occupant or a fresh reservation is changed by a read or a write of a sweep. -/
theorem sweeps_leave_live_slots (hL : L.Onward) {trace : List (Outside × SweepCall)}
    {step : Outside × SweepCall} (hp : s.board.Pool) (h0 : s.pending = [])
    (hr : Run (UndisturbedStep L) s trace t) (hs : UndisturbedStep L t step t')
    (hsweep : step.2.isSweep = true) :
    ∀ n slot, t.board.slot n = some slot → Occupied step.1 slot → t'.board.slot n = some slot := by
  have hstart : SweepsJudged s := ⟨hp, fun _ hx => by rw [h0] at hx; cases hx⟩
  have hj : SweepsJudged t := Run.invariant (P := SweepsJudged)
    (fun _ _ _ h hstep => step_judged hL h hstep.2) hstart hr
  obtain ⟨hund, ho, rfl⟩ := hs
  obtain ⟨o, call⟩ := step
  have hj' : SweepsJudged (t.standing o) := hj.onward hj.pool ho
  intro n slot hslot hocc
  cases call with
  | readSlots => exact hslot
  | readOrphans => exact slot_initializeSlots (b := (t.standing o).board) hj.pool hslot hocc.1
  | write k =>
    show (Sweeping.write (t.standing o) k).board.slot n = some slot
    rw [Sweeping.write]
    cases hsw : (t.standing o).pending[k]? with
    | none => exact hslot
    | some sweep =>
      have hmem := mem_of_getElem? hsw
      exact write_keeps (b := (t.standing o).board) (hj'.judged sweep hmem)
        (hund k rfl sweep hsw) hslot hocc
  | onOrchestrationComplete orch | claimFreeSlot preferred | claimLaneSlot n | bind res run orch =>
    cases hsweep

/-! ## A completion between the read and the write -/

/-- Slot 1 still names ticket 1's orchestration, which is over; slot 2 is free. -/
def leftover : Sweeping where
  board :=
    { entries := Keyed.empty
      slots := [{ slotNumber := 1, isAvailable := false, currentOrchestrationRunId := some 1 },
        { slotNumber := 2 }]
      outside := twoTickets }
  pending := []

/-- One free slot, and an orchestration of ticket 1 that runs in none. -/
def orphaned : Sweeping where
  board :=
    { entries := Keyed.empty
      slots := [{ slotNumber := 1 }]
      outside := { tickets := [{ id := 1 }, { id := 2 }],
                   orchestrations := [{ id := 1, ticketId := 1, status := .running }] } }
  pending := []

/-- Ticket 1's orchestration is given the one free slot. -/
theorem sweep_at_once_orphaned : ((orphaned.readOrphans oneSlot.toLaneService).write 0).board =
    claimOrphanedOrchestrations oneSlot.toLaneService orphaned.board :=
  congrArg Sweeping.board (sweep_at_once oneSlot.toLaneService orphaned (List.nodup_singleton 1)).2

/-- What some calls leave, one after the other, while nothing else moves. -/
def Sweeping.after (s : Sweeping) (cs : List SweepCall) : Sweeping :=
  cs.foldl (fun s c => c.serve oneSlot.toLaneService (s.standing s.board.outside)) s

instance (b : Board) (o : Outside) (sweep : Sweep) : Decidable (sweep.Stands b o) :=
  match sweep with
  | .slots _ _ => inferInstanceAs (Decidable (_ ∧ _))
  | .orphans pairs => inferInstanceAs (Decidable (∀ p ∈ pairs, _))

instance (o : Outside) (slot : AgentSlot) : Decidable (Occupied o slot) :=
  inferInstanceAs (Decidable (_ ∧ _))

theorem sweepStep_after (s : Sweeping) (c : SweepCall) :
    SweepStep oneSlot.toLaneService s (s.board.outside, c) (s.after [c]) :=
  ⟨.refl _, rfl⟩

theorem run_sweeping (s : Sweeping) (cs : List SweepCall) :
    ∃ trace, Run (SweepStep oneSlot.toLaneService) s trace (s.after cs) := by
  induction cs generalizing s with
  | nil => exact ⟨[], .nil s⟩
  | cons c cs ih =>
    obtain ⟨trace, hr⟩ := ih (s.after [c])
    exact ⟨_, .cons (sweepStep_after s c) hr⟩

theorem oneSlot_onward : oneSlot.toLaneService.Onward where
  prepare _ o := .refl o
  stage d hd _ _ o := by
    cases hd
    exact .refl o
  whole d hd _ _ o := by
    cases hd
    exact .refl o

/-- The leftover is given back while a reservation made since the read keeps its slot. -/
theorem sweeps_leave_live_slots_reserved :
    ((leftover.after [.readSlots, .claimLaneSlot 2]).after [.write 0]).board.slot 2 =
      some { slotNumber := 2, isAvailable := false, assignedAt := some 0 } := by
  have hund : ∀ s (c : SweepCall), (∀ k, c ≠ .write k) →
      UndisturbedStep oneSlot.toLaneService s (s.board.outside, c) (s.after [c]) :=
    fun s c hc => ⟨fun k hk => absurd hk (hc k), sweepStep_after s c⟩
  have hr := Run.cons (hund leftover .readSlots (by simp))
    (Run.cons (hund (leftover.after [.readSlots]) (.claimLaneSlot 2) (by simp)) (Run.nil _))
  have hpool : leftover.board.Pool := by
    show [1, 2].Nodup
    decide
  have hwrite : Undisturbed (leftover.after [.readSlots, .claimLaneSlot 2])
      (twoTickets, .write 0) := by
    rintro k hk
    cases hk
    decide +kernel
  refine sweeps_leave_live_slots oneSlot_onward hpool rfl hr
    ⟨hwrite, sweepStep_after _ (.write 0)⟩ rfl 2 _ ?_ ?_
  · decide +kernel
  · decide +kernel

/-- A session ends ticket 1's orchestration and another claims its slot between the
    read of a sweep and its write, which frees the slot again; and a slot claimed
    after the orphan pass read it as free is pointed at the orphan. -/
theorem sweep_takes_a_fresh_claim :
    (∃ trace t t', Run (SweepStep oneSlot.toLaneService) leftover trace t ∧
      SweepStep oneSlot.toLaneService t (t.board.outside, .write 0) t' ∧
        ∃ slot, t.board.slot 1 = some slot ∧ Occupied t.board.outside slot ∧
          (t'.board.slot 1).any (·.isAvailable) = true) ∧
    ∃ trace t t', Run (SweepStep oneSlot.toLaneService) orphaned trace t ∧
      SweepStep oneSlot.toLaneService t (t.board.outside, .write 0) t' ∧
        ∃ slot, t.board.slot 1 = some slot ∧ Occupied t.board.outside slot ∧
          (t'.board.slot 1).any (·.currentOrchestrationRunId = some 1) = true := by
  obtain ⟨trace, hr⟩ := run_sweeping leftover
    [.readSlots, .onOrchestrationComplete 1, .claimLaneSlot 1]
  obtain ⟨trace', hr'⟩ := run_sweeping orphaned [.readOrphans, .claimFreeSlot none]
  let fresh : AgentSlot := { slotNumber := 1, isAvailable := false, assignedAt := some 0 }
  refine ⟨⟨trace, _, _, hr, sweepStep_after _ _, fresh, ?_, ?_, ?_⟩,
    trace', _, _, hr', sweepStep_after _ _, fresh, ?_, ?_, ?_⟩
  all_goals decide +kernel

end Loregarden.Lanes
