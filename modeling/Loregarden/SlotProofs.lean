import Loregarden.AdmissionModel
import Loregarden.LaneLifeProofs

/-! # The slot pool

    What each operation does to the slots, whatever becomes of the entries:

    * `Board.Pool`: the slots carry numbers of their own, so a slot is found by
      its number; every operation keeps it.
    * `SlotsBut n`: nothing but slot `n` was touched.
    * **`LaneStart`**: everything a lane start may do to the slots, the dispatch it
      made included. -/

namespace Loregarden.Lanes

open Ranked List AgentSlot

variable {L : LaneService} {b b' b'' : Board} {n m : Nat} {s : AgentSlot}
  {change : AgentSlot → AgentSlot}

def Board.Pool (b : Board) : Prop := (b.slots.map (·.slotNumber)).Nodup

theorem find?_of_nodup {α : Type*} {num : α → Nat} {rows : List α} {x : α}
    (hn : (rows.map num).Nodup) (hx : x ∈ rows) : rows.find? (num · = num x) = some x := by
  cases hfound : rows.find? (num · = num x) with
  | none => simpa using List.find?_eq_none.mp hfound x hx
  | some y =>
    have hnum : num y = num x := by simpa using List.find?_some hfound
    rw [inj_on_of_nodup_map hn (mem_of_find?_eq_some hfound) hx hnum]

theorem slot_eq_some (hp : b.Pool) : b.slot n = some s ↔ s ∈ b.slots ∧ s.slotNumber = n := by
  constructor
  · intro h
    exact ⟨mem_of_find?_eq_some h, by simpa using List.find?_some h⟩
  · rintro ⟨hs, rfl⟩
    exact find?_of_nodup hp hs

theorem slot_congr (h : b'.slots = b.slots) (n : Nat) : b'.slot n = b.slot n := by
  rw [Board.slot, h, Board.slot]

theorem slot_number (h : b.slot n = some s) : s.slotNumber = n := by
  simpa using List.find?_some h

/-! ## Writing one slot -/

/-- Only slot `n` was touched. -/
structure SlotsBut (n : Nat) (b b' : Board) : Prop where
  numbers : b'.slots.map (·.slotNumber) = b.slots.map (·.slotNumber)
  others : ∀ m, m ≠ n → b'.slot m = b.slot m

theorem SlotsBut.pool (h : SlotsBut n b b') (hp : b.Pool) : b'.Pool := by
  rw [Board.Pool, h.numbers]
  exact hp

theorem SlotsBut.trans (h : SlotsBut n b b') (h' : SlotsBut n b' b'') : SlotsBut n b b'' :=
  ⟨h'.numbers.trans h.numbers, fun m hm => (h'.others m hm).trans (h.others m hm)⟩

theorem SlotsBut.of_slots (h : b'.slots = b.slots) : SlotsBut n b b' :=
  ⟨by rw [h], fun m _ => by rw [Board.slot, h, Board.slot]⟩

theorem find?_update {slots : List AgentSlot} (hc : ∀ s, (change s).slotNumber = s.slotNumber) :
    (slots.map fun s => if s.slotNumber = n then change s else s).find? (·.slotNumber = m)
      = (slots.find? (·.slotNumber = m)).map fun s =>
          if s.slotNumber = n then change s else s := by
  rw [List.find?_map]
  congr 2
  ext s
  rw [Function.comp_apply]
  split
  · rw [hc]
  · rfl

section

variable (hs : b'.slots = (b.updateSlot n change).slots)
  (hc : ∀ s, (change s).slotNumber = s.slotNumber)
include hs hc

/-- A write to slot `n` is read there, and nowhere else. -/
theorem slot_updateSlot_self : b'.slot n = (b.slot n).map change := by
  rw [Board.slot, hs, Board.updateSlot, find?_update hc, Board.slot]
  cases h : b.slots.find? (·.slotNumber = n) with
  | none => rfl
  | some s =>
    have hnum : s.slotNumber = n := by simpa using List.find?_some h
    rw [Option.map_some, Option.map_some, if_pos hnum]

omit hs hc in
theorem slot_write (change : AgentSlot → AgentSlot) (hs : b.slot n = some s)
    (hslots : b'.slots = (b.updateSlot n change).slots)
    (hc : ∀ s, (change s).slotNumber = s.slotNumber) : b'.slot n = some (change s) := by
  rw [slot_updateSlot_self hslots hc, hs, Option.map_some]

theorem SlotsBut.updateSlot : SlotsBut n b b' := by
  refine ⟨?_, fun m hm => ?_⟩
  · rw [hs, Board.updateSlot, map_map]
    refine map_congr_left fun s _ => ?_
    rw [Function.comp_apply]
    split
    · exact hc s
    · rfl
  · rw [Board.slot, hs, Board.updateSlot, find?_update hc, Board.slot]
    cases h : b.slots.find? (·.slotNumber = m) with
    | none => rfl
    | some s =>
      have hnum : s.slotNumber = m := by simpa using List.find?_some h
      rw [Option.map_some, if_neg (hnum ▸ hm)]

end

def AgentSlot.claimed (now : Instant) (s : AgentSlot) : AgentSlot :=
  { s with
    isAvailable := false, assignedAt := some now,
    currentRunId := none, currentOrchestrationRunId := none }

def AgentSlot.released (s : AgentSlot) : AgentSlot :=
  { s with isAvailable := true, currentRunId := none, currentOrchestrationRunId := none }

theorem claimLaneSlot_eq_some (h : claimLaneSlot b n = some b') :
    (∃ s, b.slot n = some s ∧ s.isAvailable = true ∧ b'.slot n = some (s.claimed b.outside.now)) ∧
      SlotsBut n b b' ∧ b'.entries = b.entries ∧ b'.outside = b.outside := by
  rw [claimLaneSlot] at h
  split at h
  · cases h
  · next s hs =>
      split at h
      · next hfree =>
          cases h
          exact ⟨⟨s, hs, hfree, slot_write (claimed _) hs rfl fun _ => rfl⟩,
            .updateSlot rfl (fun _ => rfl), rfl, rfl⟩
      · cases h

theorem releaseSlot_slot (b : Board) (n : Nat) :
    (releaseSlot b n).slot n = (b.slot n).map released :=
  slot_updateSlot_self rfl fun _ => rfl

theorem releaseSlot_but (b : Board) (n : Nat) : SlotsBut n b (releaseSlot b n) :=
  .updateSlot rfl fun _ => rfl

/-! ## Fitting the pool -/

theorem mem_initializeSlots (h : s ∈ (initializeSlots L b).slots) :
    s ∈ b.slots ∨ s = { slotNumber := s.slotNumber } := by
  rcases mem_append.mp h with h | h
  · exact .inl (mem_filter.mp h).1
  · obtain ⟨n, -, rfl⟩ := mem_map.mp h
    exact .inr rfl

theorem initializeSlots_mem (h : s ∈ b.slots) (hbusy : s.isAvailable = false) :
    s ∈ (initializeSlots L b).slots := by
  refine mem_append_left _ (mem_filter.mpr ⟨h, ?_⟩)
  simp [hbusy]

theorem initializeSlots_pool (hp : b.Pool) : (initializeSlots L b).Pool := by
  rw [Board.Pool, initializeSlots, fitSlotPool, map_append, map_map]
  have hnew : ((fun s : AgentSlot => s.slotNumber) ∘ fun n => { slotNumber := n }) = id := rfl
  rw [hnew, map_id]
  refine List.Nodup.append ((filter_sublist.map _).nodup hp)
    (filter_sublist.nodup nodup_range') ?_
  intro n hn hmissing
  have hnot := (mem_filter.mp hmissing).2
  exact of_decide_eq_true hnot hn

theorem slot_initializeSlots (hp : b.Pool) (hs : b.slot n = some s)
    (hbusy : s.isAvailable = false) : (initializeSlots L b).slot n = some s := by
  obtain ⟨hmem, hnum⟩ := (slot_eq_some hp).mp hs
  exact (slot_eq_some (initializeSlots_pool hp)).mpr ⟨initializeSlots_mem hmem hbusy, hnum⟩

theorem initializeSlots_full (h : ∀ s ∈ (initializeSlots L b).slots, s.isAvailable = false) :
    initializeSlots L (initializeSlots L b) = initializeSlots L b := by
  have hkept : (initializeSlots L b).slots.filter
      (fun s => ¬ (s.slotNumber > L.maxConcurrent ∧ s.isAvailable)) = (initializeSlots L b).slots :=
    filter_eq_self.mpr fun s hs => by simp [h s hs]
  have hfull : (List.range' 1 L.maxConcurrent).filter
      (fun n => n ∉ (initializeSlots L b).slots.map (·.slotNumber)) = [] := by
    refine filter_eq_nil_iff.mpr fun n hn hmissing => ?_
    refine of_decide_eq_true hmissing ?_
    rw [initializeSlots, fitSlotPool, map_append, mem_append, map_map]
    by_cases hin : n ∈ (b.slots.filter fun s => ¬ (s.slotNumber > L.maxConcurrent ∧
        s.isAvailable)).map (·.slotNumber)
    · exact .inl hin
    · exact .inr (mem_map.mpr ⟨n, mem_filter.mpr ⟨hn, decide_eq_true hin⟩, rfl⟩)
  have hslots : fitSlotPool L.maxConcurrent (initializeSlots L b).slots
      = (initializeSlots L b).slots := by
    rw [fitSlotPool]
    rw [hkept, hfull]
    exact append_nil _
  rw [initializeSlots, hslots]

/-- The pool keeps its numbers, and no slot that is taken is touched. -/
structure KeepsBusy (b b' : Board) : Prop where
  pool : b'.Pool
  busy : ∀ m s, b.slot m = some s → s.isAvailable = false → b'.slot m = some s

theorem KeepsBusy.of_slots (hp : b.Pool) (h : b'.slots = b.slots) : KeepsBusy b b' :=
  ⟨(SlotsBut.of_slots (n := 0) h).pool hp, fun m _ hs _ => (slot_congr h m).trans hs⟩

theorem initializeSlots_keepsBusy (hp : b.Pool) : KeepsBusy b (initializeSlots L b) :=
  ⟨initializeSlots_pool hp, fun _ _ hs hbusy => slot_initializeSlots hp hs hbusy⟩

theorem SlotsBut.keepsBusy (h : SlotsBut n b b') (hp : b.Pool)
    (hn : ∀ s, b.slot n = some s → s.isAvailable = true) : KeepsBusy b b' := by
  refine ⟨h.pool hp, fun m s hs hbusy => ?_⟩
  by_cases hm : m = n
  · subst hm
    rw [hn s hs] at hbusy
    cases hbusy
  · rw [h.others m hm]
    exact hs

theorem mem_freeSlots {preferred : Option Nat} :
    n ∈ freeSlots b preferred ↔ ∃ s ∈ b.slots, s.isAvailable = true ∧ s.slotNumber = n := by
  have hmem : n ∈ ((b.slots.filter (·.isAvailable)).map (·.slotNumber)).insertionSort (· ≤ ·) ↔
      ∃ s ∈ b.slots, s.isAvailable = true ∧ s.slotNumber = n := by
    rw [(perm_insertionSort _ _).mem_iff, mem_map]
    simp only [mem_filter, and_assoc]
  rw [freeSlots, mem_append, mem_filter, mem_filter, ← hmem]
  by_cases h : some n = preferred <;> simp [h]

theorem claimFreeSlot_eq_some {preferred : Option Nat}
    (h : claimFreeSlot b preferred = some (b', n)) : claimLaneSlot b n = some b' := by
  obtain ⟨m, -, h⟩ := Option.bind_eq_some_iff.mp h
  obtain ⟨b₁, hclaim, h⟩ := Option.map_eq_some_iff.mp h
  cases h
  exact hclaim

theorem claimFreeSlot_eq_none {preferred : Option Nat} (hp : b.Pool)
    (h : claimFreeSlot b preferred = none) : ∀ s ∈ b.slots, s.isAvailable = false := by
  intro s hs
  by_contra hfree
  have hfree : s.isAvailable = true := by simpa using hfree
  have hmem : s.slotNumber ∈ freeSlots b preferred := mem_freeSlots.mpr ⟨s, hs, hfree, rfl⟩
  cases hhead : (freeSlots b preferred).head? with
  | none =>
    rw [List.head?_eq_none_iff.mp hhead] at hmem
    cases hmem
  | some n =>
    obtain ⟨s', hs', hfree', hnum⟩ := mem_freeSlots.mp (mem_of_mem_head? hhead)
    have hslot := (slot_eq_some hp).mpr ⟨hs', hnum⟩
    rw [claimFreeSlot, hhead, Option.bind_some, claimLaneSlot, hslot] at h
    dsimp only at h
    rw [if_pos hfree'] at h
    cases h

/-! ## Starting the head of a lane -/

inductive DispatchMoves (L : LaneService) (o : Outside) : Outside → Prop where
  | same : DispatchMoves L o o
  | stage (d : Dispatcher) (ticket : Ticket) (e : QueuedRun) : L.dispatcher = some d →
      DispatchMoves L o (d.dispatchStage ticket e o).2
  | whole (d : Dispatcher) (ticket : Ticket) (ask : Ask) : L.dispatcher = some d →
      DispatchMoves L o (d.dispatchOrchestration ticket ask o).2

/-- A dispatch for the ticket answered with what the slot names now. -/
inductive Dispatched (L : LaneService) (ticket : Ticket) (o o' : Outside) (s : AgentSlot) :
    Prop where
  | stage (d : Dispatcher) (e : QueuedRun) (run : Nat) : L.dispatcher = some d →
      d.dispatchStage ticket e o = (.ok run, o') →
      s.currentRunId = some run → s.currentOrchestrationRunId = none →
      Dispatched L ticket o o' s
  | whole (d : Dispatcher) (ask : Ask) (orch : Nat) : L.dispatcher = some d →
      d.dispatchOrchestration ticket ask o = (some orch, o') →
      s.currentRunId = none → s.currentOrchestrationRunId = some orch →
      Dispatched L ticket o o' s

/-- Everything a start of lane `n` may do to the slots. -/
inductive LaneStart (L : LaneService) (n : Nat) (b b' : Board) : Option EntryId → Prop where
  /-- Nothing: the server drains, or the slot was not free. -/
  | unmoved : b'.slots = b.slots → b'.outside = b.outside → LaneStart L n b b' none
  /-- The free slot was claimed and given back. -/
  | refused (s s' : AgentSlot) : b.slot n = some s → s.isAvailable = true → SlotsBut n b b' →
      b'.slot n = some s' → s'.isAvailable = true →
      s'.currentRunId = none → s'.currentOrchestrationRunId = none →
      DispatchMoves L b.outside b'.outside → LaneStart L n b b' none
  /-- The free slot was claimed for a ticket no other slot works for. -/
  | started (i : EntryId) (ticket : Ticket) (s s' : AgentSlot) : b.slot n = some s →
      s.isAvailable = true → SlotsBut n b b' → b'.slot n = some s' → s'.isAvailable = false →
      (∀ x ∈ b.slots, x.slotNumber ≠ n → ticket.id ∉ slotTickets b.outside x) →
      Dispatched L ticket b.outside b'.outside s' → LaneStart L n b b' (some i)

theorem ticketsHoldingLanes_eq_nil {ticketId : TicketId} {exclude : Option Nat} :
    ticketsHoldingLanes b exclude ticketId = [] ↔
      ∀ x ∈ b.slots, some x.slotNumber ≠ exclude → ticketId ∉ slotTickets b.outside x := by
  rw [ticketsHoldingLanes]
  have hlen : ∀ xs : List Nat, xs.dedup.insertionSort (· ≤ ·) = [] ↔ xs = [] := by
    intro xs
    rw [← length_eq_zero_iff, length_insertionSort, length_eq_zero_iff, dedup_eq_nil]
  rw [hlen, map_eq_nil_iff, filter_eq_nil_iff]
  simp

theorem SlotsBut.mem (h : SlotsBut n b b') (hp : b.Pool) {x : AgentSlot} (hn : x.slotNumber ≠ n) :
    x ∈ b'.slots ↔ x ∈ b.slots := by
  have hread := h.others x.slotNumber hn
  constructor
  · intro hx
    rw [(slot_eq_some (h.pool hp)).mpr ⟨hx, rfl⟩] at hread
    exact ((slot_eq_some hp).mp hread.symm).1
  · intro hx
    rw [(slot_eq_some hp).mpr ⟨hx, rfl⟩] at hread
    exact ((slot_eq_some (h.pool hp)).mp hread).1

theorem startEntryWork_slots {d : Dispatcher} (ticket : Ticket) (head : QueuedRun)
    (hd : L.dispatcher = some d) (hs : b.slot n = some s) (hrun : s.currentRunId = none)
    (horch : s.currentOrchestrationRunId = none) :
    ((startEntryWork d ticket head n b).2 = false ∧
        (startEntryWork d ticket head n b).1.slots = b.slots ∧
        DispatchMoves L b.outside (startEntryWork d ticket head n b).1.outside) ∨
      ((startEntryWork d ticket head n b).2 = true ∧
        SlotsBut n b (startEntryWork d ticket head n b).1 ∧
        ∃ s', (startEntryWork d ticket head n b).1.slot n = some s' ∧
          s'.isAvailable = s.isAvailable ∧
          Dispatched L ticket b.outside (startEntryWork d ticket head n b).1.outside s') := by
  rw [startEntryWork]
  cases head.entryKind with
  | stage =>
    have hmove : DispatchMoves L b.outside _ := .stage d ticket head hd
    cases hreply : d.dispatchStage ticket head b.outside with
    | mk result o =>
      rw [hreply] at hmove
      cases result with
      | error reason => exact .inl ⟨rfl, rfl, hmove⟩
      | ok run =>
        exact .inr ⟨rfl, .updateSlot rfl fun _ => rfl, _,
          slot_write (fun s => { s with currentRunId := some run }) hs rfl fun _ => rfl, rfl,
          .stage d head run hd hreply rfl horch⟩
  | orchestration =>
    have hmove : DispatchMoves L b.outside _ := .whole d ticket head.ask hd
    cases hreply : d.dispatchOrchestration ticket head.ask b.outside with
    | mk result o =>
      rw [hreply] at hmove
      cases result with
      | none => exact .inl ⟨rfl, rfl, hmove⟩
      | some orch =>
        exact .inr ⟨rfl, .updateSlot rfl fun _ => rfl, _,
          slot_write (fun s => { s with currentOrchestrationRunId := some orch }) hs rfl
            fun _ => rfl, rfl, .whole d head.ask orch hd hreply hrun rfl⟩

theorem dispatchHead_slots {d : Dispatcher} {ticket : Ticket} {head : QueuedRun}
    {s₀ : AgentSlot} (hd : L.dispatcher = some d) (hp : b.Pool) (hs₀ : b.slot n = some s₀)
    (hfree : s₀.isAvailable = true) (hclaim : claimLaneSlot b n = some b') :
    LaneStart L n b (dispatchHead L n head d ticket b').1 (dispatchHead L n head d ticket b').2 := by
  obtain ⟨⟨s, hs, -, hs'⟩, hbut, -, hout⟩ := claimLaneSlot_eq_some hclaim
  rw [dispatchHead]
  split
  · -- the ticket holds another lane: the slot goes back
    exact .refused s₀ _ hs₀ hfree (hbut.trans (.updateSlot rfl fun _ => rfl))
      (slot_write (b := b') released hs' rfl fun _ => rfl) rfl rfl rfl (hout ▸ .same)
  · next helse =>
      have hnone := ticketsHoldingLanes_eq_nil.mp (not_not.mp helse)
      have hother : ∀ x ∈ b.slots, x.slotNumber ≠ n → ticket.id ∉ slotTickets b.outside x :=
        fun x hx hxn => hout ▸ hnone x ((hbut.mem hp hxn).mpr hx)
          fun heq => hxn (Option.some.inj heq)
      have hwork := startEntryWork_slots ticket head hd hs' rfl rfl
      rw [hout] at hwork
      cases hreply : startEntryWork d ticket head n b' with
      | mk b'' started =>
        rw [hreply] at hwork
        rcases hwork with ⟨hfalse, hslots, hmove⟩ | ⟨htrue, hbut', s', hs'', hbusy, hdisp⟩
        · obtain rfl : started = false := hfalse
          exact .refused s₀ _ hs₀ hfree
            ((hbut.trans (.of_slots hslots)).trans (releaseSlot_but b'' n))
            (slot_write released ((slot_congr hslots n).trans hs') rfl fun _ => rfl)
            rfl rfl rfl hmove
        · obtain rfl : started = true := htrue
          refine .started head.id ticket s₀ { s' with assignedAt := some b''.outside.now } hs₀
            hfree ((hbut.trans hbut').trans (.updateSlot rfl fun _ => rfl)) ?_ hbusy hother ?_
          · exact slot_write (fun s => { s with assignedAt := some b''.outside.now }) hs'' rfl
              fun _ => rfl
          · cases hdisp with
            | stage d e run hd hreply hrun horch => exact .stage d e run hd hreply hrun horch
            | whole d ask orch hd hreply hrun horch => exact .whole d ask orch hd hreply hrun horch

theorem LaneStart.retry {i : Option EntryId} {s₀ s₁ : AgentSlot} (hp : b.Pool)
    (hs₀ : b.slot n = some s₀) (hfree : s₀.isAvailable = true) (hbut : SlotsBut n b b')
    (hs₁ : b'.slot n = some s₁) (hfree₁ : s₁.isAvailable = true)
    (hrun : s₁.currentRunId = none) (horch : s₁.currentOrchestrationRunId = none)
    (hout : b'.outside = b.outside) (h : LaneStart L n b' b'' i) : LaneStart L n b b'' i := by
  cases h with
  | unmoved hslots hout' =>
    exact .refused s₀ s₁ hs₀ hfree (hbut.trans (.of_slots hslots))
      ((slot_congr hslots n).trans hs₁) hfree₁ hrun horch (by rw [hout', hout]; exact .same)
  | refused s s' _ _ hbut' hs' hfree' hrun' horch' hmove =>
    rw [hout] at hmove
    exact .refused s₀ s' hs₀ hfree (hbut.trans hbut') hs' hfree' hrun' horch' hmove
  | started i ticket s s' _ _ hbut' hs' hbusy hother hdisp =>
    rw [hout] at hother hdisp
    exact .started i ticket s₀ s' hs₀ hfree (hbut.trans hbut') hs' hbusy
      (fun x hx hxn => hother x ((hbut.mem hp hxn).mpr hx) hxn) hdisp

theorem startLaneHeadFrom_slots (fuel : Nat) (hp : b.Pool) :
    LaneStart L n b (startLaneHeadFrom L n fuel b).1 (startLaneHeadFrom L n fuel b).2 := by
  induction fuel generalizing b with
  | zero => exact .unmoved rfl rfl
  | succ fuel ih =>
    rw [startLaneHeadFrom]
    split
    · split
      · exact .unmoved rfl rfl
      · exact .unmoved rfl rfl
    · split
      · exact .unmoved rfl rfl
      · next b' hclaim =>
          obtain ⟨⟨s, hs, hfree, hs'⟩, hbut, -, hout⟩ := claimLaneSlot_eq_some hclaim
          have hback : LaneStart L n b (releaseSlot b' n) none :=
            .refused s _ hs hfree (hbut.trans (releaseSlot_but b' n))
              (slot_write released hs' rfl fun _ => rfl) rfl rfl rfl (hout ▸ .same)
          split
          · exact hback
          · exact hback
          · next head d _ hd =>
              split
              · -- the head's ticket is gone: its entry is deleted and the next one tried
                have hbut' : SlotsBut n b
                    (releaseSlot ((b'.delete head.id).renumber L n) n) :=
                  hbut.trans (.updateSlot rfl fun _ => rfl)
                exact LaneStart.retry hp hs hfree hbut'
                  (slot_write (b := b') released hs' rfl fun _ => rfl) rfl rfl rfl hout
                  (ih (hbut'.pool hp))
              · exact dispatchHead_slots hd hp hs hfree hclaim

/-- **Starting a lane's head** claims its slot, and keeps it only for a dispatch made
    for a ticket that holds no other slot. -/
theorem startLaneHead_slots (L : LaneService) (n : Nat) (hp : b.Pool) :
    LaneStart L n b (startLaneHead L b n).1 (startLaneHead L b n).2 :=
  startLaneHeadFrom_slots _ hp

theorem LaneStart.but {i : Option EntryId} (h : LaneStart L n b b' i) : SlotsBut n b b' := by
  cases h with
  | unmoved hslots _ => exact .of_slots hslots
  | refused _ _ _ _ hbut | started _ _ _ _ _ _ hbut => exact hbut

theorem LaneStart.keepsBusy {i : Option EntryId} (h : LaneStart L n b b' i) (hp : b.Pool) :
    KeepsBusy b b' := by
  cases h with
  | unmoved hslots _ => exact .of_slots hp hslots
  | refused s₀ _ hs₀ hfree hbut | started _ _ s₀ _ hs₀ hfree hbut =>
    exact hbut.keepsBusy hp fun s hs => (Option.some.inj (hs₀.symm.trans hs)) ▸ hfree

end Loregarden.Lanes

