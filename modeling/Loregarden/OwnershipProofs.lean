import Loregarden.SlotProofs
import Loregarden.RegimeProofs

/-! # Who holds a slot

A slot is handed out by a reservation or by the start of its lane, and that claim stands until its
owner releases it or what it is bound to completes. The code keeps no such record: it infers the
owner from the slot's two ids and a time stamp. Here the open claims are kept beside the tables, and
**`slots_owned_once`** is that no slot is under two of them, in every run in which no stale
reservation writes a slot another claim holds and no completion takes a reservation for its own
leftover. -/

namespace Loregarden.Lanes

open Ranked Runs List
open Option hiding map_map or_self

/-- What became of the lane an orchestration ended in. -/
inductive LaneEnd where
  /-- It is held for repair. -/
  | held
  /-- The entry is settled, and this slot, if any, was given back. -/
  | settled (freed : Option Nat)

theorem settled_id (e : QueuedRun) : (settled e).id = e.id := rfl

/-- The end of `on_orchestration_complete`, up to the start of the lane. -/
def settleAndGiveBack (b : Board) (entry : Option QueuedRun) (slot : Option AgentSlot) :
    Board × LaneEnd :=
  let b := entry.elim b fun e =>
    if e.status = .started then b else b.update e.id settled settled_id
  (slot.elim b fun s => releaseSlot b s.slotNumber, .settled (slot.map (·.slotNumber)))

/-- `on_orchestration_complete`, up to the start of the lane. -/
def endOrchestration (L : LaneService) (b : Board) (orch : Nat) : Board × LaneEnd :=
  match entryOfOrchestration b.entries orch,
      b.slots.find? (·.currentOrchestrationRunId = some orch) with
  | none, held => settleAndGiveBack b none held
  | some entry, none => settleAndGiveBack b (some entry) (slotLeftBusyBy b entry)
  | some entry, some slot =>
    match holdForRepair L b entry with
    | (b, true) => (b, .held)
    | (b, false) => settleAndGiveBack b (some entry) (some slot)

def LaneEnd.startNext (L : LaneService) (b : Board) : LaneEnd → Board
  | .settled (some n) => (startLaneHead L b n).1
  | _ => b

variable {L : LaneService} {Q : QueueService}

theorem settleAndFree_eq_startNext (b : Board) (entry : Option QueuedRun)
    (slot : Option AgentSlot) :
    settleAndFree L b entry slot =
      (settleAndGiveBack b entry slot).2.startNext L (settleAndGiveBack b entry slot).1 := by
  cases entry <;> cases slot <;> rfl

theorem onOrchestrationComplete_eq_startNext (b : Board) (orch : Nat) :
    onOrchestrationComplete L b orch =
      (endOrchestration L b orch).2.startNext L (endOrchestration L b orch).1 := by
  rw [onOrchestrationComplete, endOrchestration]
  cases entryOfOrchestration b.entries orch with
  | none => exact settleAndFree_eq_startNext b none _
  | some entry =>
    cases b.slots.find? (·.currentOrchestrationRunId = some orch) with
    | none => exact settleAndFree_eq_startNext b (some entry) _
    | some slot =>
      dsimp only
      cases holdForRepair L b entry with
      | mk b' held =>
        cases held with
        | true => rfl
        | false => exact settleAndFree_eq_startNext b' (some entry) (some slot)

/-! ## Claims -/

/-- Who a slot was handed to: a reservation, counted as they were made, or the head of its lane. -/
inductive Owner where
  | reservation (r : Nat)
  | head (entry : EntryId)
  deriving DecidableEq

/-- A claim that is still open, and what it is bound to. -/
structure Claim where
  owner : Owner
  slotNumber : Nat
  run : Option Nat := none
  orchestration : Option Nat := none

def Claim.occupant (c : Claim) : Option Occupant := occupantOf c.run c.orchestration

/-- The tables, the reservations handed out, and the open claims. -/
structure Tenancy where
  board : Board
  reservations : List Reservation
  claims : List Claim

inductive SlotCall where
  | reserve (ticketId : TicketId) (entryKind : QueueEntryKind) (stageKey : String) (ask : Ask)
      (preferred orch : Option Nat)
  | bind (r : Nat) (run orch : Option Nat)
  | release (r : Nat)
  | startLaneHead (n : Nat)
  | onOrchestrationComplete (orch : Nat)

/-- The claim of a lane's head, bound to what its slot names. -/
def headClaim (b : Board) (n : Nat) (i : EntryId) : List Claim :=
  (b.slot n).toList.map fun s =>
    { owner := .head i, slotNumber := n
      run := s.currentRunId, orchestration := s.currentOrchestrationRunId }

/-- The claim a reservation opens: none where it is parked, or names a slot its
    orchestration had. -/
def Reservation.claim (res : Reservation) (r : Nat) : List Claim :=
  if res.admitted ∧ ¬ res.reused then [{ owner := .reservation r, slotNumber := res.slotNumber }]
  else []

/-- What a bind adds to the claim of its own reservation. -/
def Claim.bind (r : Nat) (run orch : Option Nat) (c : Claim) : Claim :=
  if c.owner = .reservation r then
    { c with run := run.or c.run, orchestration := orch.or c.orchestration }
  else c

def Tenancy.startHead (L : LaneService) (s : Tenancy) (n : Nat) : Tenancy :=
  let (b, started) := startLaneHead L s.board n
  { s with board := b, claims := s.claims ++ started.elim [] (headClaim b n) }

def Tenancy.reserved (s : Tenancy) : Board × Except String Reservation → Tenancy
  | (b, .error _) => { s with board := b }
  | (b, .ok res) =>
    { board := b
      reservations := s.reservations ++ [res]
      claims := s.claims ++ res.claim s.reservations.length }

def Tenancy.bound (s : Tenancy) (r : Nat) (run orch : Option Nat) : Tenancy :=
  match s.reservations[r]? with
  | none => s
  | some res =>
    { board := (res.bind s.board run orch).1
      reservations := s.reservations.set r (res.bind s.board run orch).2
      claims := s.claims.map (Claim.bind r run orch) }

def Tenancy.released (s : Tenancy) (r : Nat) : Tenancy :=
  match s.reservations[r]? with
  | none => s
  | some res =>
    { s with
      board := res.release s.board
      claims := s.claims.filter (·.owner ≠ .reservation r) }

/-- The end of an orchestration ends the claims bound to it, unless its lane is held
    for repair; the lane given back is then started. -/
def Tenancy.completed (L : LaneService) (s : Tenancy) (orch : Nat) : Tenancy :=
  match endOrchestration L s.board orch with
  | (b, .held) => { s with board := b }
  | (b, .settled freed) =>
    let s := { s with board := b, claims := s.claims.filter (·.orchestration ≠ some orch) }
    freed.elim s (s.startHead L)

def SlotCall.serve (Q : QueueService) (s : Tenancy) : SlotCall → Tenancy
  | .reserve ticketId entryKind stageKey ask preferred orch =>
    s.reserved (Lanes.reserve Q s.board ticketId entryKind stageKey ask preferred orch)
  | .bind r run orch => s.bound r run orch
  | .release r => s.released r
  | .startLaneHead n => s.startHead Q.toLaneService n
  | .onOrchestrationComplete orch => s.completed Q.toLaneService orch

/-- The state when the rest of the program stands as `o`. -/
def Tenancy.standing (s : Tenancy) (o : Outside) : Tenancy :=
  { s with board := { s.board with outside := o } }

def SlotStep (Q : QueueService) (s : Tenancy) (step : Outside × SlotCall) (s' : Tenancy) : Prop :=
  s' = step.2.serve Q (s.standing step.1)

/-- The condition on a call, in the state it is made in. A reservation that writes its slot finds it
    under no other claim, or, giving it back, under one bound to something else; and the leftover a
    completion would free is not a reservation made before its entry was started. -/
def KeepsOwners (s : Tenancy) : SlotCall → Prop
  | .bind r _ _ =>
    ∀ res ∈ s.reservations[r]?, res.admitted = true → res.reused = false →
      ∀ c ∈ s.claims, c.slotNumber = res.slotNumber → c.owner = .reservation r
  | .release r =>
    ∀ res ∈ s.reservations[r]?, res.admitted = true → res.reused = false →
      ∀ c ∈ s.claims, c.slotNumber = res.slotNumber →
        c.owner = .reservation r ∨ c.occupant.isSome = true ∧ c.occupant ≠ res.boundId
  | .onOrchestrationComplete orch =>
    (∀ slot ∈ s.board.slots, slot.currentOrchestrationRunId ≠ some orch) →
      ∀ e ∈ entryOfOrchestration s.board.entries orch, ∀ c ∈ s.claims,
        c.slotNumber = e.slotNumber → c.occupant = none →
          ∀ slot ∈ s.board.slot e.slotNumber, claimIsFresh slot none e.promotedAt = true
  | .reserve .. | .startLaneHead _ => True

abbrev OwnedStep (Q : QueueService) : Tenancy → Outside × SlotCall → Tenancy → Prop :=
  Guarded (SlotStep Q) fun s step => KeepsOwners s step.2

variable {b b' : Board} {n m r : Nat} {s s' : Tenancy} {c : Claim}

/-- The claim's slot is taken, and names what the claim is bound to. -/
def Held (b : Board) (c : Claim) : Prop :=
  ∃ slot, b.slot c.slotNumber = some slot ∧ slot.isAvailable = false ∧
    slot.currentRunId = c.run ∧ slot.currentOrchestrationRunId = c.orchestration

/-- No slot is under two open claims, and each claim's slot is taken for it. -/
structure Owned (s : Tenancy) : Prop where
  pool : s.board.Pool
  once : (s.claims.map (·.slotNumber)).Nodup
  held : ∀ c ∈ s.claims, Held s.board c
  reserved : ∀ c ∈ s.claims, ∀ r, c.owner = .reservation r → ∃ res,
    s.reservations[r]? = some res ∧ res.admitted = true ∧ res.reused = false ∧
      res.slotNumber = c.slotNumber

theorem Held.keepsBusy (h : Held b c) (hb : KeepsBusy b b') : Held b' c := by
  obtain ⟨slot, hslot, hbusy, hrun, horch⟩ := h
  exact ⟨slot, hb.busy _ _ hslot hbusy, hbusy, hrun, horch⟩

section

variable (h : Owned s)
include h

theorem Owned.shrink {claims : List Claim} (hsub : claims.Sublist s.claims)
    (hb : KeepsBusy s.board b') : Owned { s with board := b', claims := claims } where
  pool := hb.pool
  once := (hsub.map _).nodup h.once
  held c hc := (h.held c (hsub.subset hc)).keepsBusy hb
  reserved c hc := h.reserved c (hsub.subset hc)

theorem Owned.opened (hb : KeepsBusy s.board b')
    (hfree : ∀ slot, s.board.slot c.slotNumber = some slot → slot.isAvailable = true)
    (hc : Held b' c) (hr : ∀ r, c.owner = .reservation r → ∃ res, s.reservations[r]? = some res ∧
      res.admitted = true ∧ res.reused = false ∧ res.slotNumber = c.slotNumber) :
    Owned { s with board := b', claims := s.claims ++ [c] } where
  pool := hb.pool
  once := by
    rw [map_append, map_singleton]
    refine List.Nodup.append h.once (nodup_singleton _) ?_
    intro m hm hc'
    obtain rfl := mem_singleton.mp hc'
    obtain ⟨x, hx, hnum⟩ := mem_map.mp hm
    obtain ⟨slot, hslot, hbusy, -⟩ := h.held x hx
    rw [hfree slot (hnum ▸ hslot)] at hbusy
    cases hbusy
  held x hx := by
    rcases mem_append.mp hx with hx | hx
    · exact (h.held x hx).keepsBusy hb
    · rw [mem_singleton.mp hx]
      exact hc
  reserved x hx := by
    rcases mem_append.mp hx with hx | hx
    · exact h.reserved x hx
    · rw [mem_singleton.mp hx]
      exact hr

theorem startHead_owned (n : Nat) : Owned (s.startHead L n) := by
  have hstart := startLaneHead_slots L n h.pool
  rw [Tenancy.startHead]
  cases hreply : startLaneHead L s.board n with
  | mk b' started =>
    rw [hreply] at hstart
    have hkeep := hstart.keepsBusy h.pool
    cases started with
    | none =>
      dsimp only
      rw [elim_none, append_nil]
      exact h.shrink (List.Sublist.refl _) hkeep
    | some i =>
      cases hstart with
      | started i ticket s₀ slot hs₀ hfree hbut hslot hbusy _ _ =>
        dsimp only at hslot ⊢
        rw [elim_some, headClaim, hslot]
        refine h.opened hkeep ?_ ⟨slot, hslot, hbusy, rfl, rfl⟩ fun r hr => by cases hr
        intro x hx
        rw [hs₀, some.injEq] at hx
        exact hx ▸ hfree

omit h in
theorem addToLane_slots (L : LaneService) (b : Board) (ticketId : TicketId) (lane : Nat)
    (entryKind : QueueEntryKind) (stageKey : String) (ask : Ask)
    (hfull : ∀ s ∈ (initializeSlots L b).slots, s.isAvailable = false) :
    (addToLane L b ticketId lane entryKind stageKey ask).1.slots = b.slots ∨
      (addToLane L b ticketId lane entryKind stageKey ask).1.slots
        = (initializeSlots L b).slots := by
  rw [addToLane]
  split
  · exact .inl rfl
  · right
    dsimp only
    split
    · rfl
    · next slot hslot =>
        have hbusy := hfull slot (mem_of_find?_eq_some hslot)
        split
        · rfl
        · split
          · rfl
          · rw [startAdded_board, hbusy]
            rfl

omit h in
theorem parkRequest_slots (Q : QueueService) (b : Board) (ticketId : TicketId) (lane : Nat)
    (entryKind : QueueEntryKind) (stageKey : String) (ask : Ask)
    (hfull : ∀ s ∈ (initializeSlots Q.toLaneService b).slots, s.isAvailable = false) :
    (parkRequest Q (initializeSlots Q.toLaneService b) ticketId lane entryKind stageKey ask).1.slots
        = (initializeSlots Q.toLaneService b).slots ∧
      ∀ res, (parkRequest Q (initializeSlots Q.toLaneService b) ticketId lane entryKind stageKey
        ask).2 = .ok res → res.admitted = false := by
  have htwice := initializeSlots_full hfull
  have hadd := addToLane_slots Q.toLaneService (initializeSlots Q.toLaneService b) ticketId lane
    entryKind stageKey ask (by rw [htwice]; exact hfull)
  rw [htwice, or_self] at hadd
  rw [parkRequest]
  split
  · next b₁ why hreply =>
      rw [hreply] at hadd
      exact ⟨hadd, fun _ h => by cases h⟩
  · next b₁ reply hreply =>
      rw [hreply] at hadd
      exact ⟨hadd, fun _ h => by cases h; rfl⟩

omit h in
theorem Reservation.claim_eq_nil {res : Reservation}
    (h : res.admitted = false ∨ res.reused = true) :
    res.claim r = [] := by
  rw [Reservation.claim, if_neg]
  rcases h with h | h <;> simp [h]

theorem Owned.record (res : Reservation) :
    Owned { s with reservations := s.reservations ++ [res] } where
  pool := h.pool
  once := h.once
  held := h.held
  reserved c hc r hr := by
    obtain ⟨res', hres', hrest⟩ := h.reserved c hc r hr
    obtain ⟨hlt, -⟩ := List.getElem?_eq_some_iff.mp hres'
    exact ⟨res', (List.getElem?_append_left hlt).trans hres', hrest⟩

theorem Owned.reserve_none (hb : KeepsBusy s.board b') {res : Reservation}
    (hres : res.admitted = false ∨ res.reused = true) : Owned (s.reserved (b', .ok res)) := by
  rw [Tenancy.reserved, res.claim_eq_nil hres, append_nil]
  exact (h.record res).shrink (List.Sublist.refl _) hb

theorem Owned.reserve_some (hclaim : claimLaneSlot s.board n = some b')
    {res : Reservation} (hin : res.admitted = true) (hnew : res.reused = false)
    (hn : res.slotNumber = n) : Owned (s.reserved (b', .ok res)) := by
  subst hn
  obtain ⟨⟨slot, hslot, hfree, hslot'⟩, hbut, -, -⟩ := claimLaneSlot_eq_some hclaim
  have hopen : ∀ x, s.board.slot res.slotNumber = some x → x.isAvailable = true := fun x hx =>
    (some.inj (hslot.symm.trans hx)) ▸ hfree
  rw [Tenancy.reserved, Reservation.claim, if_pos ⟨hin, by simp [hnew]⟩]
  refine (h.record res).opened (hbut.keepsBusy h.pool hopen) hopen
    ⟨_, hslot', rfl, rfl, rfl⟩ fun r hr => ?_
  cases hr
  exact ⟨res, List.getElem?_concat_length, hin, hnew, rfl⟩

theorem reserved_owned (ticketId : TicketId) (entryKind : QueueEntryKind)
    (stageKey : String) (ask : Ask) (preferred orch : Option Nat) :
    Owned (s.reserved (reserve Q s.board ticketId entryKind stageKey ask preferred orch)) := by
  have hinit : Owned { s with board := initializeSlots Q.toLaneService s.board } :=
    h.shrink (List.Sublist.refl _) (initializeSlots_keepsBusy h.pool)
  rw [reserve]
  split
  · exact hinit.reserve_none (.of_slots hinit.pool rfl) (.inr rfl)
  · dsimp only
    split
    · next b' n hclaim =>
        exact hinit.reserve_some (claimFreeSlot_eq_some hclaim) rfl rfl rfl
    · next hnone =>
        obtain ⟨hslots, hparked⟩ := parkRequest_slots Q s.board ticketId _ entryKind stageKey ask
          (claimFreeSlot_eq_none hinit.pool hnone)
        generalize parkRequest Q _ ticketId _ entryKind stageKey ask = reply at hslots hparked ⊢
        obtain ⟨b', result⟩ := reply
        cases result with
        | error why => exact hinit.shrink (List.Sublist.refl _) (.of_slots hinit.pool hslots)
        | ok res => exact hinit.reserve_none (.of_slots hinit.pool hslots) (.inl (hparked res rfl))

end

/-! ## Binding and releasing -/

theorem Claim.bind_slotNumber (r : Nat) (run orch : Option Nat) (c : Claim) :
    (c.bind r run orch).slotNumber = c.slotNumber := by
  rw [Claim.bind]
  split <;> rfl

theorem Claim.bind_owner (r : Nat) (run orch : Option Nat) (c : Claim) :
    (c.bind r run orch).owner = c.owner := by
  rw [Claim.bind]
  split <;> rfl

theorem Claim.bind_of_ne {run orch : Option Nat} (h : c.owner ≠ .reservation r) :
    c.bind r run orch = c := if_neg h

theorem Owned.owner_ne (h : Owned s) {res : Reservation} (hres : s.reservations[r]? = some res)
    (hno : ¬ res.admitted ∨ res.reused ∨ (s.board.slot res.slotNumber).isNone) :
    ∀ c ∈ s.claims, c.owner ≠ .reservation r := by
  intro c hc ho
  obtain ⟨res', hres', hin, hnew, hnum⟩ := h.reserved c hc r ho
  rw [hres, some.injEq] at hres'
  subst hres'
  obtain ⟨slot, hslot, -⟩ := h.held c hc
  rcases hno with hno | hno | hno
  · exact hno hin
  · rw [hnew] at hno
    cases hno
  · rw [hnum, hslot] at hno
    cases hno

theorem Reservation.bind_same (res : Reservation) (b : Board) (run orch : Option Nat) :
    (res.bind b run orch).2.admitted = res.admitted ∧ (res.bind b run orch).2.reused = res.reused ∧
      (res.bind b run orch).2.slotNumber = res.slotNumber := by
  rw [Reservation.bind]
  split
  · exact ⟨rfl, rfl, rfl⟩
  · exact ⟨rfl, rfl, rfl⟩

theorem bind_board (res : Reservation) (b : Board) (run orch : Option Nat) :
    (res.bind b run orch).1.slots = b.slots ∧
        (¬ res.admitted ∨ res.reused ∨ (b.slot res.slotNumber).isNone) ∨
      res.admitted = true ∧ res.reused = false ∧
        (res.bind b run orch).1.slots = (b.updateSlot res.slotNumber fun s =>
          { s with
            currentRunId := run.or s.currentRunId
            currentOrchestrationRunId := orch.or s.currentOrchestrationRunId }).slots := by
  rw [Reservation.bind]
  split
  · next hno => exact .inl ⟨rfl, hno⟩
  · next hyes =>
      refine .inr ⟨?_, ?_, rfl⟩
      · by_contra hin
        exact hyes (.inl hin)
      · by_contra hin
        exact hyes (.inr (.inl (by simpa using hin)))

/-- A claim on another slot does not see the bind; the one on this slot is the reservation's own. -/
theorem bind_held (h : Owned s) {res : Reservation} (run orch : Option Nat)
    (hres : s.reservations[r]? = some res) (hk : KeepsOwners s (.bind r run orch)) :
    (res.bind s.board run orch).1.Pool ∧
      ∀ c ∈ s.claims, Held (res.bind s.board run orch).1 (c.bind r run orch) := by
  rcases bind_board res s.board run orch with ⟨hslots, hno⟩ | ⟨hin, hnew, hslots⟩
  · have hkeep := KeepsBusy.of_slots h.pool hslots
    refine ⟨hkeep.pool, fun c hc => ?_⟩
    rw [Claim.bind_of_ne (h.owner_ne hres hno c hc)]
    exact (h.held c hc).keepsBusy hkeep
  · have hbut : SlotsBut res.slotNumber s.board (res.bind s.board run orch).1 :=
      .updateSlot hslots fun _ => rfl
    refine ⟨hbut.pool h.pool, fun c hc => ?_⟩
    obtain ⟨slot, hslot, hbusy, hrun, horch⟩ := h.held c hc
    by_cases hn : c.slotNumber = res.slotNumber
    · rw [Claim.bind, if_pos (hk res hres hin hnew c hc hn)]
      rw [hn] at hslot ⊢
      exact ⟨_, slot_write _ hslot hslots fun _ => rfl, hbusy, by rw [← hrun], by rw [← horch]⟩
    · have hne : c.owner ≠ .reservation r := by
        intro ho
        obtain ⟨res', hres', -, -, hnum⟩ := h.reserved c hc r ho
        rw [hres, some.injEq] at hres'
        exact hn (hres' ▸ hnum.symm)
      rw [Claim.bind_of_ne hne]
      exact ⟨slot, (hbut.others _ hn).trans hslot, hbusy, hrun, horch⟩

theorem bound_owned (h : Owned s) (run orch : Option Nat)
    (hk : KeepsOwners s (.bind r run orch)) : Owned (s.bound r run orch) := by
  rw [Tenancy.bound]
  split
  · exact h
  · next res hres =>
      obtain ⟨hpool, hheld⟩ := bind_held h run orch hres hk
      obtain ⟨hin, hnew, hnum⟩ := res.bind_same s.board run orch
      refine ⟨hpool, ?_, ?_, ?_⟩
      · rw [map_map]
        have hsame : s.claims.map ((·.slotNumber) ∘ Claim.bind r run orch)
            = s.claims.map (·.slotNumber) :=
          map_congr_left fun c _ => Claim.bind_slotNumber r run orch c
        rw [hsame]
        exact h.once
      · intro c' hc'
        obtain ⟨c, hc, rfl⟩ := mem_map.mp hc'
        exact hheld c hc
      · intro c' hc' r' ho
        obtain ⟨c, hc, rfl⟩ := mem_map.mp hc'
        rw [Claim.bind_owner] at ho
        rw [Claim.bind_slotNumber]
        obtain ⟨x, hx, hrest⟩ := h.reserved c hc r' ho
        obtain ⟨hlt, -⟩ := List.getElem?_eq_some_iff.mp hx
        by_cases hr : r = r'
        · subst hr
          rw [hres, some.injEq] at hx
          subst hx
          exact ⟨_, List.getElem?_set_self hlt, hin ▸ hrest.1, hnew ▸ hrest.2.1,
            hnum.trans hrest.2.2⟩
        · exact ⟨x, (List.getElem?_set_ne hr).trans hx, hrest⟩

/-- What a release leaves of the slots: nothing changed, or its slot was given back
    and named nobody, or what the reservation had bound. -/
theorem release_board (res : Reservation) (b : Board) : (res.release b).slots = b.slots ∨
      res.admitted = true ∧ res.reused = false ∧ (res.release b) = releaseSlot b res.slotNumber ∧
        ∃ slot, b.slot res.slotNumber = some slot ∧
          (slot.occupant = none ∨ slot.occupant = res.boundId) := by
  rw [Reservation.release]
  split
  · exact .inl rfl
  · next hyes =>
      obtain ⟨hin, hnew⟩ := not_or.mp hyes
      split
      · exact .inl rfl
      · next slot hslot =>
          split
          · exact .inl rfl
          · next hocc =>
              refine .inr ⟨not_not.mp hin, by simpa using hnew, rfl, slot, hslot, ?_⟩
              by_cases hsome : slot.occupant = none
              · exact .inl hsome
              · right
                by_contra hne
                exact hocc ⟨isSome_iff_ne_none.mpr hsome, hne⟩

theorem released_owned (h : Owned s) (hk : KeepsOwners s (.release r)) : Owned (s.released r) := by
  rw [Tenancy.released]
  split
  · exact h
  · next res hres =>
      rcases release_board res s.board with hslots | ⟨hin, hnew, hrel, slot, hslot, hocc⟩
      · exact h.shrink filter_sublist (.of_slots h.pool hslots)
      · rw [hrel]
        have hbut := releaseSlot_but s.board res.slotNumber
        refine ⟨hbut.pool h.pool, (filter_sublist.map _).nodup h.once, ?_, ?_⟩
        · intro c hc
          obtain ⟨hc, howner⟩ := mem_filter.mp hc
          obtain ⟨x, hx, hbusy, hrun, horch⟩ := h.held c hc
          refine ⟨x, (hbut.others _ fun hn => ?_).trans hx, hbusy, hrun, horch⟩
          -- another's claim on the slot is bound to something else, so it was not freed
          rcases hk res hres hin hnew c hc hn with ho | ⟨hsome, hne⟩
          · exact of_decide_eq_true howner ho
          · rw [hn, hslot, some.injEq] at hx
            subst hx
            rw [AgentSlot.occupant, hrun, horch] at hocc
            rcases hocc with hocc | hocc
            · rw [Claim.occupant, hocc] at hsome
              cases hsome
            · exact hne hocc
        · intro c hc
          exact h.reserved c (mem_filter.mp hc).1

/-! ## Completion -/

theorem holdForRepair_slots (b : Board) (entry : QueuedRun) :
    (holdForRepair L b entry).1.slots = b.slots := by
  rw [holdForRepair]
  split
  · dsimp only
    split
    · rfl
    · split
      · rfl
      · split
        · rfl
        · split <;> rfl
  · rfl

theorem settleAndGiveBack_slots (b : Board) (entry : Option QueuedRun) (slot : Option AgentSlot) :
    (settleAndGiveBack b entry slot).1.slots
      = (slot.elim b fun s => releaseSlot b s.slotNumber).slots := by
  have hsettle : (entry.elim b fun e => if e.status = QueuePosition.started then b
      else b.update e.id settled fun _ => rfl).slots = b.slots := by
    cases entry with
    | none => rfl
    | some e =>
      rw [elim_some]
      split <;> rfl
  cases slot with
  | none => exact hsettle
  | some s =>
    show (releaseSlot _ s.slotNumber).slots = (releaseSlot b s.slotNumber).slots
    rw [releaseSlot, Board.updateSlot, hsettle]
    rfl

/-- What the end of an orchestration leaves of the slots: nothing changed, or the
    slot that named it was given back, or, where none did, its entry's leftover. -/
theorem endOrchestration_slots (b : Board) (orch : Nat) :
    (endOrchestration L b orch).1.slots = b.slots ∨
      ∃ slot, (endOrchestration L b orch).1.slots = (releaseSlot b slot.slotNumber).slots ∧
        (slot ∈ b.slots ∧ slot.currentOrchestrationRunId = some orch ∨
          (∀ x ∈ b.slots, x.currentOrchestrationRunId ≠ some orch) ∧
            ∃ e, entryOfOrchestration b.entries orch = some e ∧
              slotLeftBusyBy b e = some slot) := by
  rw [endOrchestration]
  cases hheld : b.slots.find? (·.currentOrchestrationRunId = some orch) with
  | none =>
    have hnone : ∀ x ∈ b.slots, x.currentOrchestrationRunId ≠ some orch := fun x hx => by
      simpa using List.find?_eq_none.mp hheld x hx
    cases hentry : entryOfOrchestration b.entries orch with
    | none => exact .inl (settleAndGiveBack_slots b none none)
    | some e =>
      have hgive := settleAndGiveBack_slots b (some e) (slotLeftBusyBy b e)
      dsimp only
      cases hleft : slotLeftBusyBy b e with
      | none =>
        rw [hleft] at hgive
        exact .inl hgive
      | some slot =>
        rw [hleft] at hgive
        exact .inr ⟨slot, hgive, .inr ⟨hnone, e, rfl, hleft⟩⟩
  | some slot =>
    have hnames : slot ∈ b.slots ∧ slot.currentOrchestrationRunId = some orch :=
      ⟨mem_of_find?_eq_some hheld, by simpa using List.find?_some hheld⟩
    cases hentry : entryOfOrchestration b.entries orch with
    | none => exact .inr ⟨slot, settleAndGiveBack_slots b none (some slot), .inl hnames⟩
    | some e =>
      dsimp only
      have hslots := holdForRepair_slots (L := L) b e
      cases hhold : holdForRepair L b e with
      | mk b' held =>
        rw [hhold] at hslots
        cases held with
        | true => exact .inl hslots
        | false =>
          refine .inr ⟨slot, ?_, .inl hnames⟩
          rw [settleAndGiveBack_slots]
          show (releaseSlot b' slot.slotNumber).slots = _
          rw [releaseSlot, Board.updateSlot, hslots]
          rfl

theorem settleAndGiveBack_outside (b : Board) (entry : Option QueuedRun)
    (slot : Option AgentSlot) : (settleAndGiveBack b entry slot).1.outside = b.outside := by
  have hsettle : (entry.elim b fun e => if e.status = QueuePosition.started then b
      else b.update e.id settled settled_id).outside = b.outside := by
    cases entry with
    | none => rfl
    | some e =>
      rw [elim_some]
      split <;> rfl
  cases slot <;> exact hsettle

theorem holdForRepair_outside (b : Board) (entry : QueuedRun) :
    (holdForRepair L b entry).1.outside = b.outside ∨
      ∃ ticket, (holdForRepair L b entry).1.outside = (L.prepareRerun ticket b.outside).2 := by
  rw [holdForRepair]
  split
  · next orch ticket _ _ =>
      dsimp only
      split
      · exact .inl rfl
      · split
        · exact .inl rfl
        · split
          · exact .inl rfl
          · split
            · exact .inr ⟨ticket, rfl⟩
            · exact .inr ⟨ticket, rfl⟩
  · exact .inl rfl

theorem endOrchestration_outside (b : Board) (orch : Nat) :
    (endOrchestration L b orch).1.outside = b.outside ∨
      ∃ ticket, (endOrchestration L b orch).1.outside = (L.prepareRerun ticket b.outside).2 := by
  rw [endOrchestration]
  cases entryOfOrchestration b.entries orch with
  | none => exact .inl (settleAndGiveBack_outside b none _)
  | some e =>
    cases b.slots.find? (·.currentOrchestrationRunId = some orch) with
    | none => exact .inl (settleAndGiveBack_outside b (some e) _)
    | some slot =>
      have hhold := holdForRepair_outside (L := L) b e
      dsimp only
      cases hreply : holdForRepair L b e with
      | mk b₁ held =>
        rw [hreply] at hhold
        cases held with
        | true => exact hhold
        | false =>
          rw [settleAndGiveBack_outside]
          exact hhold

theorem endOrchestration_held (b : Board) (orch : Nat) (h : (endOrchestration L b orch).2 = .held) :
    (endOrchestration L b orch).1.slots = b.slots := by
  revert h
  rw [endOrchestration]
  cases entryOfOrchestration b.entries orch with
  | none => exact fun h => by cases h
  | some e =>
    cases b.slots.find? (·.currentOrchestrationRunId = some orch) with
    | none => exact fun h => by cases h
    | some slot =>
      have hslots := holdForRepair_slots (L := L) b e
      dsimp only
      cases hhold : holdForRepair L b e with
      | mk b' held =>
        rw [hhold] at hslots
        cases held with
        | true => exact fun _ => hslots
        | false => exact fun h => by cases h

section

variable {orch : Nat} (h : Owned s) (hk : KeepsOwners s (.onOrchestrationComplete orch))
include h hk

/-- A claim bound to something else, or to nothing yet, is not on the slot given back. -/
theorem endOrchestration_owned :
    Owned { s with
      board := (endOrchestration L s.board orch).1
      claims := s.claims.filter (·.orchestration ≠ some orch) } := by
  rcases endOrchestration_slots (L := L) s.board orch with hslots | ⟨slot, hslots, hwhich⟩
  · exact h.shrink filter_sublist (.of_slots h.pool hslots)
  · have hbut : SlotsBut slot.slotNumber s.board (endOrchestration L s.board orch).1 :=
      (releaseSlot_but s.board slot.slotNumber).trans (.of_slots hslots)
    refine ⟨hbut.pool h.pool, (filter_sublist.map _).nodup h.once, fun c hc => ?_,
      fun c hc => h.reserved c (mem_filter.mp hc).1⟩
    obtain ⟨hc, hother⟩ := mem_filter.mp hc
    have hother : c.orchestration ≠ some orch := of_decide_eq_true hother
    obtain ⟨x, hx, hbusy, hrun, horch⟩ := h.held c hc
    refine ⟨x, (hbut.others _ fun hn => ?_).trans hx, hbusy, hrun, horch⟩
    rcases hwhich with ⟨hmem, hnames⟩ | ⟨hnone, e, he, hleft⟩
    · have hslot := (slot_eq_some h.pool).mpr ⟨hmem, hn.symm⟩
      rw [hslot, some.injEq] at hx
      subst hx
      exact hother (horch ▸ hnames)
    · obtain ⟨hslot, hkind⟩ := filter_eq_some_iff.mp hleft
      obtain ⟨hnothing, hstale⟩ := of_decide_eq_true hkind
      have hnum := slot_number hslot
      have hx' := hx
      rw [hn, hnum, hslot, some.injEq] at hx'
      subst hx'
      rw [slotIsBusyWithNothing, hrun, horch] at hnothing
      have hunbound : c.occupant = none := by
        rw [Claim.occupant, occupantOf]
        cases hcr : c.run <;> cases hco : c.orchestration <;> simp_all
      exact hstale (hk hnone e he c hc (hn.trans hnum) hunbound slot hslot)

theorem completed_owned : Owned (s.completed L orch) := by
  have hended := endOrchestration_owned (L := L) h hk
  have hheld := endOrchestration_held (L := L) s.board orch
  rw [Tenancy.completed]
  cases hreply : endOrchestration L s.board orch with
  | mk b' ended =>
    rw [hreply] at hended hheld
    cases ended with
    | held => exact h.shrink (List.Sublist.refl _) (.of_slots h.pool (hheld rfl))
    | settled freed =>
      cases freed with
      | none => exact hended
      | some n => exact startHead_owned hended n

end

theorem serve_owned {step : Outside × SlotCall} (h : Owned s) (hk : KeepsOwners s step.2) :
    Owned (step.2.serve Q (s.standing step.1)) := by
  obtain ⟨o, call⟩ := step
  have ho : Owned (s.standing o) := ⟨h.pool, h.once, h.held, h.reserved⟩
  cases call with
  | reserve ticketId entryKind stageKey ask preferred orch =>
    exact reserved_owned ho ticketId entryKind stageKey ask preferred orch
  | bind r run orch => exact bound_owned ho run orch hk
  | release r => exact released_owned ho hk
  | startLaneHead n => exact startHead_owned ho n
  | onOrchestrationComplete orch => exact completed_owned ho hk

/-- **A slot has one owner**: from a pool no claim is open on, in every run in which no
    stale reservation writes a slot another claim holds and no completion takes a
    reservation for its own leftover, no slot is under two open claims, and every open
    claim's slot is still taken and names what the claim is bound to. -/
theorem slots_owned_once {trace : List (Outside × SlotCall)} (hp : s.board.Pool)
    (hclaims : s.claims = []) (hr : Run (OwnedStep Q) s trace s') : Owned s' := by
  have hstart : Owned s := by
    refine ⟨hp, ?_, ?_, ?_⟩ <;> rw [hclaims]
    · exact nodup_nil
    · exact fun _ hc => by cases hc
    · exact fun _ hc => by cases hc
  refine Run.invariant (P := Owned) ?_ hstart hr
  rintro s step _ hs ⟨hk, rfl⟩
  exact serve_owned hs hk

/-! ## One slot, two callers -/

def freePool : Tenancy where
  board := { entries := Keyed.empty, slots := [{ slotNumber := 1 }], outside := twoTickets }
  reservations := []
  claims := []

def slotCalls (cs : List SlotCall) : List (Outside × SlotCall) := cs.map fun c => (twoTickets, c)

def tenancyAfter (cs : List SlotCall) : Tenancy :=
  (slotCalls cs).foldl (fun s step => step.2.serve oneSlot (s.standing step.1)) freePool

instance (s : Tenancy) : DecidablePred (KeepsOwners s)
  | .bind r _ _ => inferInstanceAs (Decidable (∀ res ∈ s.reservations[r]?, _))
  | .release r => inferInstanceAs (Decidable (∀ res ∈ s.reservations[r]?, _))
  | .onOrchestrationComplete orch =>
    inferInstanceAs (Decidable ((∀ slot ∈ s.board.slots, _) →
      ∀ e ∈ entryOfOrchestration s.board.entries orch, _))
  | .reserve .. | .startLaneHead _ => inferInstanceAs (Decidable True)

theorem run_tenancyAfter (cs : List SlotCall) :
    Run (SlotStep oneSlot) freePool (slotCalls cs) (tenancyAfter cs) := by
  refine Run.of_foldl (fun s l => ?_) _ _
  exact rfl

theorem run_owned {cs : List SlotCall}
    (h : meets (fun s step => step.2.serve oneSlot (s.standing step.1))
      (fun s step => decide (KeepsOwners s step.2)) freePool (slotCalls cs) = true) :
    Run (OwnedStep oneSlot) freePool (slotCalls cs) (tenancyAfter cs) :=
  Run.of_meets (fun _ _ hc => ⟨of_decide_eq_true hc, rfl⟩) h

def reserveTicket (ticketId : TicketId) : SlotCall :=
  .reserve ticketId .orchestration "" {} none none

/-- One caller gives its slot back, the next one's orchestration completes, and a third
    is handed the slot. -/
theorem slots_owned_once_inTurn : Owned
    (tenancyAfter [reserveTicket 1, .release 0, reserveTicket 2, .bind 1 none (some 1),
      .onOrchestrationComplete 1, .startLaneHead 1, reserveTicket 1, .bind 2 (some 1) none]) := by
  have hpool : freePool.board.Pool := nodup_singleton 1
  refine slots_owned_once hpool rfl (run_owned ?_)
  decide +kernel

/-- The first reservation is bound, completes, and is released late, when the slot is
    the second one's: the third is handed the slot as well. -/
theorem late_release_frees_the_next : ∃ trace s, Run (SlotStep oneSlot) freePool trace s ∧
      ¬ (s.claims.map (·.slotNumber)).Nodup := by
  refine ⟨_, _, run_tenancyAfter [reserveTicket 1, .bind 0 none (some 1),
    .onOrchestrationComplete 1, reserveTicket 2, .release 0, reserveTicket 1], ?_⟩
  decide +kernel

end Loregarden.Lanes
