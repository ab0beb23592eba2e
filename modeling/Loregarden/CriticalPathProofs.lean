import Mathlib.Tactic.Ring
import Loregarden.PlanScheduleProofs

/-! # What holds each start back

    A ticket that starts later than now was not started by the pass before, which stood at an
    earlier moment: then a prerequisite was not finished, or every slot of its pool was taken. So
    something it waited for finishes at its start, and was booked before it, and the trace back
    leads through such starts to one at now.

    * `Explained.pass`: the invariant, over `Waiting` for the tickets without a slot;
    * `Explained.trace`: the trace back;
    * `critical_path_explains`: what the chain says of the last finish. -/

namespace Loregarden.Plan

open List
open Option hiding map_map

variable {g : PlanGraph} {s s' : Sim} {clock now t : ℚ} {pool : String} {n m : PlanNode}
  {slots : List Slot} {candidates : List PlanNode} {b gate : Booking} {kept : List PlanNode}
  {width : String → Nat} {older older' bookings : List Booking} {id : Nat}

theorem PlanNode.work_nonneg (n : PlanNode) : 0 ≤ n.work := by
  rw [PlanNode.work]
  cases n.durationDays with
  | none => exact le_rfl
  | some days => exact days.2

/-- Whose slot a booking takes, and what stands in the slots behind it. -/
structure Taken (clock : ℚ) (slots : List Slot) (r : List Slot × List Booking) : Prop where
  source : ∀ b ∈ r.2, ∃ slot ∈ slots, slot.freeAt ≤ clock ∧ b.follows = slot.holder
  holds : ∀ slot ∈ r.1, slot ∈ slots ∨ ∃ b ∈ r.2, slot = ⟨b.finish, some b.node.id⟩

theorem fill_taken (clock : ℚ) (slots : List Slot) (candidates : List PlanNode) :
    Taken clock slots (fill clock slots candidates) := by
  induction slots generalizing candidates with
  | nil => exact ⟨fun b hb => absurd hb not_mem_nil, fun _ h => absurd h not_mem_nil⟩
  | cons slot slots ih =>
    cases candidates with
    | nil =>
      exact ⟨fun b hb => absurd hb not_mem_nil, fun slot h => .inl h⟩
    | cons n candidates =>
      rw [fill]
      by_cases hfree : slot.freeAt ≤ clock
      · rw [if_pos hfree]
        obtain ⟨hsource, hholds⟩ := ih candidates
        constructor
        · intro b hb
          rcases mem_cons.mp hb with rfl | hb
          · exact ⟨slot, mem_cons_self, hfree, rfl⟩
          · obtain ⟨other, hother, hle, hfollows⟩ := hsource b hb
            exact ⟨other, mem_cons_of_mem _ hother, hle, hfollows⟩
        · intro other hother
          rcases mem_cons.mp hother with rfl | hother
          · exact .inr ⟨_, mem_cons_self, rfl⟩
          · rcases hholds other hother with hold | ⟨b, hb, rfl⟩
            · exact .inl (mem_cons_of_mem _ hold)
            · exact .inr ⟨b, mem_cons_of_mem _ hb, rfl⟩
      · rw [if_neg hfree]
        obtain ⟨hsource, hholds⟩ := ih (n :: candidates)
        constructor
        · intro b hb
          obtain ⟨other, hother, hle, hfollows⟩ := hsource b hb
          exact ⟨other, mem_cons_of_mem _ hother, hle, hfollows⟩
        · intro other hother
          rcases mem_cons.mp hother with rfl | hother
          · exact .inl mem_cons_self
          · rcases hholds other hother with hold | hnew
            · exact .inl (mem_cons_of_mem _ hold)
            · exact .inr hnew

/-! ## What held a start back -/

/-- What a booking waited for was booked before it, and if it did not start at now, some of that
    finishes where it starts. -/
structure Gated (g : PlanGraph) (now : ℚ) (b : Booking) (older : List Booking) : Prop where
  deps : ∀ d ∈ g.deps b.node.id, ∃ gate ∈ older, gate.node.id = d ∧ gate.finish ≤ b.start
  follows : ∀ h, b.follows = some h → ∃ gate ∈ older, gate.node.id = h ∧
    gate.node.status ≠ .done ∧ gate.finish ≤ b.start
  start : b.start = now ∨ ∃ gate ∈ older, gate.node.status ≠ .done ∧ gate.finish = b.start ∧
    (gate.node.id ∈ g.deps b.node.id ∨ b.follows = some gate.node.id)

theorem Gated.mono (h : Gated g now b older) (hsub : older ⊆ older') : Gated g now b older' := by
  refine ⟨fun d hd => ?_, fun held hheld => ?_, h.start.imp id ?_⟩
  · obtain ⟨gate, hgate, hrest⟩ := h.deps d hd
    exact ⟨gate, hsub hgate, hrest⟩
  · obtain ⟨gate, hgate, hrest⟩ := h.follows held hheld
    exact ⟨gate, hsub hgate, hrest⟩
  · rintro ⟨gate, hgate, hrest⟩
    exact ⟨gate, hsub hgate, hrest⟩

/-- A pending ticket whose prerequisites have all finished before the clock finds no slot that was
    free before it. -/
def Waiting (g : PlanGraph) (now : ℚ) (s : Sim) : Prop :=
  ∀ clock, s.clock = some clock → now < clock → ∀ n ∈ s.pending,
    (∀ d ∈ g.deps n.id, ∃ b ∈ s.booked, b.node.id = d ∧ b.finish < clock) →
      ∀ slot ∈ s.slots n.pool, clock ≤ slot.freeAt

structure Explained (g : PlanGraph) (now : ℚ) (s : Sim) : Prop where
  gated : ∀ newer b older, s.booked = newer ++ b :: older → b.node.status ≠ .done →
    Gated g now b older
  resolved : ∀ b ∈ s.booked, b.node.status = .done → b.finish ≤ now
  held : ∀ pool, ∀ slot ∈ s.slots pool, (slot.holder = none → slot.freeAt = now) ∧
    ∀ h, slot.holder = some h → ∃ b ∈ s.booked, b.node.id = h ∧ b.node.status ≠ .done ∧
      b.finish = slot.freeAt
  waiting : Waiting g now s

section

variable (h : Explained g now s)
include h

section

variable (hs : Scheduled g kept width now s)
include hs

theorem Explained.started
    (hclock : s.clock = some clock) (hb : b ∈ s.started g clock) : Gated g now b s.booked := by
  obtain ⟨hstart, -⟩ := started_dates hb
  obtain ⟨hpending, hfinished⟩ := mem_eligible.mp (started_eligible hb)
  have hdeps : ∀ d ∈ g.deps b.node.id, ∃ gate ∈ s.booked, gate.node.id = d ∧ gate.finish ≤ clock :=
    fun d hd => (finishedBy_iff hs.booked_nodup).mp (hfinished d hd)
  obtain ⟨slot, hslot, hfree, hfollows⟩ :=
    (fill_taken clock (s.slots b.node.pool) _).source b (mem_started.mp hb)
  obtain ⟨hnone, hsome⟩ := h.held b.node.pool slot hslot
  rw [← hstart] at hdeps hfree
  refine ⟨hdeps, fun held hheld => ?_, ?_⟩
  · obtain ⟨gate, hgate, hid, hopen, hfinish⟩ := hsome held (hfollows ▸ hheld)
    exact ⟨gate, hgate, hid, hopen, hfinish.trans_le hfree⟩
  · rcases (hs.later clock hclock).eq_or_lt with heq | hlater
    · exact .inl (hstart.trans heq.symm)
    · refine .inr ?_
      rw [← hstart] at hlater
      by_cases hearly : ∀ d ∈ g.deps b.node.id, ∃ gate ∈ s.booked,
          gate.node.id = d ∧ gate.finish < b.start
      · -- its slot was not free before
        have hbusy := h.waiting clock hclock (hstart ▸ hlater) b.node hpending
          (hstart ▸ hearly) slot hslot
        rw [← hstart] at hbusy
        cases hholder : slot.holder with
        | none =>
          rw [hnone hholder] at hbusy
          exact absurd hlater (not_lt.mpr hbusy)
        | some held =>
          obtain ⟨gate, hgate, hid, hopen, hfinish⟩ := hsome held hholder
          refine ⟨gate, hgate, hopen, hfinish.trans (le_antisymm hfree hbusy), .inr ?_⟩
          rw [hfollows, hholder, hid]
      · push Not at hearly
        obtain ⟨d, hd, hlast⟩ := hearly
        obtain ⟨gate, hgate, hid, hle⟩ := hdeps d hd
        have hfinish := le_antisymm hle (hlast gate hgate hid)
        refine ⟨gate, hgate, fun hdone => ?_, hfinish, .inl (hid ▸ hd)⟩
        exact absurd hlater (not_lt.mpr (hfinish ▸ h.resolved gate hgate hdone))

section

variable (hkept : ∀ n ∈ kept, n.status ≠ .done)
include hkept

theorem Explained.startFreeSlots (hclock : s.clock = some clock) :
    Explained g now (s.startFreeSlots g clock) := by
  have hopen : ∀ b ∈ s.started g clock, b.node.status ≠ .done := by
    intro b hb
    exact hkept b.node (hs.pending b.node (mem_eligible.mp (started_eligible hb)).1).1
  have hslots : ∀ pool, ∀ slot ∈ (s.startFreeSlots g clock).slots pool, slot ∈ s.slots pool ∨
      ∃ b ∈ s.started g clock, slot = ⟨b.finish, some b.node.id⟩ := by
    intro pool slot hslot
    rcases (fill_taken clock (s.slots pool) _).holds slot hslot with hold | ⟨b, hb, rfl⟩
    · exact .inl hold
    · refine .inr ⟨b, mem_started.mpr ?_, rfl⟩
      rw [(mem_filled hb).2]
      exact hb
  constructor
  · intro newer b older hsplit hb
    rcases append_eq_append_iff.mp hsplit with ⟨mid, rfl, hold⟩ | ⟨mid, hnew, hold⟩
    · exact h.gated mid b older hold hb
    · cases mid with
      | nil => exact h.gated [] b older hold.symm hb
      | cons first mid =>
        obtain ⟨rfl, rfl⟩ := cons_eq_cons.mp hold
        have hstarted : b ∈ s.started g clock := by
          rw [hnew]
          exact mem_append_right _ mem_cons_self
        exact (h.started hs hclock hstarted).mono (subset_append_right ..)
  · intro b hb hdone
    rcases mem_append.mp hb with hb | hb
    · exact absurd hdone (hopen b hb)
    · exact h.resolved b hb hdone
  · intro pool slot hslot
    rcases hslots pool slot hslot with hold | ⟨b, hb, rfl⟩
    · obtain ⟨hnone, hsome⟩ := h.held pool slot hold
      refine ⟨hnone, fun held hheld => ?_⟩
      obtain ⟨b, hb, hrest⟩ := hsome held hheld
      exact ⟨b, mem_append_right _ hb, hrest⟩
    · refine ⟨fun hnone => absurd hnone (some_ne_none _), fun held hheld => ?_⟩
      exact ⟨b, mem_append_left _ hb, some.inj hheld, hopen b hb, rfl⟩
  · intro c hc hlater n hn hdeps slot hslot
    cases hclock.symm.trans hc
    have hafter : ∀ b ∈ s.started g clock, clock ≤ b.finish := by
      intro b hb
      rw [(started_dates hb).2]
      exact le_add_of_nonneg_right b.node.work_nonneg
    rcases hslots n.pool slot hslot with hold | ⟨b, hb, rfl⟩
    · refine h.waiting clock hclock hlater n (mem_filter.mp hn).1 (fun d hd => ?_) slot hold
      obtain ⟨b, hb, hid, hlt⟩ := hdeps d hd
      rcases mem_append.mp hb with hb | hb
      · exact absurd hlt (not_lt.mpr (hafter b hb))
      · exact ⟨b, hb, hid, hlt⟩
    · exact hafter b hb

omit hkept in
theorem Explained.advance (hnone : s.started g clock = []) :
    Explained g now { s with clock := s.nextEvent g clock } := by
  refine ⟨h.gated, h.resolved, h.held, ?_⟩
  intro next hnext _ n hn hdeps slot hslot
  have hfirst : ∀ t ∈ s.upcoming g clock, next ≤ t := (List.min?_eq_some_iff.mp hnext).2
  have heligible : n ∈ s.candidates g clock n.pool := by
    refine mem_candidates.mpr ⟨mem_eligible.mpr ⟨hn, fun d hd => ?_⟩, rfl⟩
    obtain ⟨b, hb, hid, hlt⟩ := hdeps d hd
    refine (finishedBy_iff hs.booked_nodup).mpr ⟨b, hb, hid, ?_⟩
    by_contra hlate
    have hfinish : s.finishOf d = some b.finish := by
      rw [Sim.finishOf, ← hid, booking_of_mem hs.booked_nodup hb, map_some]
    have hevent : b.finish ∈ s.upcoming g clock := by
      refine mem_filter.mpr ⟨mem_append_right _ ?_, decide_eq_true (not_le.mp hlate)⟩
      exact mem_flatMap.mpr ⟨n, hn, mem_filterMap.mpr ⟨d, hd, hfinish⟩⟩
    exact absurd hlt (not_lt.mpr (hfirst _ hevent))
  have hfull := (filled_spec g s clock n.pool).full (ne_nil_of_mem heligible) (by
    rw [← started_filter, hnone]
    rfl) slot hslot
  have hpool : n.pool ∈ s.pools := by
    rw [hs.pools]
    exact mem_dedup.mpr (mem_map_of_mem (hs.pending n hn).1)
  refine hfirst _ (mem_filter.mpr ⟨mem_append_left _ ?_, decide_eq_true hfull⟩)
  exact mem_map_of_mem (mem_flatMap.mpr ⟨n.pool, hpool, hslot⟩)

theorem Explained.pass (hpass : s.pass g = some s') : Explained g now s' := by
  obtain ⟨clock, hclock, -, ⟨hnone, rfl⟩ | ⟨-, rfl⟩⟩ := pass_cases hpass
  · exact h.advance hs hnone
  · exact h.startFreeSlots hs hkept hclock

theorem Explained.run (turns : Nat) :
    Explained g now (s.run g turns) ∧ Scheduled g kept width now (s.run g turns) := by
  induction turns generalizing s with
  | zero => exact ⟨h, hs⟩
  | succ turns ih =>
    rw [Sim.run]
    split
    · exact ⟨h, hs⟩
    · rename_i next hpass
      exact ih (h.pass hs hkept hpass) (hs.pass hpass)

end

omit h in
omit hs in
theorem simulation_explained (g : PlanGraph) (maxParallel : Nat)
    (hresolved : ∀ n ∈ g.nodes, n.status = .done → ∀ r, n.resolvedAt = some r → r ≤ now) :
    Explained g now (simulation g (cyclic g) maxParallel now) := by
  have hdone : ∀ b ∈ (simulation g (cyclic g) maxParallel now).booked,
      b.node.status = .done ∧ b.finish ≤ now := by
    intro b hb
    obtain ⟨n, hn, rfl⟩ := mem_map.mp hb
    obtain ⟨hn, hstatus⟩ := mem_filter.mp hn
    have hstatus : n.status = .done := of_decide_eq_true hstatus
    refine ⟨hstatus, ?_⟩
    show n.resolvedAt.getD now ≤ now
    cases hr : n.resolvedAt with
    | none => exact le_rfl
    | some r => exact hresolved n hn hstatus r hr
  refine ⟨?_, fun b hb _ => (hdone b hb).2, ?_, ?_⟩
  · intro newer b older hsplit hopen
    refine absurd (hdone b ?_).1 hopen
    rw [hsplit]
    exact mem_append_right _ mem_cons_self
  · intro pool slot hslot
    have hfresh : slot = { freeAt := now } := by
      rw [simulation] at hslot
      dsimp only at hslot
      split at hslot
      · exact absurd hslot not_mem_nil
      · exact eq_of_mem_replicate hslot
    rw [hfresh]
    exact ⟨fun _ => rfl, fun held hheld => absurd hheld.symm (some_ne_none held)⟩
  · intro clock hclock hlater
    cases hclock
    exact absurd hlater (lt_irrefl now)

omit h in
omit hs in
theorem latest_none : latest bookings = none ↔ bookings = [] := by
  cases bookings with
  | nil => exact iff_of_true rfl rfl
  | cons b bookings => exact iff_of_false (some_ne_none _) (cons_ne_nil _ _)

omit h in
omit hs in
theorem latest_some (h : latest bookings = some b) :
    b ∈ bookings ∧ ∀ other ∈ bookings, other.finish ≤ b.finish := by
  cases bookings with
  | nil => cases h
  | cons first bookings =>
    have hbest : ∀ (l : List Booking) (best : Booking),
        let last := l.foldl (fun best b => if best.finish < b.finish then b else best) best
        last ∈ best :: l ∧ ∀ other ∈ best :: l, other.finish ≤ last.finish := by
      intro l
      induction l with
      | nil =>
        intro best
        refine ⟨mem_cons_self, fun other hother => ?_⟩
        rw [mem_singleton.mp hother]
        exact le_rfl
      | cons b l ih =>
        intro best
        obtain ⟨hmem, hle⟩ := ih (if best.finish < b.finish then b else best)
        have hbetter := hle _ mem_cons_self
        constructor
        · rcases mem_cons.mp hmem with heq | hmem
          · rw [foldl_cons, heq]
            split
            · exact mem_cons_of_mem _ mem_cons_self
            · exact mem_cons_self
          · exact mem_cons_of_mem _ (mem_cons_of_mem _ hmem)
        · intro other hother
          rcases mem_cons.mp hother with rfl | hother
          · refine le_trans ?_ hbetter
            split
            · rename_i hlt
              exact hlt.le
            · exact le_rfl
          · rcases mem_cons.mp hother with rfl | hother
            · refine le_trans ?_ hbetter
              split
              · exact le_rfl
              · rename_i hle
                exact not_lt.mp hle
            · exact hle other (mem_cons_of_mem _ hother)
    obtain rfl := some.inj h
    exact hbest bookings first

omit h in
theorem openBooking_some :
    s.openBooking g id = some b ↔ b ∈ s.booked ∧ b.node.id = id ∧ b.node.status ≠ .done := by
  rw [Sim.openBooking]
  constructor
  · intro h
    split at h
    · rename_i hopen
      obtain ⟨hmem, rfl⟩ := booking_mem h
      exact ⟨hmem, rfl, (isOpen_of_mem (hs.known b hmem)).mp hopen⟩
    · cases h
  · rintro ⟨hmem, rfl, hopen⟩
    rw [if_pos ((isOpen_of_mem (hs.known b hmem)).mpr hopen)]
    exact booking_of_mem hs.booked_nodup hmem

section

variable {newer : List Booking} (hsplit : s.booked = newer ++ b :: older)
  (hb : b.node.status ≠ .done)
include hsplit hb

/-- The gates of a booking are open, were booked before it, and finish by its start; the latest
    finishes where it starts, if there is one or it starts later than now. -/
theorem Explained.gates :
    (∀ gate ∈ s.gates g b, gate ∈ older ∧ gate.node.status ≠ .done) ∧
      (latest (s.gates g b) = none → b.start = now) ∧
      ∀ gate, latest (s.gates g b) = some gate → gate.finish = b.start := by
  have hgated := h.gated newer b older hsplit hb
  have holder : older ⊆ s.booked := by
    rw [hsplit]
    exact subset_append_of_subset_right _ (subset_cons_self _ _)
  have hall : ∀ gate ∈ s.gates g b, gate ∈ older ∧ gate.node.status ≠ .done ∧
      gate.finish ≤ b.start := by
    intro gate hgate
    rcases mem_append.mp hgate with hgate | hgate
    · obtain ⟨d, hd, hbooking⟩ := mem_filterMap.mp hgate
      obtain ⟨hmem, hid, hopen⟩ := (openBooking_some hs).mp hbooking
      obtain ⟨other, hother, hsame, hle⟩ := hgated.deps d hd
      obtain rfl := inj_on_of_nodup_map hs.booked_nodup hmem (holder hother)
        (hid.trans hsame.symm)
      exact ⟨hother, hopen, hle⟩
    · obtain ⟨held, hheld, hbooking⟩ := bind_eq_some_iff.mp (mem_toList.mp hgate)
      obtain ⟨hmem, hid⟩ := booking_mem hbooking
      obtain ⟨other, hother, hsame, hopen, hle⟩ := hgated.follows held hheld
      obtain rfl := inj_on_of_nodup_map hs.booked_nodup hmem (holder hother)
        (hid.trans hsame.symm)
      exact ⟨hother, hopen, hle⟩
  -- a start after now has a gate that ends there
  have hstart : b.start = now ∨ ∃ gate ∈ s.gates g b, gate.finish = b.start := by
    rcases hgated.start with hnow | ⟨gate, hgate, hopen, hfinish, hdep | hfollows⟩
    · exact .inl hnow
    · refine .inr ⟨gate, mem_append_left _ (mem_filterMap.mpr ⟨_, hdep, ?_⟩), hfinish⟩
      exact (openBooking_some hs).mpr ⟨holder hgate, rfl, hopen⟩
    · refine .inr ⟨gate, mem_append_right _ (mem_toList.mpr ?_), hfinish⟩
      rw [hfollows, bind_some]
      exact booking_of_mem hs.booked_nodup (holder hgate)
  refine ⟨fun gate hgate => ⟨(hall gate hgate).1, (hall gate hgate).2.1⟩, ?_, ?_⟩
  · intro hnone
    refine hstart.resolve_right ?_
    rintro ⟨gate, hgate, -⟩
    rw [latest_none.mp hnone] at hgate
    exact absurd hgate not_mem_nil
  · intro gate hlatest
    obtain ⟨hgate, hlast⟩ := latest_some hlatest
    obtain ⟨hmem, hopen, hle⟩ := hall gate hgate
    refine le_antisymm hle ?_
    rcases hstart with hnow | ⟨other, hother, hfinish⟩
    · -- an open ticket does not finish before now
      obtain ⟨hafter, hfinish, -⟩ := hs.dates gate (holder hmem) hopen
      rw [hnow, hfinish]
      exact hafter.trans (le_add_of_nonneg_right gate.node.work_nonneg)
    · exact hfinish ▸ hlast other hother

/-- A chain back from a booking to one that starts at now. -/
structure TracesBack (s : Sim) (now : ℚ) (b : Booking) (bs : List Booking) : Prop where
  first : bs.head? = some b
  booked : ∀ x ∈ bs, x ∈ s.booked ∧ x.node.status ≠ .done
  joined : bs.IsChain fun x gate => gate.finish = x.start
  ends : ∀ x, bs.getLast? = some x → x.start = now

theorem Explained.trace {turns : Nat} {chain : List Nat}
    (hturns : older.length < turns) (hnew : ∀ x ∈ b :: older, x.node.id ∉ chain) :
    ∃ bs, s.trace g turns b chain = chain ++ bs.map (·.node.id) ∧ TracesBack s now b bs := by
  induction turns generalizing b older newer chain with
  | zero => exact absurd hturns (Nat.not_lt_zero _)
  | succ turns ih =>
    have hbooked : b ∈ s.booked := by
      rw [hsplit]
      exact mem_append_right _ mem_cons_self
    obtain ⟨hgates, hnone, hsome⟩ := h.gates hs hsplit hb
    rw [Sim.trace, if_neg (hnew b mem_cons_self)]
    cases hlatest : latest (s.gates g b) with
    | none =>
      refine ⟨[b], rfl, rfl, ?_, isChain_singleton _, ?_⟩
      · intro x hx
        rw [mem_singleton.mp hx]
        exact ⟨hbooked, hb⟩
      · rintro x ⟨⟩
        exact hnone hlatest
    | some gate =>
      obtain ⟨hgate, hopen⟩ := hgates gate (latest_some hlatest).1
      have hfinish := hsome gate hlatest
      obtain ⟨mid, rest, hrest⟩ := mem_iff_append.mp hgate
      have hheld : b.start - tolerance ≤ gate.finish := by
        rw [hfinish]
        exact sub_le_self _ (by rw [tolerance]; norm_num)
      have hnodup := hs.booked_nodup
      rw [hsplit, map_append, map_cons] at hnodup
      have hafter : b.node.id ∉ older.map (·.node.id) :=
        (nodup_cons.mp (nodup_append'.mp hnodup).2.1).1
      have hdeeper : s.booked = (newer ++ b :: mid) ++ gate :: rest := by
        rw [hsplit, hrest, ← cons_append, ← append_assoc]
      have hfewer : rest.length < turns := by
        rw [hrest, length_append, length_cons] at hturns
        omega
      have hunseen : ∀ x ∈ gate :: rest, x.node.id ∉ chain ++ [b.node.id] := by
        intro x hx hin
        have hold : x ∈ older := by
          rw [hrest]
          exact mem_append_right _ hx
        rcases mem_append.mp hin with hin | hin
        · exact hnew x (mem_cons_of_mem _ hold) hin
        · exact hafter (mem_singleton.mp hin ▸ mem_map_of_mem hold)
      obtain ⟨bs, htrace, hback⟩ := ih hdeeper hopen hfewer hunseen
      dsimp only
      rw [if_pos hheld, htrace]
      refine ⟨b :: bs, append_assoc .., rfl, ?_, ?_, ?_⟩
      · intro x hx
        rcases mem_cons.mp hx with rfl | hx
        · exact ⟨hbooked, hb⟩
        · exact hback.booked x hx
      · rw [isChain_cons]
        refine ⟨fun next hnext => ?_, hback.joined⟩
        rw [mem_def, hback.first] at hnext
        obtain rfl := some.inj hnext
        exact hfinish
      · intro x hx
        refine hback.ends x ?_
        cases bs with
        | nil => cases hback.first
        | cons next bs => exact hx

end

omit h in
theorem TracesBack.work {bs : List Booking}
    (h : TracesBack s now b bs) : (bs.map (·.node.work)).sum = b.finish - now := by
  induction bs generalizing b with
  | nil => cases h.first
  | cons x bs ih =>
    obtain rfl := some.inj h.first
    obtain ⟨hmem, hopen⟩ := h.booked x mem_cons_self
    obtain ⟨-, hfinish, -⟩ := hs.dates x hmem hopen
    cases bs with
    | nil =>
      have hstart := h.ends x rfl
      rw [map_singleton, sum_singleton, hfinish, hstart]
      ring
    | cons gate bs =>
      obtain ⟨hgate, hjoined⟩ := isChain_cons_cons.mp h.joined
      have hrest := ih ⟨rfl, fun y hy => h.booked y (mem_cons_of_mem _ hy), hjoined,
        fun y hy => h.ends y hy⟩
      rw [map_cons, sum_cons, hrest, hfinish, hgate]
      ring

def workOf (g : PlanGraph) (id : Nat) : ℚ := (g.node id).elim 0 PlanNode.work

/-- A chain explains the last finish: from now on each ticket of it starts where the one before it
    finishes, and nothing open finishes after its last. -/
structure Explains (g : PlanGraph) (s : Sim) (now : ℚ) (path : List Nat) : Prop where
  nonempty : ∀ n ∈ g.nodes, n.status ≠ .done → s.finishOf n.id ≠ none → path ≠ []
  scheduled : ∀ id ∈ path, g.isOpen id = true ∧ s.finishOf id ≠ none
  first : ∀ id, path.head? = some id → s.startOf id = some now
  joined : path.IsChain fun before id => s.finishOf before ≠ none ∧ s.startOf id = s.finishOf before
  last : ∀ id, path.getLast? = some id → ∃ finish, s.finishOf id = some finish ∧
    (∀ n ∈ g.nodes, n.status ≠ .done → ∀ other, s.finishOf n.id = some other → other ≤ finish) ∧
      (path.map (workOf g)).sum = finish - now

theorem Explained.explains : Explains g s now (criticalPath g s) := by
  have hopens : ∀ b, b ∈ g.ids.filterMap (s.openBooking g) ↔
      b ∈ s.booked ∧ b.node.status ≠ .done := by
    intro b
    rw [mem_filterMap]
    constructor
    · rintro ⟨id, -, hbooking⟩
      obtain ⟨hmem, -, hopen⟩ := (openBooking_some hs).mp hbooking
      exact ⟨hmem, hopen⟩
    · rintro ⟨hmem, hopen⟩
      exact ⟨b.node.id, mem_map_of_mem (hs.known b hmem),
        (openBooking_some hs).mpr ⟨hmem, rfl, hopen⟩⟩
  have hfinish : ∀ n ∈ g.nodes, n.status ≠ .done → ∀ t, s.finishOf n.id = some t →
      ∃ b ∈ g.ids.filterMap (s.openBooking g), b.finish = t := by
    intro n hn hopen t ht
    obtain ⟨b, hb, rfl⟩ := map_eq_some_iff.mp ht
    obtain ⟨hmem, hid⟩ := booking_mem hb
    rw [← inj_on_of_nodup_map g.nodup (hs.known b hmem) hn hid] at hopen
    exact ⟨b, (hopens b).mpr ⟨hmem, hopen⟩, rfl⟩
  rw [criticalPath]
  cases hlatest : latest (g.ids.filterMap (s.openBooking g)) with
  | none =>
    have hnil := latest_none.mp hlatest
    refine ⟨fun n hn hopen hdated => ?_, fun id hid => absurd hid not_mem_nil,
      fun id hid => Option.noConfusion rfl (heq_of_eq hid), isChain_nil,
      fun id hid => Option.noConfusion rfl (heq_of_eq hid)⟩
    obtain ⟨t, ht⟩ := Option.ne_none_iff_exists'.mp hdated
    obtain ⟨b, hb, -⟩ := hfinish n hn hopen t ht
    rw [hnil] at hb
    exact absurd hb not_mem_nil
  | some last =>
    obtain ⟨hlast, hmax⟩ := latest_some hlatest
    obtain ⟨hmem, hopen⟩ := (hopens last).mp hlast
    obtain ⟨newer, older, hsplit⟩ := mem_iff_append.mp hmem
    have hturns : older.length < g.nodes.length + 1 := by
      have hsub : s.booked.map (·.node.id) ⊆ g.ids := by
        intro id hid
        obtain ⟨b, hb, rfl⟩ := mem_map.mp hid
        exact mem_map_of_mem (hs.known b hb)
      have hle := (subperm_of_subset hs.booked_nodup hsub).length_le
      rw [length_map, hsplit, length_append, length_cons, PlanGraph.ids, length_map] at hle
      omega
    obtain ⟨bs, htrace, hback⟩ := h.trace hs hsplit hopen hturns
      (fun x _ => not_mem_nil)
    rw [nil_append] at htrace
    dsimp only
    rw [htrace, ← map_reverse]
    have hdates : ∀ b ∈ bs, s.startOf b.node.id = some b.start ∧
        s.finishOf b.node.id = some b.finish := by
      intro b hb
      have hbooking := booking_of_mem hs.booked_nodup (hback.booked b hb).1
      rw [Sim.startOf, Sim.finishOf, hbooking]
      exact ⟨rfl, rfl⟩
    refine ⟨fun _ _ _ _ hnil => ?_, ?_, ?_, ?_, ?_⟩
    · rw [map_eq_nil_iff, reverse_eq_nil_iff] at hnil
      rw [hnil] at hback
      cases hback.first
    · intro id hid
      obtain ⟨b, hb, rfl⟩ := mem_map.mp hid
      have hb := mem_reverse.mp hb
      obtain ⟨hbooked, hopen⟩ := hback.booked b hb
      refine ⟨(isOpen_of_mem (hs.known b hbooked)).mpr hopen, ?_⟩
      rw [(hdates b hb).2]
      exact some_ne_none _
    · intro id hid
      rw [List.head?_map, List.head?_reverse] at hid
      obtain ⟨b, hb, rfl⟩ := map_eq_some_iff.mp hid
      rw [(hdates b (mem_of_getLast? hb)).1, hback.ends b hb]
    · rw [isChain_map, isChain_reverse]
      refine hback.joined.imp_of_mem_imp fun x gate hx hgate hfinish => ?_
      rw [(hdates x hx).1, (hdates gate hgate).2, hfinish]
      exact ⟨some_ne_none _, rfl⟩
    · intro id hid
      rw [List.getLast?_map, List.getLast?_reverse, hback.first] at hid
      obtain rfl := some.inj hid
      refine ⟨last.finish, (hdates last (mem_of_mem_head? hback.first)).2, ?_, ?_⟩
      · intro n hn hopen other hother
        obtain ⟨b, hb, rfl⟩ := hfinish n hn hopen other hother
        exact hmax b hb
      · rw [← hback.work hs, map_map, map_reverse, sum_reverse]
        refine congrArg List.sum (map_congr_left fun b hb => ?_)
        show (g.node b.node.id).elim 0 PlanNode.work = b.node.work
        rw [node_of_mem (hs.known b (hback.booked b hb).1)]
        rfl

end

end

/-- **The critical path explains the finish date**, in a plan whose done tickets were resolved by
    now: the loop of the schedule is left, and behind every turn of it the chain is there if an
    open ticket has its dates, starts at now, goes on where it has finished, and ends with the
    latest finish. -/
theorem critical_path_explains (g : PlanGraph) (maxParallel : Nat) (now : ℚ)
    (hresolved : ∀ n ∈ g.nodes, n.status = .done → ∀ r, n.resolvedAt = some r → r ≤ now) :
    (∃ turns, (schedule g (cyclic g) maxParallel now turns).pass g = none) ∧
      ∀ turns, Explains g (schedule g (cyclic g) maxParallel now turns) now
        (criticalPath g (schedule g (cyclic g) maxParallel now turns)) := by
  refine ⟨halts g _, fun turns => ?_⟩
  obtain ⟨hexplained, hs⟩ := (simulation_explained g maxParallel hresolved).run
    (simulation_running g maxParallel now).scheduled
    (fun n hn => (mem_priceable_iff.mp hn).2.1) turns
  exact hexplained.explains hs

/-- One slot: a ticket takes it behind the ticket before, and the last waits for both. -/
def chainedPlan : PlanGraph where
  nodes := [
    { id := 0, externalId := "a", lane := "w", status := .done, resolvedAt := some (-3) },
    { id := 1, externalId := "b", lane := "w", status := .ready, durationDays := some 1 },
    { id := 2, externalId := "c", lane := "w", status := .ready, durationDays := some 2 },
    { id := 3, externalId := "d", lane := "w", status := .waiting, durationDays := some 1 }]
  edges := [(1, 0), (3, 1), (3, 2)]
  nodup := by decide
  closed := by decide
  outside := by decide

theorem critical_path_explains_chained :
    criticalPath chainedPlan (schedule chainedPlan (cyclic chainedPlan) 1 0 12) = [1, 2, 3] ∧
      Explains chainedPlan (schedule chainedPlan (cyclic chainedPlan) 1 0 12) 0
        (criticalPath chainedPlan (schedule chainedPlan (cyclic chainedPlan) 1 0 12)) := by
  refine ⟨by decide +kernel, (critical_path_explains chainedPlan 1 0 ?_).2 12⟩
  intro n hn hdone r hr
  have hall : ∀ n ∈ chainedPlan.nodes, n.resolvedAt = none ∨ n.resolvedAt = some (-3) := by decide
  rcases hall n hn with h | h
  · cases h.symm.trans hr
  · cases h.symm.trans hr
    norm_num

end Loregarden.Plan
