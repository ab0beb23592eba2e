import Mathlib.Data.List.MinMax
import Mathlib.Data.Prod.Lex
import Mathlib.Tactic.Linarith
import Loregarden.PlanGraphProofs

/-! # The schedule of a plan

    A pass of the simulation starts tickets or moves the clock to the next event.

    * `fill_spec`: what a pool makes of its candidates;
    * `Scheduled`, `Scheduled.pass`: the invariant of the loop;
    * `halts`: the loop is left;
    * `plan_schedule_valid`: what the schedule is when it is. -/

namespace Loregarden.Plan

open Kahn
open List

variable {g : PlanGraph} {s s' : Sim} {clock now t : ℚ} {pool : String} {n m : PlanNode}
  {slots : List Slot} {candidates : List PlanNode} {b : Booking} {maxParallel : Nat}

def priority (n : PlanNode) : ℤ ×ₗ ℚ ×ₗ String := toLex (n.turn, toLex (-n.rank, n.externalId))

theorem priorityLe_iff : priorityLe n m = true ↔ priority n ≤ priority m := by
  rw [priorityLe, decide_eq_true_iff, priority, priority, Prod.Lex.toLex_le_toLex,
    Prod.Lex.toLex_le_toLex]

theorem candidates_sorted (g : PlanGraph) (s : Sim) (clock : ℚ) (pool : String) :
    (s.candidates g clock pool).Pairwise fun a c => priorityLe a c = true := by
  have : Std.Total fun a c : PlanNode => priorityLe a c = true := ⟨fun a c => by
    rw [priorityLe_iff, priorityLe_iff]
    exact le_total _ _⟩
  have : IsTrans PlanNode fun a c => priorityLe a c = true := ⟨fun a c d h h' => by
    rw [priorityLe_iff] at h h' ⊢
    exact h.trans h'⟩
  exact pairwise_insertionSort _ _

theorem mem_candidates : n ∈ s.candidates g clock pool ↔
    n ∈ s.eligible g clock ∧ n.pool = pool := by
  rw [Sim.candidates, mem_insertionSort, mem_filter, decide_eq_true_iff]

theorem mem_eligible : n ∈ s.eligible g clock ↔
    n ∈ s.pending ∧ ∀ d ∈ g.deps n.id, s.finishedBy clock d = true := by
  rw [Sim.eligible, mem_filter, all_eq_true]

theorem fill_nil (clock : ℚ) (slots : List Slot) : fill clock slots [] = (slots, []) := by
  cases slots <;> rfl

def Slot.busyAt (t : ℚ) (slot : Slot) : Bool := t < slot.freeAt

def Booking.runsAt (t : ℚ) (b : Booking) : Bool := b.start ≤ t ∧ t < b.finish

/-- What a pool makes of its candidates: the first ones are started, at the clock, and take
    as many slots as they run in. -/
structure Filled (clock : ℚ) (slots : List Slot) (candidates : List PlanNode)
    (r : List Slot × List Booking) : Prop where
  width : r.1.length = slots.length
  first : r.2.map (·.node) <+: candidates
  dates : ∀ b ∈ r.2, b.start = clock ∧ b.finish = clock + b.node.work
  busy : ∀ t, clock ≤ t →
    r.1.countP (Slot.busyAt t) = slots.countP (Slot.busyAt t) + r.2.countP (Booking.runsAt t)
  full : candidates ≠ [] → r.2 = [] → ∀ slot ∈ slots, clock < slot.freeAt

theorem fill_spec (clock : ℚ) (slots : List Slot) (candidates : List PlanNode) :
    Filled clock slots candidates (fill clock slots candidates) := by
  induction slots generalizing candidates with
  | nil =>
    exact ⟨rfl, nil_prefix, fun b hb => absurd hb not_mem_nil, fun _ _ => rfl,
      fun _ _ slot h => absurd h not_mem_nil⟩
  | cons slot slots ih =>
    cases candidates with
    | nil =>
      rw [fill_nil]
      exact ⟨rfl, nil_prefix, fun b hb => absurd hb not_mem_nil, fun _ _ => rfl,
        fun h => absurd rfl h⟩
    | cons n candidates =>
      rw [fill]
      by_cases hfree : slot.freeAt ≤ clock
      · rw [if_pos hfree]
        have hrest := ih candidates
        refine ⟨?_, ?_, ?_, fun t ht => ?_, fun _ h => (by cases h)⟩
        · show (_ :: _).length = _
          rw [length_cons, hrest.width, length_cons]
        · show n :: _ <+: _
          exact cons_prefix_cons.mpr ⟨rfl, hrest.first⟩
        · exact forall_mem_cons.mpr ⟨⟨rfl, rfl⟩, hrest.dates⟩
        · -- the slot was free, and is busy as long as the node runs
          have hwas : Slot.busyAt t slot = false := decide_eq_false (not_lt.mpr (hfree.trans ht))
          have hruns : Booking.runsAt t ⟨n, clock, clock + n.work, slot.holder⟩ =
              Slot.busyAt t ⟨clock + n.work, some n.id⟩ := by
            rw [Booking.runsAt, Slot.busyAt, Bool.eq_iff_iff, decide_eq_true_iff,
              decide_eq_true_iff]
            exact and_iff_right ht
          rw [countP_cons, countP_cons, countP_cons, hrest.busy t ht, hwas, hruns]
          simp only [Bool.false_eq_true, if_false]
          omega
      · rw [if_neg hfree]
        have hrest := ih (n :: candidates)
        refine ⟨?_, hrest.first, hrest.dates, fun t ht => ?_, fun h hnone => ?_⟩
        · show (_ :: _).length = _
          rw [length_cons, hrest.width, length_cons]
        · show (_ :: _).countP _ = _
          rw [countP_cons, countP_cons, hrest.busy t ht, Nat.add_right_comm]
        · exact forall_mem_cons.mpr ⟨not_le.mp hfree, hrest.full h hnone⟩

theorem filled_spec (g : PlanGraph) (s : Sim) (clock : ℚ) (pool : String) :
    Filled clock (s.slots pool) (s.candidates g clock pool) (s.filled g clock pool) :=
  fill_spec _ _ _

theorem mem_filled (h : b ∈ (s.filled g clock pool).2) :
    b.node ∈ s.eligible g clock ∧ b.node.pool = pool :=
  mem_candidates.mp ((filled_spec g s clock pool).first.subset (mem_map_of_mem h))

theorem mem_started : b ∈ s.started g clock ↔ b ∈ (s.filled g clock b.node.pool).2 := by
  rw [Sim.started, mem_flatMap]
  constructor
  · rintro ⟨pool, -, hb⟩
    rwa [(mem_filled hb).2]
  · intro hb
    refine ⟨b.node.pool, mem_dedup.mpr (mem_map_of_mem (mem_filled hb).1), hb⟩

theorem flatMap_ite {α β : Type*} [DecidableEq α] {l : List α} (hl : l.Nodup) (a : α)
    (f : α → List β) :
    (l.flatMap fun x => if x = a then f x else []) = if a ∈ l then f a else [] := by
  induction l with
  | nil => rfl
  | cons x l ih =>
    obtain ⟨hx, hl⟩ := nodup_cons.mp hl
    rw [flatMap_cons, ih hl]
    by_cases hxa : x = a
    · rw [if_pos hxa, ← hxa, if_neg hx, append_nil, if_pos mem_cons_self]
    · rw [if_neg hxa, nil_append]
      exact if_congr (by rw [mem_cons, or_iff_right (Ne.symm hxa)]) rfl rfl

theorem started_filter (g : PlanGraph) (s : Sim) (clock : ℚ) (pool : String) :
    (s.started g clock).filter (·.node.pool = pool) = (s.filled g clock pool).2 := by
  have hone : ∀ p, ((s.filled g clock p).2).filter (·.node.pool = pool) =
      if p = pool then (s.filled g clock p).2 else [] := by
    intro p
    split
    · rename_i hp
      exact filter_eq_self.mpr fun b hb => decide_eq_true ((mem_filled hb).2.trans hp)
    · rename_i hp
      refine filter_eq_nil_iff.mpr fun b hb h => hp ?_
      exact (mem_filled hb).2.symm.trans (of_decide_eq_true h)
  have hnodup := nodup_dedup ((s.eligible g clock).map (·.pool))
  rw [Sim.started, filter_flatMap]
  simp only [hone]
  rw [flatMap_ite hnodup]
  split
  · rfl
  · rename_i hnot
    -- no candidate, so nothing is started
    have hnil : s.candidates g clock pool = [] := eq_nil_iff_forall_not_mem.mpr fun n hn => by
      obtain ⟨hel, hpool⟩ := mem_candidates.mp hn
      exact hnot (mem_dedup.mpr (mem_map.mpr ⟨n, hel, hpool⟩))
    rw [Sim.filled, hnil, fill_nil]

theorem started_eligible (h : b ∈ s.started g clock) : b.node ∈ s.eligible g clock :=
  (mem_filled (mem_started.mp h)).1

theorem started_dates (h : b ∈ s.started g clock) :
    b.start = clock ∧ b.finish = clock + b.node.work :=
  (filled_spec g s clock b.node.pool).dates b (mem_started.mp h)

theorem started_nodup (hnodup : (s.pending.map (·.id)).Nodup) :
    ((s.started g clock).map (·.node.id)).Nodup := by
  have hel : ((s.eligible g clock).map (·.id)).Nodup := hnodup.sublist (filter_sublist.map _)
  rw [Sim.started, map_flatMap, nodup_flatMap]
  constructor
  · intro pool _
    have hcand : ((s.candidates g clock pool).map (·.id)).Nodup := by
      have hperm : (s.candidates g clock pool).Perm
          ((s.eligible g clock).filter (·.pool = pool)) := perm_insertionSort _ _
      exact (hperm.map _).nodup_iff.mpr (hel.sublist (filter_sublist.map _))
    have hsub := (filled_spec g s clock pool).first.sublist.map (·.id)
    rw [map_map] at hsub
    exact hcand.sublist hsub
  · refine (nodup_dedup _).imp fun {p q} hpq id hp hq => hpq ?_
    obtain ⟨b, hb, rfl⟩ := mem_map.mp hp
    obtain ⟨b', hb', hid⟩ := mem_map.mp hq
    have hsame := inj_on_of_nodup_map hel (mem_filled hb').1 (mem_filled hb).1 hid
    rw [← (mem_filled hb).2, ← (mem_filled hb').2, hsame]

/-! ## The invariant of the loop -/

def Sim.running (s : Sim) (pool : String) (t : ℚ) : Nat :=
  s.booked.countP fun b => b.node.pool = pool ∧ b.runsAt t = true

/-- The invariant: `kept` is what could be dated at the start, `width` the slots of each pool. -/
structure Scheduled (g : PlanGraph) (kept : List PlanNode) (width : String → Nat) (now : ℚ)
    (s : Sim) : Prop where
  pools : s.pools = (kept.map (·.pool)).dedup
  nodup : (s.booked.map (·.node.id) ++ s.pending.map (·.id)).Nodup
  known : ∀ b ∈ s.booked, b.node ∈ g.nodes
  pending : ∀ n ∈ s.pending, n ∈ kept ∧ n ∈ g.nodes
  placed : ∀ n ∈ g.nodes, n.status = .done ∨ n ∈ kept → n ∈ s.pending ∨ ∃ b ∈ s.booked, b.node = n
  dates : ∀ b ∈ s.booked, b.node.status ≠ .done → now ≤ b.start ∧ b.finish = b.start + b.node.work ∧
      ∀ d ∈ g.deps b.node.id, ∃ b' ∈ s.booked, b'.node.id = d ∧ b'.finish ≤ b.start
  sized : ∀ pool, (s.slots pool).length = width pool
  later : ∀ clock, s.clock = some clock → now ≤ clock
  /-- From the clock on, whatever runs holds a slot. -/
  busy : ∀ clock, s.clock = some clock → ∀ pool t, clock ≤ t →
    s.running pool t ≤ (s.slots pool).countP (Slot.busyAt t)
  fits : ∀ pool t, s.running pool t ≤ width pool

variable {kept : List PlanNode} {width : String → Nat} {id : Nat}

theorem booking_mem (h : s.booking id = some b) : b ∈ s.booked ∧ b.node.id = id := by
  have hid := List.find?_some h
  exact ⟨mem_of_find?_eq_some h, of_decide_eq_true hid⟩

theorem booking_of_mem (hnodup : (s.booked.map (·.node.id)).Nodup) (hb : b ∈ s.booked) :
    s.booking b.node.id = some b := by
  cases hf : s.booking b.node.id with
  | none => exact absurd (decide_eq_true rfl) (List.find?_eq_none.mp hf b hb)
  | some b' =>
    obtain ⟨hb', hid⟩ := booking_mem hf
    exact congrArg some (inj_on_of_nodup_map hnodup hb' hb hid)

theorem finishedBy_iff (hnodup : (s.booked.map (·.node.id)).Nodup) :
    s.finishedBy clock id = true ↔ ∃ b ∈ s.booked, b.node.id = id ∧ b.finish ≤ clock := by
  rw [Sim.finishedBy, Sim.finishOf, Option.any_map, Option.any_eq_true]
  constructor
  · rintro ⟨b, hb, hle⟩
    obtain ⟨hmem, hid⟩ := booking_mem hb
    exact ⟨b, hmem, hid, of_decide_eq_true hle⟩
  · rintro ⟨b, hb, rfl, hle⟩
    exact ⟨b, booking_of_mem hnodup hb, decide_eq_true hle⟩

section

variable (h : Scheduled g kept width now s)
include h

theorem Scheduled.booked_nodup : (s.booked.map (·.node.id)).Nodup := (nodup_append'.mp h.nodup).1

theorem Scheduled.pending_nodup : (s.pending.map (·.id)).Nodup := (nodup_append'.mp h.nodup).2.1

omit h in
theorem running_startFreeSlots : (s.startFreeSlots g clock).running pool t =
    ((s.filled g clock pool).2).countP (Booking.runsAt t) + s.running pool t := by
  show (s.started g clock ++ s.booked).countP _ = _
  rw [countP_append, ← started_filter, countP_filter]
  refine congrArg₂ (· + ·) (countP_congr fun b _ => ?_) rfl
  rw [decide_eq_true_iff, Bool.and_eq_true, decide_eq_true_iff, and_comm]

theorem Scheduled.startFreeSlots (hclock : s.clock = some clock) :
    Scheduled g kept width now (s.startFreeSlots g clock) := by
  have hpending : ∀ b ∈ s.started g clock, b.node ∈ s.pending := fun b hb =>
    (mem_eligible.mp (started_eligible hb)).1
  have hbusy : ∀ pool t, clock ≤ t → (s.startFreeSlots g clock).running pool t ≤
      ((s.startFreeSlots g clock).slots pool).countP (Slot.busyAt t) := by
    intro pool t ht
    rw [running_startFreeSlots]
    show _ ≤ (s.filled g clock pool).1.countP _
    rw [(filled_spec g s clock pool).busy t ht]
    have hold := h.busy clock hclock pool t ht
    omega
  have hwidth : ∀ pool, ((s.startFreeSlots g clock).slots pool).length = width pool := fun pool =>
    (filled_spec g s clock pool).width.trans (h.sized pool)
  constructor
  · exact h.pools
  · -- a started ticket was pending, and no longer is
    show ((s.started g clock ++ s.booked).map _ ++ _).Nodup
    rw [map_append]
    obtain ⟨hb, hp, hdisj⟩ := nodup_append'.mp h.nodup
    refine nodup_append'.mpr ⟨nodup_append'.mpr ⟨started_nodup hp, hb, ?_⟩,
      hp.sublist (filter_sublist.map _), ?_⟩
    · intro id hid hold
      obtain ⟨b, hstarted, rfl⟩ := mem_map.mp hid
      exact hdisj hold (mem_map_of_mem (hpending b hstarted))
    · intro id hid hleft
      obtain ⟨n, hn, rfl⟩ := mem_map.mp hleft
      obtain ⟨hn, hnot⟩ := mem_filter.mp hn
      rcases mem_append.mp hid with hnew | hold
      · exact of_decide_eq_true hnot hnew
      · exact hdisj hold (mem_map_of_mem hn)
  · intro b hb
    rcases mem_append.mp hb with hb | hb
    · exact (h.pending b.node (hpending b hb)).2
    · exact h.known b hb
  · exact fun n hn => h.pending n (mem_filter.mp hn).1
  · intro n hn hkept
    rcases h.placed n hn hkept with hp | ⟨b, hb, rfl⟩
    · by_cases hin : n.id ∈ (s.started g clock).map (·.node.id)
      · obtain ⟨b, hb, hid⟩ := mem_map.mp hin
        have hsame := inj_on_of_nodup_map h.pending_nodup (hpending b hb) hp hid
        exact .inr ⟨b, mem_append_left _ hb, hsame⟩
      · exact .inl (mem_filter.mpr ⟨hp, decide_eq_true hin⟩)
    · exact .inr ⟨b, mem_append_right _ hb, rfl⟩
  · intro b hb hopen
    rcases mem_append.mp hb with hb | hb
    · obtain ⟨hstart, hfinish⟩ := started_dates hb
      rw [hstart]
      refine ⟨h.later clock hclock, hfinish, fun d hd => ?_⟩
      have hdone := (mem_eligible.mp (started_eligible hb)).2 d hd
      obtain ⟨b', hb', hid, hle⟩ := (finishedBy_iff h.booked_nodup).mp hdone
      exact ⟨b', mem_append_right _ hb', hid, hle⟩
    · obtain ⟨hnow, hfinish, hdeps⟩ := h.dates b hb hopen
      refine ⟨hnow, hfinish, fun d hd => ?_⟩
      obtain ⟨b', hb', hid, hle⟩ := hdeps d hd
      exact ⟨b', mem_append_right _ hb', hid, hle⟩
  · exact hwidth
  · exact h.later
  · intro c hc pool t ht
    cases hclock.symm.trans hc
    exact hbusy pool t ht
  · intro pool t
    by_cases ht : clock ≤ t
    · exact (hbusy pool t ht).trans (countP_le_length.trans (hwidth pool).le)
    · -- before the clock, nothing new runs
      rw [running_startFreeSlots]
      have hnone : ((s.filled g clock pool).2).countP (Booking.runsAt t) = 0 := by
        refine countP_eq_zero.mpr fun b hb hruns => ht ?_
        have hstart := ((filled_spec g s clock pool).dates b hb).1
        exact hstart ▸ (of_decide_eq_true hruns).1
      rw [hnone, Nat.zero_add]
      exact h.fits pool t

omit h in
theorem nextEvent_later {next : ℚ} (h : s.nextEvent g clock = some next) :
    next ∈ s.upcoming g clock ∧ clock < next := by
  have hmem : next ∈ s.upcoming g clock := List.min?_mem h
  exact ⟨hmem, of_decide_eq_true (mem_filter.mp hmem).2⟩

theorem Scheduled.advance (hclock : s.clock = some clock) :
    Scheduled g kept width now { s with clock := s.nextEvent g clock } where
  pools := h.pools
  nodup := h.nodup
  known := h.known
  pending := h.pending
  placed := h.placed
  dates := h.dates
  sized := h.sized
  later := fun _ hnext => (h.later clock hclock).trans (nextEvent_later hnext).2.le
  busy := fun _ hnext pool t ht =>
    h.busy clock hclock pool t ((nextEvent_later hnext).2.le.trans ht)
  fits := h.fits

omit h in
theorem pass_cases (h : s.pass g = some s') : ∃ clock, s.clock = some clock ∧ s.pending ≠ [] ∧
    (s.started g clock = [] ∧ s' = { s with clock := s.nextEvent g clock } ∨
      s.started g clock ≠ [] ∧ s' = s.startFreeSlots g clock) := by
  rw [Sim.pass] at h
  split at h
  · cases h
  · rename_i clock hclock
    split at h
    · cases h
    · rename_i hpending
      split at h
      · rename_i hnone
        exact ⟨clock, hclock, hpending, .inl ⟨hnone, (Option.some_inj.mp h).symm⟩⟩
      · rename_i hsome
        exact ⟨clock, hclock, hpending, .inr ⟨hsome, (Option.some_inj.mp h).symm⟩⟩

theorem Scheduled.pass (hpass : s.pass g = some s') : Scheduled g kept width now s' := by
  obtain ⟨clock, hclock, -, ⟨-, rfl⟩ | ⟨-, rfl⟩⟩ := pass_cases hpass
  · exact h.advance hclock
  · exact h.startFreeSlots hclock

end

/-- The events still to come, with the turn that finds none. -/
def Sim.events (g : PlanGraph) (s : Sim) : Nat :=
  match s.clock with
  | none => 0
  | some clock => (s.upcoming g clock).length + 1

theorem pass_lt (h : s.pass g = some s') : s'.pending.length < s.pending.length ∨
    s'.pending.length = s.pending.length ∧ s'.events g < s.events g := by
  obtain ⟨clock, hclock, -, ⟨-, rfl⟩ | ⟨hsome, rfl⟩⟩ := pass_cases h
  · refine .inr ⟨rfl, ?_⟩
    rw [Sim.events, Sim.events, hclock]
    show (match s.nextEvent g clock with
      | none => 0
      | some next => (s.upcoming g next).length + 1) < (s.upcoming g clock).length + 1
    cases hnext : s.nextEvent g clock with
    | none => exact Nat.succ_pos _
    | some next =>
      obtain ⟨hmem, hlt⟩ := nextEvent_later hnext
      have hfilter : s.upcoming g next = (s.upcoming g clock).filter (next < ·) := by
        rw [Sim.upcoming, Sim.upcoming, filter_filter]
        refine filter_congr fun x _ => ?_
        by_cases hx : next < x
        · simp [hx, hlt.trans hx]
        · simp [hx]
      refine Nat.succ_lt_succ ?_
      rw [hfilter]
      exact length_filter_lt_length_iff_exists.mpr ⟨next, hmem, by simp⟩
  · refine .inl ?_
    obtain ⟨b, hb⟩ := exists_mem_of_ne_nil _ hsome
    refine length_filter_lt_length_iff_exists.mpr
      ⟨b.node, (mem_eligible.mp (started_eligible hb)).1, ?_⟩
    rw [decide_eq_true_iff, not_not]
    exact mem_map_of_mem hb

/-- **The loop is left**: every turn starts a ticket or uses up an event. -/
theorem halts (g : PlanGraph) (s : Sim) : ∃ turns, (s.run g turns).pass g = none := by
  cases hpass : s.pass g with
  | none => exact ⟨0, hpass⟩
  | some next =>
    have hlt := pass_lt hpass
    obtain ⟨turns, hturns⟩ := halts g next
    refine ⟨turns + 1, ?_⟩
    rw [Sim.run, hpass]
    exact hturns
termination_by (s.pending.length, s.events g)
decreasing_by
  rcases hlt with hlt | ⟨heq, hlt⟩
  · exact Prod.Lex.left _ _ hlt
  · rw [heq]
    exact Prod.Lex.right _ hlt

theorem Scheduled.nextEvent (h : Scheduled g (priceable g (cyclic g)) width now s)
    (hwidth : ∀ n ∈ priceable g (cyclic g), 0 < width n.pool) (hpending : s.pending ≠ [])
    (hnone : s.started g clock = []) : s.nextEvent g clock ≠ none := by
  rw [Sim.nextEvent, ne_eq, List.min?_eq_none_iff]
  -- the first pending ticket waits for nothing that is pending
  obtain ⟨n₀, hn₀⟩ := exists_mem_of_ne_nil _ hpending
  obtain ⟨x, ⟨n, hn, rfl⟩, -, hfirst⟩ := exists_first
    (P := fun x => ∃ n ∈ s.pending, n.id = x)
    ⟨n₀.id, (mem_priceable_iff.mp (h.pending n₀ hn₀).1).2.2.1, n₀, hn₀, rfl⟩
  obtain ⟨hnode, -, -, -, hdeps⟩ := mem_priceable_iff.mp (h.pending n hn).1
  have hbooked : ∀ d ∈ g.deps n.id, ∃ b ∈ s.booked, b.node.id = d := by
    intro d hd
    have hplace : ∃ m ∈ g.nodes, m.id = d ∧ (m.status = .done ∨ m ∈ priceable g (cyclic g)) := by
      rcases hdeps d hd with hdone | ⟨m, hm, hid⟩
      · obtain ⟨m, hm, rfl⟩ := mem_map.mp (deps_mem hd)
        refine ⟨m, hm, rfl, .inl ?_⟩
        by_contra hopen
        rw [(isOpen_of_mem hm).mpr hopen] at hdone
        cases hdone
      · exact ⟨m, (mem_priceable_iff.mp hm).1, hid, .inr hm⟩
    obtain ⟨m, hm, rfl, hkept⟩ := hplace
    rcases h.placed m hm hkept with hp | ⟨b, hb, rfl⟩
    · exact absurd ⟨m, hp, rfl⟩ (hfirst m.id hd)
    · exact ⟨b, hb, rfl⟩
  by_cases hall : ∀ d ∈ g.deps n.id, s.finishedBy clock d = true
  · -- it is eligible, so every slot of its pool is taken
    have hcand : n ∈ s.candidates g clock n.pool :=
      mem_candidates.mpr ⟨mem_eligible.mpr ⟨hn, hall⟩, rfl⟩
    have hfull := (filled_spec g s clock n.pool).full (ne_nil_of_mem hcand) (by
      rw [← started_filter, hnone]
      rfl)
    have hlen : 0 < (s.slots n.pool).length := by
      rw [h.sized]
      exact hwidth n (h.pending n hn).1
    obtain ⟨slot, hslot⟩ := exists_mem_of_length_pos hlen
    have hpool : n.pool ∈ s.pools := by
      rw [h.pools]
      exact mem_dedup.mpr (mem_map_of_mem (h.pending n hn).1)
    refine ne_nil_of_mem (a := slot.freeAt) (mem_filter.mpr
      ⟨mem_append_left _ (mem_map_of_mem ?_), decide_eq_true (hfull slot hslot)⟩)
    exact mem_flatMap.mpr ⟨n.pool, hpool, hslot⟩
  · push Not at hall
    obtain ⟨d, hd, hlater⟩ := hall
    obtain ⟨b, hb, rfl⟩ := hbooked d hd
    have hfinish : s.finishOf b.node.id = some b.finish := by
      rw [Sim.finishOf, booking_of_mem h.booked_nodup hb, Option.map_some]
    have hlt : clock < b.finish := by
      by_contra hle
      refine hlater ((finishedBy_iff h.booked_nodup).mpr ⟨b, hb, rfl, not_lt.mp hle⟩)
    refine ne_nil_of_mem (a := b.finish) (mem_filter.mpr
      ⟨mem_append_right _ (mem_flatMap.mpr ⟨n, hn, ?_⟩), decide_eq_true hlt⟩)
    exact mem_filterMap.mpr ⟨b.node.id, hd, hfinish⟩

/-! ## Every run of the loop -/

/-- The invariant, and a clock that has not run out while tickets wait. -/
structure Running (g : PlanGraph) (width : String → Nat) (now : ℚ) (s : Sim) : Prop where
  scheduled : Scheduled g (priceable g (cyclic g)) width now s
  ticking : s.pending ≠ [] → s.clock ≠ none

section

variable (h : Running g width now s)
include h

section

variable (hwidth : ∀ n ∈ priceable g (cyclic g), 0 < width n.pool)
include hwidth

theorem Running.pass (hpass : s.pass g = some s') :
    Running g width now s' := by
  refine ⟨h.scheduled.pass hpass, fun hpending => ?_⟩
  obtain ⟨clock, hclock, hwas, ⟨hnone, rfl⟩ | ⟨-, rfl⟩⟩ := pass_cases hpass
  · exact h.scheduled.nextEvent hwidth hwas hnone
  · show s.clock ≠ none
    rw [hclock]
    exact Option.some_ne_none clock

theorem Running.run (turns : Nat) :
    Running g width now (s.run g turns) := by
  induction turns generalizing s with
  | zero => exact h
  | succ turns ih =>
    rw [Sim.run]
    split
    · exact h
    · rename_i next hpass
      exact ih (h.pass hwidth hpass)

end

theorem Running.halted (hpass : s.pass g = none) : s.pending = [] := by
  by_contra hpending
  obtain ⟨clock, hclock⟩ := Option.ne_none_iff_exists'.mp (h.ticking hpending)
  rw [Sim.pass, hclock] at hpass
  dsimp only at hpass
  rw [if_neg hpending] at hpass
  split at hpass <;> cases hpass

end

def poolWidth (g : PlanGraph) (cyclic : List Nat) (maxParallel : Nat) (now : ℚ) (pool : String) :
    Nat :=
  ((simulation g cyclic maxParallel now).slots pool).length

theorem simulation_running (g : PlanGraph) (maxParallel : Nat) (now : ℚ) :
    Running g (poolWidth g (cyclic g) maxParallel now) now
      (simulation g (cyclic g) maxParallel now) := by
  have hdone : ∀ b ∈ (simulation g (cyclic g) maxParallel now).booked,
      b.node ∈ g.nodes ∧ b.node.status = .done ∧ b.start = b.finish := by
    intro b hb
    obtain ⟨n, hn, rfl⟩ := mem_map.mp hb
    obtain ⟨hn, hstatus⟩ := mem_filter.mp hn
    exact ⟨hn, of_decide_eq_true hstatus, rfl⟩
  have hidle : ∀ pool t, (simulation g (cyclic g) maxParallel now).running pool t = 0 := by
    intro pool t
    refine countP_eq_zero.mpr fun b hb hruns => ?_
    -- a done ticket runs at no moment
    obtain ⟨hle, hlt⟩ := of_decide_eq_true (of_decide_eq_true hruns).2
    rw [(hdone b hb).2.2] at hle
    exact absurd hlt (not_lt.mpr hle)
  refine ⟨⟨rfl, ?_, fun b hb => (hdone b hb).1, fun n hn => ⟨hn, (mem_priceable_iff.mp hn).1⟩, ?_,
    fun b hb hopen => absurd (hdone b hb).2.1 hopen, fun _ => rfl, ?_, ?_, ?_⟩,
    fun _ => Option.some_ne_none now⟩
  · show ((List.map _ _).map _ ++ _).Nodup
    rw [map_map]
    refine nodup_append'.mpr ⟨g.nodup.sublist (filter_sublist.map _), ?_, ?_⟩
    · exact (openNodes_nodup g).sublist (filter_sublist.map _)
    · intro id hid hid'
      obtain ⟨n, hn, rfl⟩ := mem_map.mp hid
      obtain ⟨m, hm, hsame⟩ := mem_map.mp hid'
      obtain ⟨hn, hstatus⟩ := mem_filter.mp hn
      obtain ⟨hmem, hopen, -⟩ := mem_priceable_iff.mp hm
      rw [inj_on_of_nodup_map g.nodup hmem hn hsame] at hopen
      exact hopen (of_decide_eq_true hstatus)
  · rintro n hn (hstatus | hkept)
    · exact .inr ⟨_, mem_map_of_mem (mem_filter.mpr ⟨hn, decide_eq_true hstatus⟩), rfl⟩
    · exact .inl hkept
  · intro clock hclock
    cases hclock
    exact le_rfl
  · intro clock _ pool t _
    rw [hidle]
    exact Nat.zero_le _
  · intro pool t
    rw [hidle]
    exact Nat.zero_le _

theorem find_pool {l : List PlanNode} (h : l.find? (·.pool = pool) = some n) :
    n ∈ l ∧ n.pool = pool := by
  have hpool := List.find?_some h
  exact ⟨mem_of_find?_eq_some h, of_decide_eq_true hpool⟩

/-- Own tickets share `max_parallel` slots. -/
theorem poolWidth_own : poolWidth g (cyclic g) maxParallel now ownPool ≤ maxParallel := by
  rw [poolWidth, simulation]
  dsimp only
  split
  · exact Nat.zero_le _
  · rename_i n hfind
    obtain ⟨hn, hpool⟩ := find_pool hfind
    have hin := (mem_priceable_iff.mp hn).1
    rw [length_replicate, if_neg fun hext => ?_]
    rw [PlanNode.pool, if_pos hext] at hpool
    exact g.outside n hin hext hpool

theorem poolWidth_lane (h : pool ≠ ownPool) : poolWidth g (cyclic g) maxParallel now pool ≤ 1 := by
  rw [poolWidth, simulation]
  dsimp only
  split
  · exact Nat.zero_le _
  · rename_i n hfind
    have hpool := (find_pool hfind).2
    rw [PlanNode.pool] at hpool
    split at hpool
    · rename_i hext
      rw [if_pos hext, length_replicate]
    · exact absurd hpool.symm h

theorem poolWidth_pos (hmax : 1 ≤ maxParallel) (hn : n ∈ priceable g (cyclic g)) :
    0 < poolWidth g (cyclic g) maxParallel now n.pool := by
  rw [poolWidth, simulation]
  dsimp only
  split
  · rename_i hnone
    exact absurd (decide_eq_true rfl) (List.find?_eq_none.mp hnone n hn)
  · rw [length_replicate]
    split
    · exact Nat.one_pos
    · exact hmax

def Sim.runsAt (s : Sim) (t : ℚ) (n : PlanNode) : Bool := (s.booking n.id).any (Booking.runsAt t)

structure ValidSchedule (g : PlanGraph) (maxParallel : Nat) (now : ℚ) (s : Sim) : Prop where
  /-- Open tickets that are priced, reach no cycle, and wait only for done ones and for each
      other all get a start. -/
  complete : ∀ S : Nat → Prop,
    (∀ id, S id → ∃ n ∈ g.nodes, n.id = id ∧ n.status ≠ .done ∧ n.durationDays ≠ none ∧
      (∀ c, Relation.ReflTransGen (Waits g) id c → ¬ Relation.TransGen (Waits g) c c) ∧
      ∀ d ∈ g.deps id, g.isOpen d = false ∨ S d) →
    ∀ id, S id → ∃ start, s.startOf id = some start
  /-- No open ticket starts before now, or before a prerequisite has finished. -/
  after : ∀ n ∈ g.nodes, n.status ≠ .done → ∀ start, s.startOf n.id = some start →
    now ≤ start ∧ s.finishOf n.id = some (start + n.work) ∧
      ∀ d ∈ g.deps n.id, ∃ finish, s.finishOf d = some finish ∧ finish ≤ start
  own : ∀ t, (g.nodes.filter fun n => n.external = false ∧ s.runsAt t n = true).length ≤ maxParallel
  lane : ∀ t lane, (g.nodes.filter fun n =>
    n.external = true ∧ n.lane = lane ∧ s.runsAt t n = true).length ≤ 1

/-- Of the tickets a pass finds eligible in a pool, those it starts go before those it
    leaves waiting. -/
def Preferred (g : PlanGraph) (s : Sim) : Prop :=
  ∀ clock, s.clock = some clock → ∀ b ∈ s.started g clock, ∀ n ∈ s.eligible g clock,
    n.pool = b.node.pool → n ∈ (s.startFreeSlots g clock).pending → priorityLe b.node n = true ∧
        (b.node.externalId ≠ n.externalId → priorityLe n b.node = false)

theorem preferred (g : PlanGraph) (s : Sim) : Preferred g s := by
  intro clock _ b hb n hn hpool hleft
  obtain ⟨rest, hrest⟩ := (filled_spec g s clock b.node.pool).first
  have hsorted := candidates_sorted g s clock b.node.pool
  have hcand : n ∈ s.candidates g clock b.node.pool := mem_candidates.mpr ⟨hn, hpool⟩
  rw [← hrest] at hsorted hcand
  -- what is left waiting stands behind what was started
  have hbehind : n ∈ rest := by
    refine (mem_append.mp hcand).resolve_left fun hstarted => ?_
    obtain ⟨b', hb', hnode⟩ := mem_map.mp hstarted
    refine of_decide_eq_true (mem_filter.mp hleft).2 (mem_map.mpr ⟨b', ?_, ?_⟩)
    · rw [mem_started, hnode, hpool]
      exact hb'
    · rw [hnode]
  have hle := (pairwise_append.mp hsorted).2.2 b.node
    (mem_map_of_mem (mem_started.mp hb)) n hbehind
  refine ⟨hle, fun hne => ?_⟩
  rw [Bool.eq_false_iff, ne_eq, priorityLe_iff]
  rw [priorityLe_iff] at hle
  intro hge
  have hsame := congrArg ofLex (hle.antisymm hge)
  exact hne (congrArg (fun p => (ofLex p.2).2) hsame)

theorem Scheduled.working (h : Scheduled g kept width now s) (pool : String) (t : ℚ)
    {q : PlanNode → Bool} (hq : ∀ n ∈ g.nodes, q n = true → n.pool = pool ∧ s.runsAt t n = true) :
    (g.nodes.filter q).length ≤ width pool := by
  refine le_trans ?_ (h.fits pool t)
  have hnodup : ((g.nodes.filter q).map (·.id)).Nodup := g.nodup.sublist (filter_sublist.map _)
  have hsub : (g.nodes.filter q).map (·.id) ⊆
      (s.booked.filter fun b => b.node.pool = pool ∧ b.runsAt t = true).map (·.node.id) := by
    intro id hid
    obtain ⟨n, hn, rfl⟩ := mem_map.mp hid
    obtain ⟨hn, hqn⟩ := mem_filter.mp hn
    obtain ⟨hpool, hruns⟩ := hq n hn hqn
    obtain ⟨b, hb, hbruns⟩ := Option.any_eq_true _ _ |>.mp hruns
    obtain ⟨hmem, hid⟩ := booking_mem hb
    have hnode := inj_on_of_nodup_map g.nodup (h.known b hmem) hn hid
    refine mem_map.mpr ⟨b, mem_filter.mpr ⟨hmem, decide_eq_true ⟨?_, hbruns⟩⟩, hid⟩
    rw [hnode]
    exact hpool
  have hle := (subperm_of_subset hnodup hsub).length_le
  rw [length_map, length_map] at hle
  rw [Sim.running, countP_eq_length_filter]
  exact hle

theorem Running.valid (h : Running g (poolWidth g (cyclic g) maxParallel now) now s)
    (hpass : s.pass g = none) : ValidSchedule g maxParallel now s := by
  have hs := h.scheduled
  constructor
  · intro S hS id hid
    obtain ⟨n, hn, rfl⟩ := priceable_of_closed (S := S) (fun id hid => by
      obtain ⟨n, hn, rfl, hopen, hprice, hreach, hdeps⟩ := hS id hid
      refine ⟨n, hn, rfl, hopen, hprice, fun hcyclic => ?_, hdeps⟩
      obtain ⟨-, c, hc, hround⟩ := mem_cyclic_iff.mp hcyclic
      exact hreach c hc hround) hid
    rcases hs.placed n (mem_priceable_iff.mp hn).1 (.inr hn) with hp | ⟨b, hb, rfl⟩
    · rw [h.halted hpass] at hp
      exact absurd hp not_mem_nil
    · refine ⟨b.start, ?_⟩
      rw [Sim.startOf, booking_of_mem hs.booked_nodup hb, Option.map_some]
  · intro n hn hopen start hstart
    obtain ⟨b, hb, rfl⟩ := Option.map_eq_some_iff.mp hstart
    obtain ⟨hmem, hid⟩ := booking_mem hb
    cases inj_on_of_nodup_map g.nodup (hs.known b hmem) hn hid
    obtain ⟨hnow, hfinish, hdeps⟩ := hs.dates b hmem hopen
    refine ⟨hnow, ?_, fun d hd => ?_⟩
    · rw [Sim.finishOf, hb, Option.map_some, hfinish]
    · obtain ⟨b', hb', rfl, hle⟩ := hdeps d hd
      refine ⟨b'.finish, ?_, hle⟩
      rw [Sim.finishOf, booking_of_mem hs.booked_nodup hb', Option.map_some]
  · intro t
    refine le_trans (hs.working ownPool t fun n _ hq => ?_) poolWidth_own
    obtain ⟨hext, hruns⟩ := of_decide_eq_true hq
    refine ⟨if_neg ?_, hruns⟩
    rw [hext]
    exact Bool.false_ne_true
  · intro t lane
    by_cases hlane : lane = ownPool
    · -- no outside ticket stands in the plan's own pool
      have hnil : g.nodes.filter (fun n =>
          n.external = true ∧ n.lane = lane ∧ s.runsAt t n = true) = [] := by
        refine filter_eq_nil_iff.mpr fun n hn hq => ?_
        obtain ⟨hext, hl, -⟩ := of_decide_eq_true hq
        exact g.outside n hn hext (hl.trans hlane)
      rw [hnil]
      exact Nat.zero_le 1
    · refine le_trans (hs.working lane t fun n _ hq => ?_) (poolWidth_lane hlane)
      obtain ⟨hext, hl, hruns⟩ := of_decide_eq_true hq
      exact ⟨(if_pos hext).trans hl, hruns⟩

theorem ranksAndSteps_ids (g : PlanGraph) : (ranksAndSteps g).1.ids = g.ids :=
  closed_of_map fun n => by split <;> rfl

theorem ranksAndSteps_cyclic (g : PlanGraph) : cyclic (ranksAndSteps g).1 =
    (ranksAndSteps g).2 := by
  show cyclic (ranksAndSteps g).1 = cyclic g
  rw [cyclic, cyclic, topo, topo, ranksAndSteps_ids]
  rfl

/-- **The schedule is valid and complete**: the loop is left; every open ticket that can be
    dated then has a start; no open ticket starts before now or before a prerequisite has
    finished; no pool is overfilled; and in every turn on the way, what is started goes
    before what stays waiting. -/
theorem plan_schedule_valid (g : PlanGraph) (maxParallel : Nat) (hmax : 1 ≤ maxParallel) (now : ℚ) :
    (∃ turns, (schedule (ranksAndSteps g).1 (ranksAndSteps g).2 maxParallel now turns).pass
          (ranksAndSteps g).1 = none ∧
        ValidSchedule (ranksAndSteps g).1 maxParallel now
          (schedule (ranksAndSteps g).1 (ranksAndSteps g).2 maxParallel now turns)) ∧
      ∀ turns, Preferred (ranksAndSteps g).1
        (schedule (ranksAndSteps g).1 (ranksAndSteps g).2 maxParallel now turns) := by
  rw [← ranksAndSteps_cyclic]
  generalize (ranksAndSteps g).1 = g
  obtain ⟨turns, hturns⟩ := halts g (simulation g (cyclic g) maxParallel now)
  have hrun := (simulation_running g maxParallel now).run (fun n hn => poolWidth_pos hmax hn) turns
  exact ⟨⟨turns, hturns, hrun.valid hturns⟩, fun turns => preferred g _⟩

/-- Two done tickets that wait for each other, one that waits for the first of them, and
    two that wait for nothing and share an external id. -/
def tiedPlan : PlanGraph where
  nodes := [
    { id := 0, externalId := "a", lane := "w", status := .done, resolvedAt := some (-3) },
    { id := 1, externalId := "b", lane := "w", status := .done, resolvedAt := some (-3) },
    { id := 2, externalId := "c", lane := "w", status := .ready, durationDays := some 1 },
    { id := 3, externalId := "x", lane := "w", status := .ready, durationDays := some 1 },
    { id := 4, externalId := "x", lane := "w", status := .ready, durationDays := some 1 }]
  edges := [(0, 1), (1, 0), (2, 0)]
  nodup := by decide
  closed := by decide
  outside := by decide

theorem plan_schedule_valid_tied : (∃ turns,
      (schedule (ranksAndSteps tiedPlan).1 (ranksAndSteps tiedPlan).2 1 0 turns).pass
          (ranksAndSteps tiedPlan).1 = none ∧
        ValidSchedule (ranksAndSteps tiedPlan).1 1 0
          (schedule (ranksAndSteps tiedPlan).1 (ranksAndSteps tiedPlan).2 1 0 turns)) ∧
      ∀ turns, Preferred (ranksAndSteps tiedPlan).1
        (schedule (ranksAndSteps tiedPlan).1 (ranksAndSteps tiedPlan).2 1 0 turns) :=
  plan_schedule_valid tiedPlan 1 (le_refl 1) 0

/-- Ticket 2 is on no cycle and waits for a done ticket only, and never gets a start; a done ticket
    starts before now; and of the two tickets with one key, one is started while the other waits. -/
theorem plan_schedule_ties : (¬ Relation.TransGen (Waits tiedPlan) 2 2 ∧ tiedPlan.deps 2 = [0] ∧
      tiedPlan.isOpen 0 = false ∧ tiedPlan.isOpen 2 = true ∧
      (schedule (ranksAndSteps tiedPlan).1 (ranksAndSteps tiedPlan).2 1 0 5).pass
        (ranksAndSteps tiedPlan).1 = none ∧
      (schedule (ranksAndSteps tiedPlan).1 (ranksAndSteps tiedPlan).2 1 0 5).startOf 2 = none) ∧
    (schedule (ranksAndSteps tiedPlan).1 (ranksAndSteps tiedPlan).2 1 0 5).startOf 0 = some (-3) ∧
    ∃ b ∈ (simulation (ranksAndSteps tiedPlan).1 (ranksAndSteps tiedPlan).2 1 0).started
        (ranksAndSteps tiedPlan).1 0,
      ∃ n ∈ (simulation (ranksAndSteps tiedPlan).1 (ranksAndSteps tiedPlan).2 1 0).eligible
          (ranksAndSteps tiedPlan).1 0,
        n.pool = b.node.pool ∧ n.id ≠ b.node.id ∧ priorityLe n b.node = true ∧
          n ∈ ((simulation (ranksAndSteps tiedPlan).1 (ranksAndSteps tiedPlan).2 1
            0).startFreeSlots (ranksAndSteps tiedPlan).1 0).pending := by
  refine ⟨⟨fun h => ?_, by decide, by decide, by decide, ?_, ?_⟩, ?_, ?_⟩
  · -- nothing waits for ticket 2
    obtain ⟨c, -, hc⟩ := Relation.TransGen.tail'_iff.mp h
    have hedge : (c, 2) ∈ tiedPlan.edges := mem_deps.mp hc
    have hnone : ∀ e ∈ tiedPlan.edges, e.2 ≠ 2 := by decide
    exact hnone _ hedge rfl
  · decide +kernel
  · decide +kernel
  · decide +kernel
  · decide +kernel

end Loregarden.Plan
