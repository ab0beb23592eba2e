import Loregarden.ChatWaitModel
import Loregarden.TableProofs

/-! # A wait is answered once

A call is on a wait from its write of the log's tail to its settling, and a continuation run has
been minted for the wait in the later part of that. Where a call comes to a wait only while the wait
is outstanding and nobody else is on it, and the server does not stop between a run's commit and the
settling (`Lone`), every wait that has ended has had one message or one run, and a thread is
continued three times at most (`answered_once`). -/

namespace Loregarden.ChatWaits

open Runs List Option Nat ChatWaits
open Tables (getElem?_modify_of_ne getElem?_modify_self exists_of_getElem?_modify
  of_getElem?_append_singleton getElem?_append_of_some getElem?_append_length
  countP_modify_add countP_modify_same)
open Worktrees (ProcessState)

variable {w w' : World} {p q i j : Nat} {thread : Thread} {status : ChatWaitStatus}
variable {phase : Phase}
variable {thread' : Thread} {status' : ChatWaitStatus} {f : ChatWait → ChatWait} {there : Bool}
variable {index : Nat} {e : Event}

def Phase.busy : Phase → Option Nat
  | .logged i _ | .minted i _ _ _ | .attached i _ _ => some i
  | _ => none

/-- The wait a call has started a run for, and not settled. -/
def Phase.minting : Phase → Option Nat
  | .minted i _ _ _ | .attached i _ _ => some i
  | _ => none

def Has (w : World) (i : Nat) (thread : Thread) (status : ChatWaitStatus) : Prop :=
  ∃ wait, w.waits[i]? = some wait ∧ wait.thread = thread ∧ wait.status = status

/-- The wait is outstanding, and no other call is on it. -/
def Clear (w : World) (p i : Nat) : Prop :=
  (∃ thread, Has w i thread .outstanding) ∧ ∀ q, q ≠ p → (w.calls q).busy ≠ some i

def Stored (wait : ChatWait) (there : Bool) : Prop :=
  wait.thread.surface = .branchTriage → there = true

/-- What keeps the defects away: a call that ends a wait, or goes on with it, finds it outstanding
    and nobody else on it, and its thread there; the start of a run does not raise; and the
    server does not stop between a run's commit and the settling of its wait. -/
def Lone (w : World) : Event → Prop
  | .cancelled p there => ∀ i, w.calls p = .cancelling i →
      Clear w p i ∧ ∀ wait, w.waits[i]? = some wait → Stored wait there
  | .handle p state there _ _ => ∀ poll i rest wait, w.calls p = .polling poll →
      poll.rest = i :: rest → w.waits[i]? = some wait →
        handleWait w wait { poll with rest := rest } state ≠ .leave →
          Clear w p i ∧ Stored wait there
  | .start p answer there => ∀ i poll wait, w.calls p = .logged i poll →
      w.waits[i]? = some wait → answer ≠ .found → Stored wait there
  | .raises p => (w.calls p).busy = none
  | .stop => ∀ p, (w.calls p).minting = none
  | .turn _ | .turnEnds _ | .register _ _ | .insert _ | .cancel _ _ | .poll _ _ _ | .attach _
  | .settle _ => True

structure Good (w : World) : Prop where
  one : ∀ {i j thread}, Has w i thread .outstanding → Has w j thread .outstanding → i = j
  lone : ∀ {p q i}, (w.calls p).busy = some i → (w.calls q).busy = some i → p = q
  held : ∀ {p i}, (w.calls p).busy = some i → ∃ thread, Has w i thread .outstanding
  fresh : ∀ {i thread}, Has w i thread .outstanding →
    (∀ p, (w.calls p).minting ≠ some i) → outcomes w i = 0
  mid : ∀ {p i}, (w.calls p).minting = some i → outcomes w i = 1
  ended : ∀ {i thread status}, Has w i thread status → status ≠ .outstanding → outcomes w i = 1
  unused : ∀ {i}, w.waits.length ≤ i → outcomes w i = 0
  counted : ∀ {thread}, (∀ p i status, (w.calls p).minting = some i → ¬ Has w i thread status) →
    startedFor w thread = continuedCount w thread
  counting : ∀ {p i thread status}, (w.calls p).minting = some i → Has w i thread status →
    startedFor w thread = continuedCount w thread + 1
  capped : ∀ thread, continuedCount w thread ≤ maxContinuations
  room : ∀ {p i thread status}, (w.calls p).busy = some i → Has w i thread status →
    continuedCount w thread < maxContinuations

theorem busy_of_minting (h : phase.minting = some i) : phase.busy = some i := by
  cases phase with
  | minted j run index poll | attached j index poll => exact h
  | idle | registering wait | cancelling j | polling poll | logged j poll => exact nomatch h

theorem Has.unique (h : Has w i thread status)
    (h' : Has w i thread' status') : thread = thread' ∧ status = status' := by
  obtain ⟨wait, hwait, rfl, rfl⟩ := h
  obtain ⟨wait', hwait', rfl, rfl⟩ := h'
  rw [hwait] at hwait'
  injection hwait' with hsame
  subst hsame
  exact ⟨rfl, rfl⟩

theorem Has.lt (h : Has w i thread status) : i < w.waits.length := by
  obtain ⟨wait, hwait, -⟩ := h
  exact (List.getElem?_eq_some_iff.mp hwait).1

/-- Two states have the same waits, as far as anything is decided by them, and as many ends. -/
structure Alike (w w' : World) : Prop where
  has : ∀ i thread status, Has w' i thread status ↔ Has w i thread status
  length : w'.waits.length = w.waits.length
  continued : ∀ thread, continuedCount w' thread = continuedCount w thread
  outcomes : ∀ i, outcomes w' i = outcomes w i
  started : ∀ thread, startedFor w' thread = startedFor w thread

section

variable (hwaits : w'.waits = w.waits.modify i f) (hthread : ∀ wait, (f wait).thread = wait.thread)
  (hstatus : ∀ wait, (f wait).status = wait.status)
include hwaits hthread hstatus

theorem has_modify
    (j : Nat) (thread : Thread) (status : ChatWaitStatus) :
    Has w' j thread status ↔ Has w j thread status := by
  constructor
  · rintro ⟨wait, hwait, ht, hs⟩
    rw [hwaits] at hwait
    obtain ⟨wait₀, hwait₀, ⟨-, rfl⟩ | ⟨-, rfl⟩⟩ := exists_of_getElem?_modify hwait
    · exact ⟨wait₀, hwait₀, (hthread wait₀).symm.trans ht, (hstatus wait₀).symm.trans hs⟩
    · exact ⟨wait, hwait₀, ht, hs⟩
  · rintro ⟨wait, hwait, ht, hs⟩
    by_cases hij : i = j
    · subst hij
      refine ⟨f wait, ?_, (hthread wait).trans ht, (hstatus wait).trans hs⟩
      rw [hwaits, getElem?_modify_self, hwait, map_some]
    · refine ⟨wait, ?_, ht, hs⟩
      rw [hwaits, getElem?_modify_of_ne hij, hwait]

theorem alike_modify
    (hruns : w'.runs = w.runs) (hmessages : w'.messages = w.messages) : Alike w w' where
  has := has_modify hwaits hthread hstatus
  length := by rw [hwaits, length_modify]
  continued := by
    intro thread
    rw [continuedCount, hwaits]
    refine countP_modify_same _ ?_
    intro wait
    rw [hthread, hstatus]
  outcomes := by
    intro i
    rw [outcomes, outcomes, hruns, hmessages]
  started := by
    intro thread
    rw [startedFor, startedFor, hruns]

end

theorem alike_same (hwaits : w'.waits = w.waits) (hruns : w'.runs = w.runs)
    (hmessages : w'.messages = w.messages) : Alike w w' where
  has := by
    intro i thread status
    rw [Has, Has, hwaits]
  length := by rw [hwaits]
  continued := by
    intro thread
    rw [continuedCount, continuedCount, hwaits]
  outcomes := by
    intro i
    rw [outcomes, outcomes, hruns, hmessages]
  started := by
    intro thread
    rw [startedFor, startedFor, hruns]

theorem minting_of_busy (h : phase.busy = none) : phase.minting = none := by
  cases hminting : phase.minting with
  | none => rfl
  | some i =>
    rw [busy_of_minting hminting] at h
    exact nomatch h

theorem setCall_self (w : World) (p : Nat) (phase : Phase) : (w.setCall p phase).calls p = phase :=
  Function.update_self _ _ _

theorem setCall_ne (w : World) (phase : Phase) (h : q ≠ p) :
    (w.setCall p phase).calls q = w.calls q :=
  Function.update_of_ne h _ _

theorem calls_congr {α : Type} (f : Phase → α) (hcalls : ∀ q, q ≠ p → w'.calls q = w.calls q)
    (hself : f (w'.calls p) = f (w.calls p)) (q : Nat) : f (w'.calls q) = f (w.calls q) := by
  by_cases hq : q = p
  · rw [hq, hself]
  · rw [hcalls q hq]

/-- **Nothing is decided.**  Every call stays on the wait it was on. -/
theorem Good.quiet (h : Good w) (halike : Alike w w')
    (hbusy : ∀ q, (w'.calls q).busy = (w.calls q).busy)
    (hminting : ∀ q, (w'.calls q).minting = (w.calls q).minting) : Good w' := by
  refine ⟨?_, ?_, ?_, ?_, ?_, ?_, ?_, ?_, ?_, ?_, ?_⟩
  · intro i j thread hi hj
    exact h.one ((halike.has _ _ _).mp hi) ((halike.has _ _ _).mp hj)
  · intro q₁ q₂ i h₁ h₂
    rw [hbusy] at h₁ h₂
    exact h.lone h₁ h₂
  · intro q i hq
    rw [hbusy] at hq
    obtain ⟨thread, hhas⟩ := h.held hq
    exact ⟨thread, (halike.has _ _ _).mpr hhas⟩
  · intro i thread hi hnone
    rw [halike.outcomes]
    refine h.fresh ((halike.has _ _ _).mp hi) ?_
    intro q
    rw [← hminting]
    exact hnone q
  · intro q i hq
    rw [halike.outcomes]
    rw [hminting] at hq
    exact h.mid hq
  · intro i thread status hi hne
    rw [halike.outcomes]
    exact h.ended ((halike.has _ _ _).mp hi) hne
  · intro i hi
    rw [halike.outcomes]
    rw [halike.length] at hi
    exact h.unused hi
  · intro thread hnone
    rw [halike.started, halike.continued]
    refine h.counted ?_
    intro q i status hq hi
    rw [← hminting] at hq
    exact hnone q i status hq ((halike.has _ _ _).mpr hi)
  · intro q i thread status hq hi
    rw [halike.started, halike.continued]
    rw [hminting] at hq
    exact h.counting hq ((halike.has _ _ _).mp hi)
  · intro thread
    rw [halike.continued]
    exact h.capped thread
  · intro q i thread status hq hi
    rw [halike.continued]
    rw [hbusy] at hq
    exact h.room hq ((halike.has _ _ _).mp hi)

theorem Good.setCall (h : Good w) (hbefore : (w.calls p).busy = none)
    (hphase : phase.busy = none) : Good (w.setCall p phase) := by
  have hcalls : ∀ q, q ≠ p → (w.setCall p phase).calls q = w.calls q :=
    fun q hq => setCall_ne w phase hq
  refine h.quiet (alike_same rfl rfl rfl) (calls_congr _ hcalls ?_) (calls_congr _ hcalls ?_)
  · rw [setCall_self, hbefore, hphase]
  · rw [setCall_self, minting_of_busy hbefore, minting_of_busy hphase]

/-! ## Steps that end a wait -/

theorem continued_status (hwaits : w'.waits = w.waits.modify i f)
    (hthread : ∀ wait, (f wait).thread = wait.thread) (hstatus : ∀ wait, (f wait).status = status)
    (hi : Has w i thread .outstanding) (thread' : Thread) : continuedCount w' thread' =
      continuedCount w thread' + if thread = thread' ∧ status = .continued then 1 else 0 := by
  obtain ⟨wait, hwait, ht, hs⟩ := hi
  have hcount := countP_modify_add (g := f)
    (fun wait => decide (wait.thread = thread' ∧ wait.status = .continued)) hwait
  rw [continuedCount, continuedCount, hwaits]
  have hbefore : decide (wait.thread = thread' ∧ wait.status = .continued) = false := by
    simp [hs]
  have hafter : decide ((f wait).thread = thread' ∧ (f wait).status = .continued) =
      decide (thread = thread' ∧ status = .continued) := by
    rw [hthread, hstatus, ht]
  rw [hbefore, hafter] at hcount
  simpa using hcount

/-- A call's step on a wait that is outstanding and its alone; the wait has the status after. -/
structure OnWait (w w' : World) (p i : Nat) (thread : Thread) (status : ChatWaitStatus) :
    Prop where
  was : Has w i thread .outstanding
  alone : ∀ q, q ≠ p → (w.calls q).busy ≠ some i
  before : ∀ j, (w.calls p).busy = some j → j = i
  calls : ∀ q, q ≠ p → w'.calls q = w.calls q
  length : w'.waits.length = w.waits.length
  has : ∀ {j thread' status'}, Has w' j thread' status' ↔
    j ≠ i ∧ Has w j thread' status' ∨ j = i ∧ thread' = thread ∧ status' = status
  outcomes : ∀ j, j ≠ i → outcomes w' j = outcomes w j
  continued : ∀ other, other ≠ thread → continuedCount w' other = continuedCount w other
  started : ∀ other, other ≠ thread → startedFor w' other = startedFor w other

/-- **A call moves on with its wait.** The wait is counted right after the step when it is by what
    the call holds then; the other waits, and the other threads, are as they were. -/
theorem Good.onWait (h : Good w) (hon : OnWait w w' p i thread status)
    (hbusy : ∀ j, (w'.calls p).busy = some j →
      j = i ∧ status = .outstanding ∧ continuedCount w' thread < maxContinuations)
    (hminting : (w'.calls p).minting = some i →
      outcomes w' i = 1 ∧ startedFor w' thread = continuedCount w' thread + 1)
    (hfree : (w'.calls p).minting ≠ some i →
      outcomes w' i = (if status = .outstanding then 0 else 1) ∧
        startedFor w' thread = continuedCount w' thread)
    (hcapped : continuedCount w' thread ≤ maxContinuations) : Good w' := by
  -- another call is on another wait, and on one of another thread
  have hothers : ∀ {q j}, q ≠ p → (w'.calls q).busy = some j →
      j ≠ i ∧ (w.calls q).busy = some j := by
    intro q j hqp hq
    rw [hon.calls q hqp] at hq
    refine ⟨?_, hq⟩
    rintro rfl
    exact hon.alone q hqp hq
  have hthread : ∀ {q j thread' status'}, j ≠ i → (w.calls q).busy = some j →
      Has w j thread' status' → thread' ≠ thread := by
    rintro q j thread' status' hji hq hj rfl
    obtain ⟨thread₁, hj'⟩ := h.held hq
    obtain ⟨rfl, -⟩ := hj.unique hj'
    exact hji (h.one hj' hon.was)
  have hsame : ∀ {q j}, j ≠ i → (w.calls q).minting = some j → q ≠ p := by
    rintro q j hji hq rfl
    exact hji (hon.before j (busy_of_minting hq))
  have hmine : ∀ {j}, (w'.calls p).minting = some j → j = i :=
    fun hq => (hbusy _ (busy_of_minting hq)).1
  refine ⟨?_, ?_, ?_, ?_, ?_, ?_, ?_, ?_, ?_, ?_, ?_⟩
  · intro j k thread' hj hk
    rcases hon.has.mp hj with ⟨hji, hj⟩ | ⟨rfl, rfl, hs⟩
    · rcases hon.has.mp hk with ⟨-, hk⟩ | ⟨-, rfl, -⟩
      · exact h.one hj hk
      · exact absurd (h.one hj hon.was) hji
    · rcases hon.has.mp hk with ⟨hki, hk⟩ | ⟨hki, -, -⟩
      · exact absurd (h.one hk hon.was) hki
      · exact hki.symm
  · intro q₁ q₂ j h₁ h₂
    by_cases hq₁ : q₁ = p
    · by_cases hq₂ : q₂ = p
      · rw [hq₁, hq₂]
      · rw [hq₁] at h₁
        exact absurd (hbusy j h₁).1 (hothers hq₂ h₂).1
    · by_cases hq₂ : q₂ = p
      · rw [hq₂] at h₂
        exact absurd (hbusy j h₂).1 (hothers hq₁ h₁).1
      · exact h.lone (hothers hq₁ h₁).2 (hothers hq₂ h₂).2
  · intro q j hq
    by_cases hqp : q = p
    · rw [hqp] at hq
      obtain ⟨rfl, hs, -⟩ := hbusy j hq
      exact ⟨thread, hon.has.mpr (.inr ⟨rfl, rfl, hs.symm⟩)⟩
    · obtain ⟨hji, hq⟩ := hothers hqp hq
      obtain ⟨thread', hj⟩ := h.held hq
      exact ⟨thread', hon.has.mpr (.inl ⟨hji, hj⟩)⟩
  · intro j thread' hj hopen
    rcases hon.has.mp hj with ⟨hji, hj⟩ | ⟨rfl, -, hs⟩
    · rw [hon.outcomes j hji]
      refine h.fresh hj ?_
      intro q hq
      refine hopen q ?_
      rw [hon.calls q (hsame hji hq)]
      exact hq
    · rw [(hfree (hopen p)).1, if_pos hs.symm]
  · intro q j hq
    by_cases hqp : q = p
    · rw [hqp] at hq
      obtain rfl := hmine hq
      exact (hminting hq).1
    · rw [hon.outcomes j (hothers hqp (busy_of_minting hq)).1]
      rw [hon.calls q hqp] at hq
      exact h.mid hq
  · intro j thread' status' hj hs
    rcases hon.has.mp hj with ⟨hji, hj⟩ | ⟨rfl, -, rfl⟩
    · rw [hon.outcomes j hji]
      exact h.ended hj hs
    · have hdone : (w'.calls p).minting ≠ some j := by
        intro hq
        exact hs (hbusy j (busy_of_minting hq)).2.1
      rw [(hfree hdone).1, if_neg hs]
  · intro j hj
    rw [hon.length] at hj
    have hji : j ≠ i := by
      rintro rfl
      exact absurd hon.was.lt (not_lt.mpr hj)
    rw [hon.outcomes j hji]
    exact h.unused hj
  · intro thread' hopen
    by_cases heq : thread' = thread
    · subst heq
      exact (hfree fun hq => hopen p i status hq (hon.has.mpr (.inr ⟨rfl, rfl, rfl⟩))).2
    · rw [hon.started _ heq, hon.continued _ heq]
      refine h.counted ?_
      intro q j status' hq hj
      have hji : j ≠ i := by
        rintro rfl
        exact heq (hj.unique hon.was).1
      refine hopen q j status' ?_ (hon.has.mpr (.inl ⟨hji, hj⟩))
      rw [hon.calls q (hsame hji hq)]
      exact hq
  · intro q j thread' status' hq hj
    rcases hon.has.mp hj with ⟨hji, hj⟩ | ⟨rfl, rfl, -⟩
    · have hqp : q ≠ p := by
        rintro rfl
        exact hji (hmine hq)
      rw [hon.calls q hqp] at hq
      have heq := hthread hji (busy_of_minting hq) hj
      rw [hon.started _ heq, hon.continued _ heq]
      exact h.counting hq hj
    · by_cases hqp : q = p
      · rw [hqp] at hq
        exact (hminting hq).2
      · exact absurd rfl (hothers hqp (busy_of_minting hq)).1
  · intro thread'
    by_cases heq : thread' = thread
    · rw [heq]
      exact hcapped
    · rw [hon.continued _ heq]
      exact h.capped thread'
  · intro q j thread' status' hq hj
    rcases hon.has.mp hj with ⟨hji, hj⟩ | ⟨rfl, rfl, -⟩
    · have hqp : q ≠ p := by
        rintro rfl
        exact hji (hbusy j hq).1
      obtain ⟨-, hq⟩ := hothers hqp hq
      rw [hon.continued _ (hthread hji hq hj)]
      exact h.room hq hj
    · by_cases hqp : q = p
      · rw [hqp] at hq
        exact (hbusy _ hq).2.2
      · exact absurd rfl (hothers hqp hq).1

/-- Nobody but the wait's own call has started a run for its thread. -/
theorem Good.counted_of_alone (h : Good w) (hi : Has w i thread .outstanding)
    (hnone : ∀ q, (w.calls q).minting ≠ some i) : startedFor w thread = continuedCount w thread := by
  refine h.counted ?_
  intro q j status hq hj
  obtain ⟨thread', hj'⟩ := h.held (busy_of_minting hq)
  obtain ⟨rfl, -⟩ := hj.unique hj'
  obtain rfl := h.one hi hj'
  exact hnone q hq

theorem busy_inj (h : phase.busy = some i) (j : Nat) (hj : phase.busy = some j) : j = i := by
  rw [h] at hj
  injection hj with hj
  exact hj.symm

theorem not_minting (hothers : ∀ q, q ≠ p → (w.calls q).busy ≠ some i)
    (hbefore : (w.calls p).minting = none) (q : Nat) : (w.calls q).minting ≠ some i := by
  intro hq
  by_cases hqp : q = p
  · rw [hqp, hbefore] at hq
    exact nomatch hq
  · exact hothers q hqp (busy_of_minting hq)

theorem has_status (hi : Has w i thread .outstanding)
    (hwaits : w'.waits = w.waits.modify i f)
    (hthread : ∀ wait, (f wait).thread = wait.thread) (hstatus : ∀ wait, (f wait).status = status) :
    Has w' j thread' status' ↔
      j ≠ i ∧ Has w j thread' status' ∨ j = i ∧ thread' = thread ∧ status' = status := by
  constructor
  · rintro ⟨wait, hwait, ht, hs⟩
    rw [hwaits] at hwait
    obtain ⟨wait₀, hwait₀, ⟨rfl, rfl⟩ | ⟨hji, rfl⟩⟩ := exists_of_getElem?_modify hwait
    · have hhas : Has w j thread' wait₀.status := ⟨wait₀, hwait₀, (hthread wait₀).symm.trans ht, rfl⟩
      exact .inr ⟨rfl, (hhas.unique hi).1, hs.symm.trans (hstatus wait₀)⟩
    · exact .inl ⟨hji, wait, hwait₀, ht, hs⟩
  · rintro (⟨hji, wait, hwait, ht, hs⟩ | ⟨rfl, rfl, rfl⟩)
    · refine ⟨wait, ?_, ht, hs⟩
      rw [hwaits, getElem?_modify_of_ne (Ne.symm hji), hwait]
    · obtain ⟨wait, hwait, ht, -⟩ := hi
      refine ⟨f wait, ?_, (hthread wait).trans ht, hstatus wait⟩
      rw [hwaits, getElem?_modify_self, hwait, map_some]

theorem has_of (hi : Has w i thread .outstanding) : Has w j thread' status' ↔
      j ≠ i ∧ Has w j thread' status' ∨ j = i ∧ thread' = thread ∧ status' = .outstanding := by
  constructor
  · intro hj
    by_cases hji : j = i
    · subst hji
      exact .inr ⟨rfl, hj.unique hi⟩
    · exact .inl ⟨hji, hj⟩
  · rintro (⟨-, hj⟩ | ⟨rfl, rfl, rfl⟩)
    · exact hj
    · exact hi

/-- One more end of a wait. -/
theorem countP_append_one {α : Type} (test : α → Bool) (l : List α) (a : α) :
    (l ++ [a]).countP test = l.countP test + if test a then 1 else 0 := by
  rw [countP_append, countP_singleton]

section

variable (h : Good w)
include h

/-- **A call ends a wait with a message.** -/
theorem Good.settleWait {copy : ChatWait → String} (hclear : Clear w p i)
    (hbefore : (w.calls p).minting = none) (hmine : ∀ j, (w.calls p).busy = some j → j = i)
    (hphase : phase.busy = none) (hended : status ≠ .outstanding) (hcontinued : status ≠ .continued)
    (hstored : ∀ wait, w.waits[i]? = some wait → Stored wait there) :
    Good (settleWait w p i status copy there phase) := by
  obtain ⟨⟨thread, hi⟩, hothers⟩ := hclear
  have hnone := not_minting hothers hbefore
  have hself : (ChatWaits.settleWait w p i status copy there phase).calls p = phase :=
    setCall_self w p phase
  have hwaits : (ChatWaits.settleWait w p i status copy there phase).waits =
      w.waits.modify i fun wait => { wait with status := status } := rfl
  have hcount : ∀ other, continuedCount (ChatWaits.settleWait w p i status copy there phase) other =
        continuedCount w other := by
    intro other
    rw [continued_status hwaits (fun _ => rfl) (fun _ => rfl) hi other,
      if_neg fun hboth => hcontinued hboth.2, add_zero]
  have houtcomes : ∀ j, outcomes (ChatWaits.settleWait w p i status copy there phase) j =
      outcomes w j + if i = j then 1 else 0 := by
    intro j
    obtain ⟨wait, hwait, -⟩ := hi
    have hmessage : systemMessage w i copy there =
        [{ thread := wait.thread, content := copy wait, wait := i }] := by
      rw [systemMessage, hwait]
      refine if_neg ?_
      rintro ⟨hbranch, hgone⟩
      exact hgone (hstored wait hwait hbranch)
    show (w.messages ++ systemMessage w i copy there).countP _ + w.runs.countP _ = _
    rw [hmessage, countP_append_one, outcomes, add_right_comm]
    simp only [decide_eq_true_eq]
  have hon : OnWait w (ChatWaits.settleWait w p i status copy there phase) p i thread status := by
    refine ⟨hi, hothers, hmine, fun q hq => setCall_ne w _ hq, length_modify _ _ _,
      has_status hi hwaits (fun _ => rfl) (fun _ => rfl), ?_, fun other _ => hcount other,
      fun _ _ => rfl⟩
    intro j hji
    rw [houtcomes, if_neg (Ne.symm hji), add_zero]
  refine h.onWait hon ?_ ?_ ?_ ?_
  · intro j hj
    rw [hself, hphase] at hj
    exact nomatch hj
  · intro hj
    rw [hself, minting_of_busy hphase] at hj
    exact nomatch hj
  · intro _
    rw [houtcomes, if_pos rfl, h.fresh hi hnone, if_neg hended, hcount]
    exact ⟨rfl, h.counted_of_alone hi hnone⟩
  · rw [hcount]
    exact h.capped thread

/-- **A call comes to a wait**, and stores its exit code and the log's tail. -/
theorem Good.logged {poll : Poll} {wait : ChatWait} (hi : Has w i thread .outstanding)
    (hothers : ∀ q, q ≠ p → (w.calls q).busy ≠ some i) (hbefore : (w.calls p).minting = none)
    (hmine : ∀ j, (w.calls p).busy = some j → j = i) (hwait : w.waits[i]? = some wait)
    (hroom : continuedCount w wait.thread < maxContinuations)
    (hthread : ∀ wait, (f wait).thread = wait.thread)
    (hstatus : ∀ wait, (f wait).status = wait.status) :
    Good { w.setCall p (.logged i poll) with waits := w.waits.modify i f } := by
  have halike : Alike w { w.setCall p (.logged i poll) with waits := w.waits.modify i f } :=
    alike_modify rfl hthread hstatus rfl rfl
  have hself : (w.setCall p (.logged i poll)).calls p = .logged i poll := setCall_self w p _
  have hnone := not_minting hothers hbefore
  have hon : OnWait w { w.setCall p (.logged i poll) with waits := w.waits.modify i f } p i thread
      .outstanding :=
    ⟨hi, hothers, hmine, fun q hq => setCall_ne w _ hq, halike.length,
      (halike.has _ _ _).trans (has_of hi), fun j _ => halike.outcomes j,
      fun other _ => halike.continued other, fun other _ => halike.started other⟩
  refine h.onWait hon ?_ ?_ ?_ ?_
  · intro j hj
    have hj : (Phase.logged i poll).busy = some j := hself ▸ hj
    injection hj with hj
    obtain ⟨row, hrow, ht, -⟩ := hi
    rw [hwait] at hrow
    injection hrow with hrow
    rw [halike.continued, ← ht, ← hrow]
    exact ⟨hj.symm, rfl, hroom⟩
  · intro hj
    have hj : (Phase.logged i poll).minting = some i := hself ▸ hj
    exact nomatch hj
  · intro _
    rw [halike.outcomes, halike.started, halike.continued]
    exact ⟨h.fresh hi hnone, h.counted_of_alone hi hnone⟩
  · rw [halike.continued]
    exact h.capped thread

/-- **A continuation run is stored**, where the thread has room for one. -/
theorem Good.mint {poll poll' : Poll} {wait : ChatWait}
    (hcall : w.calls p = .logged i poll) (hwait : w.waits[i]? = some wait) :
    Good { w.setCall p (.minted i w.runs.length index poll') with
      runs := w.runs ++ [{ thread := wait.thread, continues := some i }] } := by
  have hbusyp : (w.calls p).busy = some i := by rw [hcall]; rfl
  have hmintp : (w.calls p).minting = none := by rw [hcall]; rfl
  obtain ⟨thread, hi⟩ := h.held hbusyp
  have hthread : wait.thread = thread := by
    obtain ⟨wait', hwait', ht, -⟩ := hi
    rw [hwait] at hwait'
    injection hwait' with hsame
    exact hsame ▸ ht
  have hothers : ∀ q, q ≠ p → (w.calls q).busy ≠ some i := fun q hq hq' => hq (h.lone hq' hbusyp)
  have hnone := not_minting hothers hmintp
  generalize hw' : ({ w.setCall p (.minted i w.runs.length index poll') with
      runs := w.runs ++ [{ thread := wait.thread, continues := some i }] } : World) = w'
  have hself : w'.calls p = .minted i w.runs.length index poll' := by
    rw [← hw']
    exact setCall_self w p _
  have houtcomes : ∀ j, outcomes w' j = outcomes w j + if i = j then 1 else 0 := by
    intro j
    rw [← hw']
    show w.messages.countP _ + (w.runs ++ [_]).countP _ = _
    rw [countP_append_one, outcomes, add_assoc]
    simp only [Option.some.injEq, decide_eq_true_eq]
  have hstarted : ∀ other, startedFor w' other =
      startedFor w other + if thread = other then 1 else 0 := by
    intro other
    rw [← hw']
    show (w.runs ++ [_]).countP _ = _
    rw [countP_append_one, startedFor, hthread]
    simp only [isSome_some, and_true, decide_eq_true_eq]
  have hcount : ∀ other, continuedCount w' other = continuedCount w other := by
    intro other
    rw [← hw']
    rfl
  have hon : OnWait w w' p i thread .outstanding := by
    refine ⟨hi, hothers, busy_inj hbusyp, ?_, ?_, ?_, ?_, fun other _ => hcount other, ?_⟩
    · intro q hq
      rw [← hw']
      exact setCall_ne w _ hq
    · rw [← hw']
      rfl
    · rw [← hw']
      exact has_of hi
    · intro j hji
      rw [houtcomes, if_neg (Ne.symm hji), add_zero]
    · intro other hother
      rw [hstarted, if_neg (Ne.symm hother), add_zero]
  refine h.onWait hon ?_ ?_ ?_ ?_
  · intro j hj
    rw [hself] at hj
    injection hj with hj
    rw [hcount]
    exact ⟨hj.symm, rfl, h.room hbusyp hi⟩
  · intro _
    rw [houtcomes, if_pos rfl, h.fresh hi hnone, hstarted, if_pos rfl, hcount,
      h.counted_of_alone hi hnone]
    exact ⟨rfl, rfl⟩
  · intro hnot
    exact absurd (by rw [hself]; rfl) hnot
  · rw [hcount]
    exact h.capped thread

/-- **A continued wait is settled.** -/
theorem Good.settle (p : Nat) : Good (settle w p) := by
  unfold ChatWaits.settle
  split
  · rename_i i index poll hcall
    have hbusyp : (w.calls p).busy = some i := by rw [hcall]; rfl
    have hmintp : (w.calls p).minting = some i := by rw [hcall]; rfl
    obtain ⟨thread, hi⟩ := h.held hbusyp
    generalize hw' : ({ w.setCall p (.polling poll) with
        waits := w.waits.modify i fun wait =>
          { wait with status := .continued, continuedIndex := some index } } : World) = w'
    have hself : w'.calls p = .polling poll := by
      rw [← hw']
      exact setCall_self w p _
    have hwaits : w'.waits = w.waits.modify i fun wait =>
        { wait with status := .continued, continuedIndex := some index } := by
      rw [← hw']
    have hcount : ∀ other, continuedCount w' other =
        continuedCount w other + if thread = other then 1 else 0 := by
      intro other
      rw [continued_status hwaits (fun _ => rfl) (fun _ => rfl) hi other]
      simp only [and_true]
    have houtcomes : outcomes w' = outcomes w := by
      rw [← hw']
      rfl
    have hstarted : startedFor w' = startedFor w := by
      rw [← hw']
      rfl
    have hon : OnWait w w' p i thread .continued := by
      refine ⟨hi, ?_, busy_inj hbusyp, ?_, ?_, has_status hi hwaits (fun _ => rfl) fun _ => rfl,
        fun j _ => congrFun houtcomes j, ?_, fun other _ => congrFun hstarted other⟩
      · intro q hq hq'
        exact hq (h.lone hq' hbusyp)
      · intro q hq
        rw [← hw']
        exact setCall_ne w _ hq
      · rw [hwaits, length_modify]
      · intro other hother
        rw [hcount, if_neg (Ne.symm hother), add_zero]
    refine h.onWait hon ?_ ?_ ?_ ?_
    · intro j hj
      rw [hself] at hj
      exact nomatch hj
    · intro hj
      rw [hself] at hj
      exact nomatch hj
    · intro _
      rw [houtcomes, h.mid hmintp, hstarted, hcount, if_pos rfl, h.counting hmintp hi]
      exact ⟨rfl, rfl⟩
    · rw [hcount, if_pos rfl]
      exact h.room hbusyp hi
  · exact h

omit h in
theorem outstandingFor_eq_none (h : outstandingFor w thread = none) :
    ¬ Has w i thread .outstanding := by
  rintro ⟨wait, hwait, ht, hs⟩
  have hnone := List.findIdx?_eq_none_iff.mp h wait (mem_of_getElem? hwait)
  simp [ht, hs] at hnone

theorem Good.insert (p : Nat) {wait : NewWait} (hcall : (w.calls p).busy = none) :
    Good (insert w p wait) := by
  obtain ⟨wait, hnew⟩ := wait
  unfold ChatWaits.insert
  split
  · exact h.setCall hcall rfl
  · rename_i hnone
    have hnone : outstandingFor w wait.thread = none := by simpa using hnone
    generalize hw' : ({ w.setCall p .idle with waits := w.waits ++ [wait] } : World) = w'
    have hwaits : w'.waits = w.waits ++ [wait] := by rw [← hw']
    have hself : w'.calls p = .idle := by
      rw [← hw']
      exact setCall_self w p _
    have hne : ∀ q, q ≠ p → w'.calls q = w.calls q := by
      intro q hq
      rw [← hw']
      exact setCall_ne w _ hq
    have hbusy : ∀ q, (w'.calls q).busy = (w.calls q).busy :=
      calls_congr _ hne (by rw [hself, hcall]; rfl)
    have hminting : ∀ q, (w'.calls q).minting = (w.calls q).minting :=
      calls_congr _ hne (by rw [hself, minting_of_busy hcall]; rfl)
    have hhas : ∀ {j : Nat} {thread : Thread} {status : ChatWaitStatus},
        Has w' j thread status ↔ Has w j thread status ∨
          j = w.waits.length ∧ thread = wait.thread ∧ status = .outstanding := by
      intro j thread status
      constructor
      · rintro ⟨row, hrow, ht, hs⟩
        rw [hwaits] at hrow
        rcases of_getElem?_append_singleton hrow with hrow | ⟨hj, rfl⟩
        · exact .inl ⟨row, hrow, ht, hs⟩
        · exact .inr ⟨hj, ht.symm, hs.symm.trans hnew⟩
      · rintro (⟨row, hrow, ht, hs⟩ | ⟨rfl, rfl, rfl⟩)
        · exact ⟨row, by rw [hwaits]; exact getElem?_append_of_some hrow, ht, hs⟩
        · exact ⟨wait, by rw [hwaits]; exact getElem?_append_length, rfl, hnew⟩
    have hcount : ∀ thread, continuedCount w' thread = continuedCount w thread := by
      intro thread
      rw [continuedCount, hwaits, countP_append]
      simp [continuedCount, hnew]
    have houtcomes : ∀ j, outcomes w' j = outcomes w j := by
      intro j
      rw [← hw']
      rfl
    have hstarted : ∀ thread, startedFor w' thread = startedFor w thread := by
      intro thread
      rw [← hw']
      rfl
    -- nobody is on the new wait
    have hold : ∀ {q j thread status}, (w.calls q).busy = some j → Has w' j thread status →
        Has w j thread status := by
      intro q j thread status hq hj
      rcases hhas.mp hj with hj | ⟨rfl, -⟩
      · exact hj
      · obtain ⟨thread', hj'⟩ := h.held hq
        exact absurd hj'.lt (lt_irrefl _)
    refine ⟨?_, ?_, ?_, ?_, ?_, ?_, ?_, ?_, ?_, ?_, ?_⟩
    · intro j k thread hj hk
      rcases hhas.mp hj with hj | ⟨hlast, hthread, -⟩
      · rcases hhas.mp hk with hk | ⟨-, rfl, -⟩
        · exact h.one hj hk
        · exact absurd hj (outstandingFor_eq_none hnone)
      · subst hthread
        rcases hhas.mp hk with hk | ⟨hk, -, -⟩
        · exact absurd hk (outstandingFor_eq_none hnone)
        · rw [hlast, hk]
    · intro q₁ q₂ j h₁ h₂
      rw [hbusy] at h₁ h₂
      exact h.lone h₁ h₂
    · intro q j hq
      rw [hbusy] at hq
      obtain ⟨thread, hj⟩ := h.held hq
      exact ⟨thread, hhas.mpr (.inl hj)⟩
    · intro j thread hj hopen
      rw [houtcomes]
      rcases hhas.mp hj with hj | ⟨rfl, -, -⟩
      · refine h.fresh hj ?_
        intro q
        rw [← hminting]
        exact hopen q
      · exact h.unused le_rfl
    · intro q j hq
      rw [hminting] at hq
      rw [houtcomes]
      exact h.mid hq
    · intro j thread status hj hs
      rw [houtcomes]
      rcases hhas.mp hj with hj | ⟨-, -, hsame⟩
      · exact h.ended hj hs
      · exact absurd hsame hs
    · intro j hj
      rw [hwaits, length_append] at hj
      rw [houtcomes]
      exact h.unused (le_of_add_right_le hj)
    · intro thread hopen
      rw [hstarted, hcount]
      refine h.counted ?_
      intro q j status hq hj
      rw [← hminting] at hq
      exact hopen q j status hq (hhas.mpr (.inl hj))
    · intro q j thread status hq hj
      rw [hminting] at hq
      rw [hstarted, hcount]
      exact h.counting hq (hold (busy_of_minting hq) hj)
    · intro thread
      rw [hcount]
      exact h.capped thread
    · intro q j thread status hq hj
      rw [hbusy] at hq
      rw [hcount]
      exact h.room hq (hold hq hj)

theorem Good.stop (hnone : ∀ p, (w.calls p).minting = none) :
    Good { w with calls := fun _ => .idle } where
  one := h.one
  lone := nofun
  held := nofun
  fresh := fun hi _ => h.fresh hi fun p hp => by
    rw [hnone p] at hp
    exact nomatch hp
  mid := nofun
  ended := h.ended
  unused := h.unused
  counted := fun _ => h.counted fun p i status hp => by
    rw [hnone p] at hp
    exact nomatch hp
  counting := nofun
  capped := h.capped
  room := nofun

end

/-! ## Polls -/

section

variable {wait : ChatWait} {poll : Poll} {state : ProcessState}

/-- What a poll makes of a wait never ends it as outstanding or continued, and goes on with it only
    where its thread has room. -/
def Handling.Fits (room : Prop) : Handling → Prop
  | .leave => True
  | .settle status _ => status ≠ .outstanding ∧ status ≠ .continued
  | .goOn => room

theorem handleWait_fits (w : World) (wait : ChatWait) (poll : Poll) (state : ProcessState) :
    (handleWait w wait poll state).Fits (continuedCount w wait.thread < maxContinuations) := by
  have hlate : Handling.Fits (continuedCount w wait.thread < maxContinuations)
      (if wait.deadline ≤ poll.now then .settle .timedOut timeoutCopy else .leave) := by
    split
    · exact ⟨nofun, nofun⟩
    · trivial
  have hlost : Handling.Fits (continuedCount w wait.thread < maxContinuations)
      (if poll.onUnknown = .interrupt then .settle .interrupted bootUnknownCopy
        else if wait.deadline ≤ poll.now then .settle .timedOut timeoutCopy else .leave) := by
    split
    · exact ⟨nofun, nofun⟩
    · exact hlate
  unfold handleWait
  dsimp only
  split
  · exact hlost
  · cases state with
    | alive => exact hlate
    | unknown => exact hlost
    | gone =>
      show Handling.Fits _ (continueOrCap w wait)
      unfold continueOrCap
      split
      · trivial
      · split
        · exact ⟨nofun, nofun⟩
        · rename_i hroom
          exact Nat.lt_of_not_le hroom

theorem handleWait_settle {copy : ChatWait → String}
    (h : handleWait w wait poll state = .settle status copy) :
    status ≠ .outstanding ∧ status ≠ .continued := by
  have hfits := handleWait_fits w wait poll state
  rw [h] at hfits
  exact hfits

theorem handleWait_goOn (h : handleWait w wait poll state = .goOn) :
    continuedCount w wait.thread < maxContinuations := by
  have hfits := handleWait_fits w wait poll state
  rw [h] at hfits
  exact hfits

end

theorem Good.handle (h : Good w) {state : ProcessState} {exitCode : Option Int}
    {logTail : String} (hlone : Lone w (.handle p state there exitCode logTail)) :
    Good (handle w p state there exitCode logTail) := by
  unfold ChatWaits.handle
  split
  · rename_i poll hcall
    have hbusyp : (w.calls p).busy = none := by rw [hcall]; rfl
    have hmintp : (w.calls p).minting = none := minting_of_busy hbusyp
    have hmine : ∀ {i : Nat}, ∀ j, (w.calls p).busy = some j → j = i := by
      intro i j hj
      rw [hbusyp] at hj
      exact nomatch hj
    split
    · exact h.setCall hbusyp rfl
    · rename_i i rest hrest
      dsimp only
      split
      · exact h.setCall hbusyp rfl
      · rename_i wait hwait
        have hclear := hlone poll i rest wait hcall hrest hwait
        split
        · exact h.setCall hbusyp rfl
        · rename_i status copy hhandling
          obtain ⟨hended, hcontinued⟩ := handleWait_settle hhandling
          rw [hhandling] at hclear
          obtain ⟨hclear, hstored⟩ := hclear nofun
          refine h.settleWait hclear hmintp hmine rfl hended hcontinued ?_
          intro row hrow
          rw [hwait] at hrow
          injection hrow with hrow
          exact hrow ▸ hstored
        · rename_i hhandling
          have hroom := handleWait_goOn hhandling
          rw [hhandling] at hclear
          obtain ⟨⟨⟨thread, hi⟩, hothers⟩, -⟩ := hclear nofun
          exact h.logged hi hothers hmintp hmine hwait hroom (fun _ => rfl) fun _ => rfl
  · exact h

theorem Good.start (h : Good w) {answer : StartAnswer}
    (hlone : Lone w (.start p answer there)) : Good (start w p answer there) := by
  unfold ChatWaits.start
  split
  · rename_i i poll hcall
    have hbusyp : (w.calls p).busy = some i := by rw [hcall]; rfl
    have hmintp : (w.calls p).minting = none := by rw [hcall]; rfl
    have hclear : Clear w p i := ⟨h.held hbusyp, fun q hq hq' => hq (h.lone hq' hbusyp)⟩
    split
    · rename_i hnone
      obtain ⟨thread, wait, hwait, -⟩ := h.held hbusyp
      rw [hnone] at hwait
      exact nomatch hwait
    · rename_i wait hwait
      have hfails : answer ≠ .found →
          Good (ChatWaits.settleWait w p i .interrupted bootUnknownCopy there (.polling poll)) := by
        intro hanswer
        refine h.settleWait hclear hmintp (busy_inj hbusyp) rfl nofun nofun ?_
        intro row hrow
        exact hlone i poll row hcall hrow hanswer
      cases answer with
      | originGone | threadGone => exact hfails nofun
      | found => exact h.mint hcall hwait
  · exact h

theorem Good.attach (h : Good w) (p : Nat) : Good (attach w p) := by
  unfold ChatWaits.attach
  split
  · rename_i i run index poll hcall
    have hself : (w.setCall p (.attached i index poll)).calls p = .attached i index poll :=
      setCall_self w p _
    refine h.quiet (alike_modify (i := i) rfl (fun _ => rfl) (fun _ => rfl) rfl rfl)
      (calls_congr _ (fun q hq => setCall_ne w _ hq) ?_)
      (calls_congr _ (fun q hq => setCall_ne w _ hq) ?_)
    · show ((w.setCall p (.attached i index poll)).calls p).busy = _
      rw [hself, hcall]
      rfl
    · show ((w.setCall p (.attached i index poll)).calls p).minting = _
      rw [hself, hcall]
      rfl
  · exact h

/-- **Every lone step keeps what is counted.** -/
theorem Good.step (h : Good w) (hlone : Lone w e) : Good (step w e) := by
  cases e with
  | turn thread =>
    refine h.quiet ⟨fun _ _ _ => Iff.rfl, rfl, fun _ => rfl, ?_, ?_⟩ (fun _ => rfl) fun _ => rfl
    · intro i
      simp [step, outcomes, countP_append]
    · simp [step, startedFor, countP_append]
  | turnEnds run =>
    have hends : ∀ test : AgentRun → Bool, (∀ r, test { r with inFlight := false } = test r) →
        (w.runs.modify run fun r => { r with inFlight := false }).countP test =
          w.runs.countP test := fun test htest => countP_modify_same test htest
    refine h.quiet ⟨fun _ _ _ => Iff.rfl, rfl, fun _ => rfl, ?_, ?_⟩ (fun _ => rfl) fun _ => rfl
    · intro i
      exact congrArg (w.messages.countP _ + ·) (hends _ fun _ => rfl)
    · intro thread'
      exact hends _ fun _ => rfl
  | register p registration =>
    simp only [step]
    split
    · rename_i hcall _
      exact h.setCall (by rw [hcall]; rfl) rfl
    · exact h
  | insert p =>
    simp only [step]
    split
    · rename_i wait hcall
      exact h.insert p (by rw [hcall]; rfl)
    · exact h
  | cancel p thread =>
    simp only [step]
    split
    · rename_i i hcall _
      exact h.setCall (by rw [hcall]; rfl) rfl
    · exact h
  | cancelled p there =>
    simp only [step]
    split
    · rename_i i hcall
      obtain ⟨hclear, hstored⟩ := hlone i hcall
      refine h.settleWait hclear (by rw [hcall]; rfl) ?_ rfl nofun nofun hstored
      intro j hj
      rw [hcall] at hj
      exact nomatch hj
    · exact h
  | poll p onUnknown now =>
    simp only [step]
    split
    · rename_i hcall
      exact h.setCall (by rw [hcall]; rfl) rfl
    · exact h
  | handle p state there exitCode logTail => exact h.handle hlone
  | start p answer there => exact h.start hlone
  | attach p => exact h.attach p
  | settle p => exact h.settle p
  | raises p =>
    show Good (raises w p)
    unfold raises
    split
    · exact h.setCall hlone rfl
    · exact h.setCall hlone rfl
    · exact h
  | stop => exact h.stop hlone

def Phase.ahead : Phase → List Nat
  | .polling poll | .logged _ poll | .minted _ _ _ poll | .attached _ _ poll => poll.rest
  | .idle | .registering _ | .cancelling _ => []

def Event.actor : Event → Option Nat
  | .register p _ | .insert p | .cancel p _ | .cancelled p _ | .poll p _ _ | .handle p _ _ _ _
  | .start p _ _ | .attach p | .settle p | .raises p => some p
  | .turn _ | .turnEnds _ | .stop => none

theorem step_calls_ne (h : e.actor ≠ some p) (hstop : e ≠ .stop) :
    (step w e).calls p = w.calls p := by
  have hne : ∀ {q : Nat}, some q ≠ some p → p ≠ q := by
    rintro q hq rfl
    exact hq rfl
  cases e with
  | turn thread | turnEnds run => rfl
  | stop => exact absurd rfl hstop
  | register q registration | cancel q thread | cancelled q there | poll q onUnknown now =>
    simp only [step]
    split
    · exact setCall_ne w _ (hne h)
    · rfl
  | insert q =>
    simp only [step]
    split
    · unfold insert
      split
      · exact setCall_ne w _ (hne h)
      · exact setCall_ne w _ (hne h)
    · rfl
  | handle q state there exitCode logTail =>
    show (handle w q state there exitCode logTail).calls p = w.calls p
    unfold handle
    split
    · split
      · exact setCall_ne w _ (hne h)
      · dsimp only
        split
        · exact setCall_ne w _ (hne h)
        · split <;> exact setCall_ne w _ (hne h)
    · rfl
  | start q answer there =>
    show (start w q answer there).calls p = w.calls p
    unfold start
    split
    · split
      · exact setCall_ne w _ (hne h)
      · split <;> exact setCall_ne w _ (hne h)
    · rfl
  | attach q | settle q =>
    simp only [step, attach, settle]
    split
    · exact setCall_ne w _ (hne h)
    · rfl
  | raises q =>
    show (raises w q).calls p = w.calls p
    unfold raises
    split
    · exact setCall_ne w _ (hne h)
    · exact setCall_ne w _ (hne h)
    · rfl

/-- **A wait ahead of a poll stays ahead until it is handled**, whatever the waits before it
    came to. -/
theorem ahead_kept (hlone : Lone w e) (hstop : e ≠ .stop)
    (hahead : j ∈ (w.calls p).ahead) : j ∈ ((step w e).calls p).ahead ∨
      ∃ poll rest, w.calls p = .polling poll ∧ poll.rest = j :: rest := by
  by_cases hactor : e.actor = some p
  · have hself : ∀ phase, (w.setCall p phase).calls p = phase := fun phase => setCall_self w p phase
    cases e with
    | turn thread | turnEnds run => exact nomatch hactor
    | stop => exact absurd rfl hstop
    | register q registration | cancel q thread =>
      injection hactor with hq
      subst hq
      simp only [step]
      split
      · rename_i hcall _
        rw [hcall] at hahead
        exact nomatch hahead
      · exact .inl hahead
    | insert q | cancelled q there | poll q onUnknown now =>
      injection hactor with hq
      subst hq
      simp only [step]
      split
      · rename_i hcall
        rw [hcall] at hahead
        exact nomatch hahead
      · exact .inl hahead
    | handle q state there exitCode logTail =>
      injection hactor with hq
      subst hq
      show j ∈ ((handle w q state there exitCode logTail).calls q).ahead ∨ _
      unfold handle
      split
      · rename_i poll hcall
        rw [hcall] at hahead
        have hahead : j ∈ poll.rest := hahead
        split
        · rename_i hrest
          rw [hrest] at hahead
          exact nomatch hahead
        · rename_i i rest hrest
          rw [hrest] at hahead
          rcases mem_cons.mp hahead with rfl | hlater
          · exact .inr ⟨poll, rest, hcall, hrest⟩
          · left
            have hphase : ∀ {w' : World} {phase : Phase}, w'.calls q = phase →
                phase.ahead = rest → j ∈ (w'.calls q).ahead := by
              intro w' phase hcalls hphase
              rw [hcalls, hphase]
              exact hlater
            dsimp only
            split
            · exact hphase (hself _) rfl
            · split
              · exact hphase (hself _) rfl
              · exact hphase (hself _) rfl
              · exact hphase (hself _) rfl
      · exact .inl hahead
    | start q answer there =>
      injection hactor with hq
      subst hq
      left
      show j ∈ ((start w q answer there).calls q).ahead
      unfold start
      split
      · rename_i i poll hcall
        rw [hcall] at hahead
        have hphase : ∀ {w' : World} {phase : Phase}, w'.calls q = phase →
            phase.ahead = poll.rest → j ∈ (w'.calls q).ahead := by
          intro w' phase hcalls hphase
          rw [hcalls, hphase]
          exact hahead
        split
        · exact hphase (hself _) rfl
        · split
          · exact hphase (hself _) rfl
          · exact hphase (hself _) rfl
          · exact hphase (hself _) rfl
      · exact hahead
    | attach q =>
      injection hactor with hq
      subst hq
      left
      show j ∈ ((attach w q).calls q).ahead
      unfold attach
      split
      · rename_i i run index poll hcall
        rw [hcall] at hahead
        show j ∈ ((w.setCall q (.attached i index poll)).calls q).ahead
        rw [hself]
        exact hahead
      · exact hahead
    | settle q =>
      injection hactor with hq
      subst hq
      left
      show j ∈ ((settle w q).calls q).ahead
      unfold settle
      split
      · rename_i i index poll hcall
        rw [hcall] at hahead
        show j ∈ ((w.setCall q (.polling poll)).calls q).ahead
        rw [hself]
        exact hahead
      · exact hahead
    | raises q =>
      injection hactor with hq
      subst hq
      have hlone : (w.calls q).busy = none := hlone
      left
      show j ∈ ((raises w q).calls q).ahead
      unfold raises
      split
      · rename_i hcall
        rw [hcall] at hlone
        exact nomatch hlone
      · rename_i hcall
        rw [hcall] at hlone
        exact nomatch hlone
      · exact hahead
  · left
    rw [step_calls_ne hactor hstop]
    exact hahead

/-! ## Every wait ends -/

def Ends (w : World) (p i : Nat) : Prop :=
  ∃ tr w' thread status, (∀ e ∈ tr, Event.actor e = some p) ∧
    Run (Guarded Step Lone) w tr w' ∧ Has w' i thread status ∧ status ≠ .outstanding

theorem Ends.now (hhas : Has w i thread status) (hstatus : status ≠ .outstanding) : Ends w p i :=
  ⟨[], w, thread, status, fun _ hmem => absurd hmem not_mem_nil, .nil w, hhas, hstatus⟩

theorem Ends.cons (he : e.actor = some p) (hlone : Lone w e)
    (h : Ends (step w e) p i) : Ends w p i := by
  obtain ⟨tr, w', thread, status, hown, hrun, hhas, hstatus⟩ := h
  refine ⟨e :: tr, w', thread, status, ?_, .cons ⟨hlone, rfl⟩ hrun, hhas, hstatus⟩
  intro e' hmem
  rcases mem_cons.mp hmem with rfl | hmem
  · exact he
  · exact hown e' hmem

section

variable {wait : ChatWait} {poll : Poll}

theorem ends_of_attached (hcall : w.calls p = .attached i index poll)
    (hwait : w.waits[i]? = some wait) : Ends w p i := by
  have hends : ChatWaitStatus.continued ≠ .outstanding := ChatWaitStatus.noConfusion
  have hcontinued : Has (step w (.settle p)) i wait.thread .continued := by
    refine ⟨{ wait with status := .continued, continuedIndex := some index }, ?_, rfl, rfl⟩
    show (settle w p).waits[i]? = _
    rw [settle, hcall]
    show (w.waits.modify i _)[i]? = _
    rw [getElem?_modify_self, hwait, map_some]
  exact .cons (e := .settle p) rfl trivial (.now hcontinued hends)

theorem ends_of_minted {run : Nat} (hcall : w.calls p = .minted i run index poll)
    (hwait : w.waits[i]? = some wait) : Ends w p i := by
  have hact : step w (.attach p) = { w.setCall p (.attached i index poll) with
      waits := w.waits.modify i fun wait => { wait with continuationRun := some run } } := by
    show attach w p = _
    rw [attach, hcall]
  refine .cons (e := .attach p) rfl trivial ?_
  have hbound : (w.waits.modify i fun wait => { wait with continuationRun := some run })[i]? =
      some { wait with continuationRun := some run } := by
    rw [getElem?_modify_self, hwait, map_some]
  rw [hact]
  exact ends_of_attached (setCall_self w p _) hbound

theorem ends_of_logged (hcall : w.calls p = .logged i poll) (hwait : w.waits[i]? = some wait) :
    Ends w p i := by
  have hact : step w (.start p .found true) =
      { w.setCall p (.minted i w.runs.length (continuedCount w wait.thread + 1) poll) with
        runs := w.runs ++ [{ thread := wait.thread, continues := some i }] } := by
    show start w p .found true = _
    simp only [start, hcall, hwait]
  refine .cons (e := .start p .found true) rfl ?_ ?_
  · intro i poll wait _ _ hnot
    exact absurd rfl hnot
  · rw [hact]
    exact ends_of_minted (setCall_self w p _) hwait

/-- **A poll that does not leave a wait as it is ends it.** -/
theorem ends_of_polling {rest : List Nat} {state : ProcessState} (hcall : w.calls p = .polling poll)
    (hrest : poll.rest = i :: rest) (hwait : w.waits[i]? = some wait) (hclear : Clear w p i)
    (hhandling : handleWait w wait { poll with rest := rest } state ≠ .leave) : Ends w p i := by
  refine .cons (e := .handle p state true none "") rfl ?_ ?_
  · intro poll' i' rest' wait' hcall' hrest' hwait' _
    rw [hcall] at hcall'
    injection hcall' with hpoll
    subst hpoll
    rw [hrest] at hrest'
    injection hrest' with hi
    subst hi
    exact ⟨hclear, fun _ => rfl⟩
  · show Ends (handle w p state true none "") p i
    cases hresult : handleWait w wait { poll with rest := rest } state with
    | leave => exact absurd hresult hhandling
    | settle status copy =>
      have hact : handle w p state true none "" =
          settleWait w p i status copy true (.polling { poll with rest := rest }) := by
        simp only [handle, hcall, hrest, hwait, hresult]
      rw [hact]
      have hsettled : Has (settleWait w p i status copy true
          (.polling { poll with rest := rest })) i wait.thread status := by
        refine ⟨{ wait with status := status }, ?_, rfl, rfl⟩
        show (w.waits.modify i _)[i]? = _
        rw [getElem?_modify_self, hwait, map_some]
      exact .now hsettled (handleWait_settle hresult).1
    | goOn =>
      have hact : handle w p state true none "" =
          { w.setCall p (.logged i { poll with rest := rest }) with
            waits := w.waits.modify i fun wait =>
              { wait with exitCode := none, logTail := some "" } } := by
        simp only [handle, hcall, hrest, hwait, hresult]
      have hlogged : (w.waits.modify i fun wait =>
          { wait with exitCode := none, logTail := some "" })[i]? =
            some { wait with exitCode := none, logTail := some "" } := by
        rw [getElem?_modify_self, hwait, map_some]
      rw [hact]
      exact ends_of_logged (setCall_self w p _) hlogged

end

theorem good_init : Good {} where
  one := by
    rintro i j thread ⟨wait, hwait, -⟩
    exact nomatch hwait
  lone := nofun
  held := nofun
  fresh := fun _ _ => rfl
  mid := nofun
  ended := by
    rintro i thread status ⟨wait, hwait, -⟩
    exact nomatch hwait
  unused := fun _ => rfl
  counted := fun _ => rfl
  counting := nofun
  capped := fun _ => zero_le _
  room := nofun

theorem good_run {tr : List Event} (hrun : Run (Guarded Step Lone) {} tr w) : Good w := by
  refine hrun.invariant ?_ good_init
  rintro w e w' h ⟨hlone, rfl⟩
  exact h.step hlone

/-- **A wait is answered once.** In a run of lone steps a wait that has ended has had one message or
    one run, and one that is outstanding a run at most; a thread has one outstanding wait and three
    continuations at most; a poll that does not leave a wait as it is ends it; and the waits a poll
    has listed stay ahead of it until it handles them. -/
theorem answered_once (tr : List Event) (w : World) (hrun : Run (Guarded Step Lone) {} tr w) :
    (∀ i thread status, Has w i thread status →
      if status = .outstanding then outcomes w i ≤ 1 else outcomes w i = 1) ∧
    (∀ i j thread, Has w i thread .outstanding → Has w j thread .outstanding → i = j) ∧
    (∀ thread, startedFor w thread ≤ maxContinuations) ∧
    (∀ p poll i rest wait state, w.calls p = .polling poll → poll.rest = i :: rest →
      w.waits[i]? = some wait → Clear w p i →
        handleWait w wait { poll with rest := rest } state ≠ .leave → Ends w p i) ∧
    ∀ p j e, Lone w e → e ≠ .stop → j ∈ (w.calls p).ahead → j ∈ ((step w e).calls p).ahead ∨
      ∃ poll rest, w.calls p = .polling poll ∧ poll.rest = j :: rest := by
  have h := good_run hrun
  refine ⟨?_, ?_, ?_, ?_, ?_⟩
  · intro i thread status hhas
    split
    · rename_i houtstanding
      subst houtstanding
      by_cases hminting : ∃ p, (w.calls p).minting = some i
      · obtain ⟨p, hp⟩ := hminting
        exact (h.mid hp).le
      · rw [h.fresh hhas fun p hp => hminting ⟨p, hp⟩]
        exact zero_le 1
    · rename_i hended
      exact h.ended hhas hended
  · intro i j thread hi hj
    exact h.one hi hj
  · intro thread
    by_cases hminting : ∃ p i status, (w.calls p).minting = some i ∧ Has w i thread status
    · obtain ⟨p, i, status, hp, hi⟩ := hminting
      rw [h.counting hp hi]
      exact h.room (busy_of_minting hp) hi
    · rw [h.counted fun p i status hp hi => hminting ⟨p, i, status, hp, hi⟩]
      exact h.capped thread
  · intro p poll i rest wait state hcall hrest hwait hclear hhandling
    exact ends_of_polling hcall hrest hwait hclear hhandling
  · intro p j e hlone hstop hahead
    exact ahead_kept hlone hstop hahead

theorem foldl_calls_ne {tr : List Event} (h : ∀ e ∈ tr, e.actor ≠ some p ∧ e ≠ .stop) :
    (tr.foldl step w).calls p = w.calls p := by
  induction tr generalizing w with
  | nil => rfl
  | cons e tr ih =>
    obtain ⟨hactor, hstop⟩ := h e mem_cons_self
    calc ((e :: tr).foldl step w).calls p
        = (step w e).calls p := ih fun e' hmem => h e' (mem_cons_of_mem e hmem)
      _ = w.calls p := step_calls_ne hactor hstop

def ticketThread : Thread := ⟨.ticketTriage, "ticket"⟩

def build : Registration where
  command := "make"
  logPath := "build.log"
  ticketId := some "ticket"
  origin := some 0
  state := .alive
  stamp := "41"
  detached := true
  now := 0

def waiting : List Event := [.turn ticketThread, .register 0 build, .insert 0, .turnEnds 0]

def continuedBuild : List Event :=
  [.poll 0 .skip 10, .handle 0 .gone true (some 0) "ok", .start 0 .found true, .attach 0, .settle 0]

theorem answered_once_build : outcomes ((waiting ++ continuedBuild).foldl step {}) 0 = 1 := by
  have hclear : Clear ((waiting ++ continuedBuild.take 1).foldl step {}) 0 0 := by
    refine ⟨⟨ticketThread, _, rfl, rfl, rfl⟩, ?_⟩
    intro q hq
    have hcalls : ((waiting ++ continuedBuild.take 1).foldl step {}).calls q = .idle := by
      refine foldl_calls_ne (w := {}) ?_
      simp [waiting, continuedBuild, Event.actor, Ne.symm hq]
    rw [hcalls]
    exact nofun
  have hhandle : Lone ((waiting ++ continuedBuild.take 1).foldl step {})
      (.handle 0 .gone true (some 0) "ok") := by
    intro poll i rest wait hcall hrest _ _
    injection hcall with hpoll
    subst hpoll
    injection hrest with hi
    subst hi
    exact ⟨hclear, fun _ => rfl⟩
  have hstart : Lone ((waiting ++ continuedBuild.take 2).foldl step {})
      (.start 0 .found true) := fun _ _ _ _ _ hnot => absurd rfl hnot
  have hrun : Run (Guarded Step Lone) {} (waiting ++ continuedBuild)
      ((waiting ++ continuedBuild).foldl step {}) :=
    .cons ⟨trivial, rfl⟩ (.cons ⟨trivial, rfl⟩ (.cons ⟨trivial, rfl⟩ (.cons ⟨trivial, rfl⟩
      (.cons ⟨trivial, rfl⟩ (.cons ⟨hhandle, rfl⟩ (.cons ⟨hstart, rfl⟩ (.cons ⟨trivial, rfl⟩
        (.cons ⟨trivial, rfl⟩ (.nil _)))))))))
  exact (answered_once _ _ hrun).1 0 ticketThread .continued ⟨_, rfl, rfl, rfl⟩

/-- A person cancels the wait after a poll has listed it. -/
def cancelledBuild : List Event :=
  [.poll 1 .skip 10, .cancel 0 ticketThread, .cancelled 0 true, .handle 1 .gone true (some 0) "ok",
    .start 1 .found true, .attach 1, .settle 1]

/-- The server stops after the run's commit, and finds the wait again when it boots. -/
def stoppedBuild : List Event :=
  [.poll 0 .interrupt 10, .handle 0 .gone true (some 0) "ok", .start 0 .found true, .stop]

/-- **A wait is answered twice**: by the cancel's message and the poll's run; and by a run for each
    stop, past what a thread may be continued. -/
theorem answered_twice : (∃ w, Run Step {} (waiting ++ cancelledBuild) w ∧ outcomes w 0 = 2 ∧
      w.messages.length = 1 ∧ startedFor w ticketThread = 1) ∧
    ∃ w, Run Step {} (waiting ++ stoppedBuild ++ stoppedBuild ++ stoppedBuild ++ stoppedBuild) w ∧
      outcomes w 0 = 4 ∧ startedFor w ticketThread = 4 := by
  refine ⟨⟨_, Run.of_foldl (fun _ _ => rfl) _ _, ?_, ?_, ?_⟩,
    ⟨_, Run.of_foldl (fun _ _ => rfl) _ _, ?_, ?_⟩⟩
  all_goals decide +kernel

end Loregarden.ChatWaits

