import Mathlib.Data.Nat.Find
import Loregarden.UiBrokerProofs

/-! # Each call gets its answer

What every step keeps of a request (`Follows`), that the steps of the loop itself bring every call
to its end (`Sound.settles`), and the claim over whole runs (`answers_truthful`). -/

namespace Loregarden.UiBroker

open Runs Tables Broker List Option Bool Nat

variable {b b' : Broker} {i : RequestId} {c : Call} {tabId : TabId} {late : Bool}

/-- An event under which the broker keeps its word: no send raises, a send ends before the clock
    moves, and no timer fires on a request its tab has closed on and that has yet to see it. -/
def Prompt (b : Broker) : Event → Prop
  | .sendRaises _ _ => False
  | .tick _ => ∀ c ∈ b.calls, c.phase ≠ .sending
  | .timer i => ∀ c : Call, b.calls[i]? = some c → c.future ≠ .done (tabClosed c.tab)
  | _ => True

theorem sound_init : Sound {} := by
  refine ⟨?_, ?_, ?_⟩
  · intro i c hc
    exact nomatch (List.getElem?_nil (i := i)).symm.trans hc
  · intro t tab ht
    exact nomatch (List.getElem?_nil (i := t)).symm.trans ht
  · intro outcome ho
    cases ho

theorem Sound.step {event : Event} (h : Sound b) (hprompt : Prompt b event)
    (hstep : Steps late b event b') : Sound b' := by
  cases event with
  | connect =>
    obtain rfl := some.inj hstep
    exact h.connect
  | disconnect tabId =>
    obtain rfl := some.inj hstep
    exact h.disconnect
  | register tabId available =>
    obtain rfl := some.inj hstep
    exact h.register available
  | focus tabId visible =>
    obtain rfl := some.inj hstep
    exact h.focus visible
  | resolve tabId requestId ok result error =>
    obtain rfl := some.inj hstep
    exact h.resolve ok result error
  | invoke action timeout =>
    obtain rfl := some.inj hstep
    exact h.invoke action timeout
  | sendDone requestId => exact h.sendDone hstep
  | sendRaises requestId timeoutError => exact hprompt.elim
  | timer requestId => exact h.timer hstep hprompt
  | wake requestId => exact h.wake hstep
  | tick span => exact h.tick hstep hprompt

theorem Sound.run {tr : List Event} (h : Sound b)
    (hrun : Run (Guarded (Steps late) Prompt) b tr b') :
    Sound b' := by
  refine hrun.invariant ?_ h
  rintro s e t hs ⟨hprompt, hstep⟩
  exact hs.step hprompt hstep

/-! ## What every step keeps of a request -/

/-- A request stays what was asked, and keeps the answer it has. -/
structure Follows (c c' : Call) : Prop where
  tab : c'.tab = c.tab
  action : c'.action = c.action
  timeout : c'.timeout = c.timeout
  started : c'.started = c.started
  answer : c.inFlight = false → c'.phase = c.phase

theorem Follows.refl (c : Call) : Follows c c := ⟨rfl, rfl, rfl, rfl, fun _ => rfl⟩

theorem Follows.trans {d e : Call} (h : Follows c d) (h' : Follows d e) : Follows c e where
  tab := h'.tab.trans h.tab
  action := h'.action.trans h.action
  timeout := h'.timeout.trans h.timeout
  started := h'.started.trans h.started
  answer hc := (h'.answer ((inFlight_congr (h.answer hc)).trans hc)).trans (h.answer hc)

/-- The requests of one broker follow those of another. -/
def Continues (b b' : Broker) : Prop :=
  ∀ (i : RequestId) (c : Call), b.calls[i]? = some c → ∃ c', b'.calls[i]? = some c' ∧ Follows c c'

theorem Continues.of_eq (h : b'.calls = b.calls) : Continues b b' := by
  intro i c hc
  exact ⟨c, h ▸ hc, Follows.refl c⟩

theorem Continues.of_modify {change : Call → Call} (h : b'.calls = b.calls.modify i change)
    (hchange : ∀ c, b.calls[i]? = some c → Follows c (change c)) : Continues b b' := by
  intro j c hc
  rw [h]
  by_cases hij : i = j
  · subst hij
    refine ⟨change c, ?_, hchange c hc⟩
    rw [getElem?_modify_self, hc]
    rfl
  · exact ⟨c, (getElem?_modify_of_ne hij).trans hc, Follows.refl c⟩

theorem Follows.of_inFlight {c' : Call} (htab : c'.tab = c.tab) (haction : c'.action = c.action)
    (htimeout : c'.timeout = c.timeout) (hstarted : c'.started = c.started)
    (hflight : c.inFlight = true) : Follows c c' := by
  refine ⟨htab, haction, htimeout, hstarted, fun hno => ?_⟩
  exact absurd (hno.symm.trans hflight) false_ne_true

theorem noteClosed_follows : Follows c (noteClosed tabId c) := by
  rw [noteClosed]
  split
  · exact ⟨rfl, rfl, rfl, rfl, fun _ => rfl⟩
  · exact Follows.refl c

theorem closedRow_follows (pending : List RequestId) : Follows c (closedRow tabId pending i c) := by
  have hclose : Follows c (if i ∈ pending then closeCall tabId c else c) := by
    split
    · rw [closeCall]
      split
      · exact ⟨rfl, rfl, rfl, rfl, fun _ => rfl⟩
      · exact Follows.refl c
    · exact Follows.refl c
  exact hclose.trans noteClosed_follows

theorem continues_disconnect : Continues b (b.disconnect tabId) := by
  rw [Broker.disconnect]
  split
  · exact Continues.of_eq rfl
  · rename_i tab _
    split
    · intro i c hc
      refine ⟨closedRow tabId tab.pending i c, ?_, closedRow_follows tab.pending⟩
      show (b.calls.mapIdx (closedRow tabId tab.pending))[i]? = _
      rw [List.getElem?_mapIdx, hc]
      rfl
    · exact Continues.of_eq rfl

theorem continues_resolve (ok : Bool) (result : Payload) (error : String) :
    Continues b (b.resolve tabId i ok result error) := by
  rw [Broker.resolve]
  split
  · exact Continues.of_eq rfl
  · split
    · exact Continues.of_eq rfl
    · split
      · exact Continues.of_modify rfl fun c _ => ⟨rfl, rfl, rfl, rfl, fun _ => rfl⟩
      · exact Continues.of_modify rfl fun c _ => ⟨rfl, rfl, rfl, rfl, fun _ => rfl⟩

theorem continues_invoke (action : UiAction) (timeout : Time) :
    Continues b (b.invoke action timeout) := by
  rw [Broker.invoke]
  split
  · exact Continues.of_eq rfl
  · split
    · exact Continues.of_eq rfl
    · intro i c hc
      exact ⟨c, getElem?_append_of_some hc, Follows.refl c⟩

theorem continues_finish {phase : Phase} (hflight : ∀ c, b.calls[i]? = some c → c.inFlight = true) :
    Continues b (b.finish i phase) := by
  rw [Broker.finish]
  cases hc : b.calls[i]? with
  | none => exact Continues.of_eq rfl
  | some c =>
    refine Continues.of_modify rfl fun d hd => ?_
    exact Follows.of_inFlight rfl rfl rfl rfl (hflight d hd)

theorem inFlight_of_phase (hc : b.calls[i]? = some c) (hflight : c.inFlight = true) :
    ∀ d, b.calls[i]? = some d → d.inFlight = true := by
  intro d hd
  obtain rfl : c = d := some.inj (hc.symm.trans hd)
  exact hflight

theorem continues_step {event : Event} (hstep : Steps late b event b') : Continues b b' := by
  cases event with
  | connect | register tabId available | focus tabId visible =>
    obtain rfl := some.inj hstep
    exact Continues.of_eq rfl
  | disconnect tabId =>
    obtain rfl := some.inj hstep
    exact continues_disconnect
  | resolve tabId requestId ok result error =>
    obtain rfl := some.inj hstep
    exact continues_resolve ok result error
  | invoke action timeout =>
    obtain rfl := some.inj hstep
    exact continues_invoke action timeout
  | sendDone requestId =>
    obtain ⟨c, hc, hphase, rfl⟩ := sendDone_spec hstep
    refine Continues.of_modify rfl fun d hd => Follows.of_inFlight rfl rfl rfl rfl ?_
    exact inFlight_of_phase hc (by rw [Call.inFlight, hphase]) d hd
  | sendRaises requestId timeoutError =>
    obtain ⟨c, phase, hc, hphase, rfl⟩ := sendRaises_spec hstep
    exact continues_finish (inFlight_of_phase hc (by rw [Call.inFlight, hphase]))
  | timer requestId =>
    obtain ⟨c, deadline, future, hc, hphase, -, rfl⟩ := timer_spec hstep
    refine Continues.of_modify rfl fun d hd => Follows.of_inFlight rfl rfl rfl rfl ?_
    exact inFlight_of_phase hc (by rw [Call.inFlight, hphase]) d hd
  | wake requestId =>
    obtain ⟨c, outcome, hc, hwoken, rfl⟩ := wake_spec hstep
    exact continues_finish (inFlight_of_phase hc (inFlight_of_woken hwoken))
  | tick span =>
    have hafter : b.tick span = some b' := hstep
    rw [Broker.tick] at hafter
    split at hafter
    · obtain rfl := some.inj hafter
      exact Continues.of_eq rfl
    · cases hafter

theorem continues_run {tr : List Event} (hrun : Run (Steps late) b tr b') : Continues b b' := by
  induction hrun with
  | nil s => exact Continues.of_eq rfl
  | cons hs _ ih =>
    intro i c hc
    obtain ⟨d, hd, hfollows⟩ := continues_step hs i c hc
    obtain ⟨e, he, hfollows'⟩ := ih i d hd
    exact ⟨e, he, hfollows.trans hfollows'⟩

/-! ## One answer for each call -/

def Event.isInvoke : Event → Bool
  | .invoke _ _ => true
  | _ => false

def Broker.asked (b : Broker) : Nat := b.calls.length + b.atOnce.length

theorem asked_congr (hcalls : b'.calls.length = b.calls.length) (honce : b'.atOnce = b.atOnce) :
    b'.asked = b.asked := by
  rw [Broker.asked, Broker.asked, hcalls, honce]

theorem asked_disconnect : (b.disconnect tabId).asked = b.asked := by
  rw [Broker.disconnect]
  split
  · rfl
  · split
    · exact asked_congr length_mapIdx rfl
    · rfl

theorem asked_resolve (ok : Bool) (result : Payload) (error : String) :
    (b.resolve tabId i ok result error).asked = b.asked := by
  rw [Broker.resolve]
  split
  · rfl
  · split
    · rfl
    · split
      · exact asked_congr (length_modify _ _ _) rfl
      · exact asked_congr (length_modify _ _ _) rfl

theorem asked_finish (phase : Phase) : (b.finish i phase).asked = b.asked := by
  rw [Broker.finish]
  split
  · rfl
  · exact asked_congr (length_modify _ _ _) rfl

theorem asked_invoke (action : UiAction) (timeout : Time) :
    (b.invoke action timeout).asked = b.asked + 1 := by
  rw [Broker.invoke]
  split
  · rw [Broker.asked, Broker.asked, length_append, length_singleton, add_assoc]
  · split
    · rw [Broker.asked, Broker.asked, length_append, length_singleton, add_assoc]
    · show (b.calls ++ [_]).length + b.atOnce.length = b.calls.length + b.atOnce.length + 1
      rw [length_append, length_singleton]
      omega

theorem asked_step {event : Event} (hstep : Steps late b event b') :
    b'.asked = b.asked + if event.isInvoke then 1 else 0 := by
  cases event with
  | connect | register tabId available | focus tabId visible =>
    obtain rfl := some.inj hstep
    rfl
  | disconnect tabId =>
    obtain rfl := some.inj hstep
    exact asked_disconnect
  | resolve tabId requestId ok result error =>
    obtain rfl := some.inj hstep
    exact asked_resolve ok result error
  | invoke action timeout =>
    obtain rfl := some.inj hstep
    exact asked_invoke action timeout
  | sendDone requestId =>
    obtain ⟨c, -, -, rfl⟩ := sendDone_spec hstep
    exact asked_congr (length_modify _ _ _) rfl
  | sendRaises requestId timeoutError =>
    obtain ⟨c, phase, -, -, rfl⟩ := sendRaises_spec hstep
    exact asked_finish phase
  | timer requestId =>
    obtain ⟨c, deadline, future, -, -, -, rfl⟩ := timer_spec hstep
    exact asked_congr (length_modify _ _ _) rfl
  | wake requestId =>
    obtain ⟨c, outcome, -, -, rfl⟩ := wake_spec hstep
    exact asked_finish _
  | tick span =>
    have hafter : b.tick span = some b' := hstep
    rw [Broker.tick] at hafter
    split at hafter
    · obtain rfl := some.inj hafter
      rfl
    · cases hafter

theorem asked_run {tr : List Event} (hrun : Run (Steps late) b tr b') :
    b'.asked = b.asked + tr.countP Event.isInvoke := by
  induction hrun with
  | nil s => rfl
  | cons hs _ ih =>
    rw [ih, asked_step hs, countP_cons]
    omega

/-! ## The loop ends every call -/

/-- An event of the loop itself, no tab and no agent in it. -/
def Event.ofLoop : Event → Bool
  | .sendDone _ | .timer _ | .wake _ | .tick _ => true
  | _ => false

/-- How far the `invoke` of a request is from its end. -/
def weight (c : Call) : Nat :=
  match c.phase with
  | .sending => 3
  | .waiting _ false => 2
  | .waiting _ true => 1
  | .returned _ | .raised => 0

def load (b : Broker) : Nat := (b.calls.map weight).sum

/-- Some events of the loop itself lead on to a broker with less to do. -/
def Advances (late : Bool) (b : Broker) : Prop :=
  ∃ tr b', (∀ e ∈ tr, Event.ofLoop e = true) ∧ Run (Guarded (Steps late) Prompt) b tr b' ∧
    load b' < load b

theorem advances_of_step (event : Event) (hloop : event.ofLoop = true) (hprompt : Prompt b event)
    (hstep : Steps late b event b') (hload : load b' < load b) : Advances late b := by
  refine ⟨[event], b', fun e he => ?_, Run.singleton_iff.mpr ⟨hprompt, hstep⟩, hload⟩
  exact mem_singleton.mp he ▸ hloop

theorem advances_of_sending (hc : b.calls[i]? = some c) (hphase : c.phase = .sending) :
    Advances late b := by
  have hstep : b.sendDone i = some { b with calls := b.calls.modify i fun c =>
      { c with phase := .waiting (b.now + c.timeout) false } } := by
    rw [Broker.sendDone, hc]
    simp only [hphase]
  refine advances_of_step (.sendDone i) rfl trivial hstep (sum_map_modify_lt hc ?_)
  rw [weight, weight, hphase]
  exact lt_succ_self 2

theorem advances_of_woken (hc : b.calls[i]? = some c) {outcome : UiActionOutcome}
    (hwoken : woken c = some outcome) : Advances late b := by
  have hstep : b.wake i = some (b.finish i (.returned outcome)) := by
    rw [Broker.wake, hc, bind_some, hwoken]
    rfl
  have hfinish : (b.finish i (.returned outcome)).calls = b.calls.modify i fun c =>
      { c with entry := false, phase := .returned outcome, ended := b.now } := by
    rw [Broker.finish, hc]
  refine advances_of_step (.wake i) rfl trivial hstep ?_
  rw [load, load, hfinish]
  refine sum_map_modify_lt hc ?_
  show 0 < weight c
  have hflight := inFlight_of_woken hwoken
  rw [Call.inFlight] at hflight
  rw [weight]
  cases hphase : c.phase with
  | sending => exact succ_pos 2
  | waiting deadline expired =>
    cases expired with
    | true => exact succ_pos 0
    | false => exact succ_pos 1
  | returned o | raised => simp [hphase] at hflight

theorem CallOk.future_unset (h : CallOk b i c) {deadline : Time}
    (hphase : c.phase = .waiting deadline false) (hwoken : woken c = none) :
    c.future = .unset := by
  obtain ⟨-, -, -, -, hcancelled⟩ := h.waiting hphase
  cases hfuture : c.future with
  | unset => rfl
  | done outcome =>
    rw [woken] at hwoken
    simp [hphase, hfuture] at hwoken
  | cancelled => exact absurd hfuture (hcancelled rfl)

theorem Sound.advances_of_idle (h : Sound b) (hsent : ∀ c ∈ b.calls, c.phase ≠ .sending)
    (hidle : ∀ c ∈ b.calls, woken c = none) (hmem : c ∈ b.calls) (hflight : c.inFlight = true) :
    Advances late b := by
  have hwait : ∀ c ∈ b.calls, ∀ deadline expired, c.phase = .waiting deadline expired →
      expired = false := by
    intro c hc deadline expired hphase
    cases expired with
    | false => rfl
    | true =>
      have hwoken := hidle c hc
      rw [woken] at hwoken
      simp [hphase] at hwoken
  have hsome : ∃ deadline, ∃ c ∈ b.calls, c.phase = .waiting deadline false := by
    rw [Call.inFlight] at hflight
    cases hphase : c.phase with
    | sending => exact absurd hphase (hsent c hmem)
    | waiting deadline expired =>
      exact ⟨deadline, c, hmem, hphase.trans (by rw [hwait c hmem deadline expired hphase])⟩
    | returned outcome | raised => simp [hphase] at hflight
  classical
  obtain ⟨first, hfirst, hphase⟩ := Nat.find_spec hsome
  have hnext : ∀ c ∈ b.calls, ∀ deadline, c.phase = .waiting deadline false →
      Nat.find hsome ≤ deadline := by
    intro c hc deadline hp
    exact Nat.find_min' hsome ⟨c, hc, hp⟩
  generalize Nat.find hsome = next at hphase hnext
  obtain ⟨k, hk⟩ := List.getElem?_of_mem hfirst
  have hcall := h.calls k first hk
  obtain ⟨-, -, hnow, -⟩ := hcall.waiting hphase
  have hunset := hcall.future_unset hphase (hidle first hfirst)
  have hreach : b.now + (next - b.now) = next := Nat.add_sub_cancel' hnow
  have htick : b.tick (next - b.now) = some { b with now := next } := by
    have hlets : b.calls.all (b.lets (next - b.now)) = true := by
      refine all_eq_true.mpr fun c hc => and_eq_true_iff.mpr ⟨?_, ?_⟩
      · rw [hidle c hc]
        rfl
      · cases hp : c.phase with
        | waiting deadline expired =>
          obtain rfl := hwait c hc deadline expired hp
          rw [hreach]
          exact decide_eq_true (hnext c hc deadline hp)
        | sending | returned outcome | raised => rfl
    rw [Broker.tick, if_pos hlets, hreach]
  have htimer : ({ b with now := next } : Broker).timer late k = some { b with
      now := next
      calls := b.calls.modify k fun c =>
        { c with future := .cancelled, phase := .waiting next true, timedOut := true } } := by
    rw [Broker.timer]
    simp only [hk, hphase, hunset, lt_irrefl, if_false, if_true]
  refine ⟨[.tick (next - b.now), .timer k], _, ?_,
    .cons ⟨hsent, htick⟩ (Run.singleton_iff.mpr ⟨?_, htimer⟩), sum_map_modify_lt hk ?_⟩
  · intro e he
    rcases mem_pair.mp he with rfl | rfl
    · rfl
    · rfl
  · intro c hc
    obtain rfl : first = c := some.inj (hk.symm.trans hc)
    rw [hunset]
    intro h
    cases h
  · rw [weight, weight, hphase]
    exact lt_succ_self 1

theorem Sound.advances (h : Sound b) (late : Bool) (hmem : c ∈ b.calls)
    (hflight : c.inFlight = true) :
    Advances late b := by
  by_cases hsent : ∀ c ∈ b.calls, c.phase ≠ .sending
  · by_cases hidle : ∀ c ∈ b.calls, woken c = none
    · exact h.advances_of_idle hsent hidle hmem hflight
    · push Not at hidle
      obtain ⟨d, hd, hwoken⟩ := hidle
      obtain ⟨k, hk⟩ := List.getElem?_of_mem hd
      obtain ⟨outcome, houtcome⟩ := ne_none_iff_exists'.mp hwoken
      exact advances_of_woken hk houtcome
  · push Not at hsent
    obtain ⟨d, hd, hphase⟩ := hsent
    obtain ⟨k, hk⟩ := List.getElem?_of_mem hd
    exact advances_of_sending hk hphase

theorem Sound.settles (h : Sound b) (late : Bool) : ∃ tr b', (∀ e ∈ tr, Event.ofLoop e = true) ∧
    Run (Guarded (Steps late) Prompt) b tr b' ∧ ∀ c ∈ b'.calls, c.inFlight = false := by
  induction hload : load b using Nat.strong_induction_on generalizing b with
  | _ n ih =>
    by_cases hquiet : ∀ c ∈ b.calls, c.inFlight = false
    · exact ⟨[], b, nofun, .nil b, hquiet⟩
    · push Not at hquiet
      obtain ⟨c, hc, hflight⟩ := hquiet
      obtain ⟨tr, m, hown, hrun, hless⟩ := h.advances late hc (not_eq_false _ ▸ hflight)
      obtain ⟨tr', b', hown', hrun', hdone⟩ := ih (load m) (hload ▸ hless) (h.run hrun) rfl
      refine ⟨tr ++ tr', b', fun e he => ?_, Run.append_iff.mpr ⟨m, hrun, hrun'⟩, hdone⟩
      rcases mem_append.mp he with he | he
      · exact hown e he
      · exact hown' e he

theorem CallOk.returned (h : CallOk b i c) (hdone : c.inFlight = false) :
    ∃ outcome, c.phase = .returned outcome := by
  have hp := h.phase
  rw [PhaseOk] at hp
  rw [Call.inFlight] at hdone
  cases hphase : c.phase with
  | sending | waiting deadline expired => simp [hphase] at hdone
  | returned outcome => exact ⟨outcome, rfl⟩
  | raised =>
    rw [hphase] at hp
    exact hp.elim

/-- The broker has kept its word on every call that came in. -/
structure Truthful (late : Bool) (tr : List Event) (b : Broker) : Prop where
  /-- Each `invoke` is one request, or was answered at once. -/
  once : tr.countP Event.isInvoke = b.calls.length + b.atOnce.length
  atOnce : ∀ outcome ∈ b.atOnce, outcome.ok = false ∧
    (outcome.failure = some .noTab ∨ outcome.failure = some .notAvailable)
  unraised : ∀ c ∈ b.calls, c.phase ≠ .raised
  /-- A call that is still out has time left. -/
  punctual : ∀ c ∈ b.calls, c.inFlight = true → b.now ≤ c.started + c.timeout
  answer : ∀ (i : RequestId) (c : Call) (outcome : UiActionOutcome), b.calls[i]? = some c →
    c.phase = .returned outcome → c.ended ≤ c.started + c.timeout ∧
      (outcome.ok = true → c.answeredOk = true) ∧
      (c.closedFirst = true → outcome.failure = some .tabClosed)
  /-- What has returned is pending nowhere. -/
  cleared : ∀ (i : RequestId) (c : Call) (outcome : UiActionOutcome), b.calls[i]? = some c →
    c.phase = .returned outcome → c.entry = false ∧
      ∀ (t : TabId) (tab : Tab), b.tabs[t]? = some tab → i ∉ tab.pending
  /-- The answer is the only one, whatever happens from here. -/
  final : ∀ (i : RequestId) (c : Call) (outcome : UiActionOutcome), b.calls[i]? = some c →
    c.phase = .returned outcome → ∀ tr' b', Run (Steps late) b tr' b' →
      ∃ c', b'.calls[i]? = some c' ∧ c'.phase = .returned outcome
  /-- The loop gets to the answer of every call on its own. -/
  comes : ∀ (i : RequestId) (c : Call), b.calls[i]? = some c → ∃ tr' b' c' outcome,
    (∀ e ∈ tr', Event.ofLoop e = true) ∧ Run (Guarded (Steps late) Prompt) b tr' b' ∧
      b'.calls[i]? = some c' ∧ c'.phase = .returned outcome

theorem inFlight_of_returned {outcome : UiActionOutcome} (h : c.phase = .returned outcome) :
    c.inFlight = false := by
  rw [Call.inFlight, h]

theorem Sound.cleared (h : Sound b) (hc : b.calls[i]? = some c) (hdone : c.inFlight = false) :
    c.entry = false ∧ ∀ (t : TabId) (tab : Tab), b.tabs[t]? = some tab → i ∉ tab.pending := by
  refine ⟨eq_false_iff.mpr fun hentry => ?_, fun t tab ht hmem => ?_⟩
  · obtain ⟨hflight, -⟩ := (h.calls i c hc).entry hentry
    exact false_ne_true (hdone.symm.trans hflight)
  · obtain ⟨d, hd, -, hflight⟩ := h.pending t tab ht i hmem
    obtain rfl : d = c := some.inj (hd.symm.trans hc)
    exact false_ne_true (hdone.symm.trans hflight)

theorem Sound.punctual (h : Sound b) (hmem : c ∈ b.calls) (hflight : c.inFlight = true) :
    b.now ≤ c.started + c.timeout := by
  obtain ⟨i, hc⟩ := List.getElem?_of_mem hmem
  have hcall := h.calls i c hc
  cases hphase : c.phase with
  | sending =>
    have hp := hcall.phase
    rw [PhaseOk, hphase] at hp
    rw [← hp.1]
    exact le_add_right _ _
  | waiting deadline expired =>
    obtain ⟨-, hdeadline, hnow, -⟩ := hcall.waiting hphase
    exact hdeadline ▸ hnow
  | returned outcome =>
    exact absurd ((inFlight_of_returned hphase).symm.trans hflight) false_ne_true
  | raised =>
    have hp := hcall.phase
    rw [PhaseOk, hphase] at hp
    exact hp.elim

/-- **Every call gets one truthful answer in time, in every run in which no send raises, each
    send ends before the clock moves, and no timer fires on a request between its tab's closing
    and its task's waking.** -/
theorem answers_truthful {tr : List Event} (hrun : Run (Guarded (Steps late) Prompt) {} tr b) :
    Truthful late tr b := by
  have h : Sound b := sound_init.run hrun
  refine ⟨?_, h.atOnce, fun c hmem hraised => ?_, fun c hmem => h.punctual hmem, ?_, ?_, ?_, ?_⟩
  · have hasked := asked_run hrun.of_guarded
    have hzero : Broker.asked {} = 0 := rfl
    rw [hzero, zero_add] at hasked
    exact hasked.symm
  · obtain ⟨i, hc⟩ := List.getElem?_of_mem hmem
    have hp := (h.calls i c hc).phase
    rw [PhaseOk, hraised] at hp
    exact hp
  · intro i c outcome hc hphase
    have hcall := h.calls i c hc
    have hp := hcall.phase
    rw [PhaseOk, hphase] at hp
    exact ⟨hp.1, hp.2, fun hfirst => (hcall.closed hfirst).2 outcome hphase⟩
  · intro i c outcome hc hphase
    exact h.cleared hc (inFlight_of_returned hphase)
  · intro i c outcome hc hphase tr' b' hrun'
    obtain ⟨c', hc', hfollows⟩ := continues_run hrun' i c hc
    exact ⟨c', hc', (hfollows.answer (inFlight_of_returned hphase)).trans hphase⟩
  · intro i c hc
    obtain ⟨tr', b', hown, hrun', hquiet⟩ := h.settles late
    obtain ⟨c', hc', -⟩ := continues_run hrun'.of_guarded i c hc
    obtain ⟨outcome, houtcome⟩ := ((h.run hrun').calls i c' hc').returned
      (hquiet c' (mem_of_getElem? hc'))
    exact ⟨tr', b', c', outcome, hown, hrun', hc', houtcome⟩

theorem save_answered : ∃ b : Broker, b.calls.map Call.phase =
      [.returned { ok := true, action := "save", tabId := some 0, result := some "saved" }] ∧
    Truthful true [.connect, .register 0 ["save"], .invoke "save" 20, .sendDone 0,
      .resolve 0 0 true "saved" "", .wake 0] b := by
  refine ⟨_, ?_, answers_truthful (.cons ⟨trivial, rfl⟩ (.cons ⟨trivial, rfl⟩
    (.cons ⟨trivial, rfl⟩ (.cons ⟨trivial, rfl⟩ (.cons ⟨trivial, rfl⟩ (.cons ⟨trivial, rfl⟩
      (.nil _)))))))⟩
  rfl

/-- A send that raises takes the call with it, also when the tab closed first; and a send that
    hangs keeps the call past its timeout. -/
theorem send_breaks_answer :
    (∃ b : Broker, Run (Steps true) {} [.connect, .register 0 ["save"], .invoke "save" 20,
        .disconnect 0, .sendRaises 0 false] b ∧
      b.calls.map (fun c => (c.closedFirst, c.phase)) = [(true, .raised)]) ∧
    ∃ b : Broker, Run (Steps true) {} [.connect, .register 0 ["save"], .invoke "save" 20,
        .tick 21] b ∧
      b.calls.map (fun c => (c.phase, decide (c.started + c.timeout < b.now)))
        = [(.sending, true)] := by
  constructor
  · refine ⟨_, .cons rfl (.cons rfl (.cons rfl (.cons rfl (.cons rfl (.nil _))))), ?_⟩
    rfl
  · refine ⟨_, .cons rfl (.cons rfl (.cons rfl (.cons rfl (.nil _)))), ?_⟩
    rfl

end Loregarden.UiBroker
