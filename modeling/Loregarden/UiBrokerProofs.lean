import Loregarden.RunProofs
import Loregarden.TableProofs
import Loregarden.UiBrokerModel

/-! # One truthful answer to each action

`Sound` says of each request what its entry, its future and the place of its `invoke` have to do
with each other, and every event but three keeps it: a send that raises, time passing under a send,
and a timer that beats an answer already given. In every run without those each call returns once,
in time, with what its own tab said of it, and leaves nothing pending (`answers_truthful`). -/

namespace Loregarden.UiBroker

open Runs Tables Broker List Option Bool

variable {b b' : Broker} {i : RequestId} {c : Call} {tabId : TabId} {late : Bool}

/-- What holds of a request by where its `invoke` stands. -/
def PhaseOk (now : Time) (c : Call) : Prop :=
  match c.phase with
  | .sending => c.started = now ∧ c.future ≠ .cancelled
  | .waiting deadline expired =>
    deadline = c.started + c.timeout ∧ now ≤ deadline ∧
      (expired = true → c.timedOut = true ∧ c.closedFirst = false) ∧
      (expired = false → c.future ≠ .cancelled)
  | .returned outcome =>
    c.ended ≤ c.started + c.timeout ∧ (outcome.ok = true → c.answeredOk = true)
  | .raised => False

structure CallOk (b : Broker) (i : RequestId) (c : Call) : Prop where
  entry : c.entry = true → c.inFlight = true ∧ ∃ tab, b.tabs[c.tab]? = some tab ∧
    tab.connected = true ∧ i ∈ tab.pending
  untouched : c.inFlight = true → c.answered = false → c.timedOut = false →
    c.closedFirst = false → c.entry = true ∧ c.future = .unset
  done : ∀ outcome, c.future = .done outcome → outcome.ok = true → c.answeredOk = true
  closed : c.closedFirst = true → (c.inFlight = true → c.future = .done (tabClosed c.tab)) ∧
      ∀ outcome, c.phase = .returned outcome → outcome.failure = some .tabClosed
  phase : PhaseOk b.now c

structure Sound (b : Broker) : Prop where
  calls : ∀ (i : RequestId) (c : Call), b.calls[i]? = some c → CallOk b i c
  pending : ∀ (t : TabId) (tab : Tab), b.tabs[t]? = some tab → ∀ i ∈ tab.pending,
    ∃ c : Call, b.calls[i]? = some c ∧ c.tab = t ∧ c.inFlight = true
  atOnce : ∀ outcome ∈ b.atOnce, outcome.ok = false ∧
    (outcome.failure = some .noTab ∨ outcome.failure = some .notAvailable)

theorem CallOk.frame (h : CallOk b i c) (hnow : b'.now = b.now)
    (htab : c.entry = true → ∀ tab, b.tabs[c.tab]? = some tab → tab.connected = true →
      i ∈ tab.pending →
        ∃ tab', b'.tabs[c.tab]? = some tab' ∧ tab'.connected = true ∧ i ∈ tab'.pending) :
    CallOk b' i c := by
  refine ⟨fun hentry => ?_, h.untouched, h.done, h.closed, hnow ▸ h.phase⟩
  obtain ⟨hflight, tab, htabs, hconnected, hmem⟩ := h.entry hentry
  exact ⟨hflight, htab hentry tab htabs hconnected hmem⟩

/-! ## The tab's events -/

theorem Sound.connect (h : Sound b) : Sound b.connect := by
  refine ⟨fun i c hc => ?_, fun t tab ht i hi => ?_, h.atOnce⟩
  · refine (h.calls i c hc).frame rfl fun _ tab htab hconnected hmem => ?_
    exact ⟨tab, getElem?_append_of_some htab, hconnected, hmem⟩
  · rcases of_getElem?_append_singleton ht with ht | ⟨-, rfl⟩
    · exact h.pending t tab ht i hi
    · cases hi

theorem Sound.tabWrite (h : Sound b) {change : Tab → Tab}
    (hconnected : ∀ t, (change t).connected = t.connected)
    (hpending : ∀ t, (change t).pending = t.pending) :
    Sound { b with tabs := b.tabs.modify tabId (whereConnected change) } := by
  have hwhere : ∀ t, (whereConnected change t).connected = t.connected ∧
      (whereConnected change t).pending = t.pending := by
    intro t
    rw [whereConnected]
    split
    · exact ⟨hconnected t, hpending t⟩
    · exact ⟨rfl, rfl⟩
  refine ⟨fun i c hc => ?_, fun t tab ht i hi => ?_, h.atOnce⟩
  · refine (h.calls i c hc).frame rfl fun _ tab htab hopen hmem => ?_
    by_cases hid : tabId = c.tab
    · refine ⟨whereConnected change tab, ?_, (hwhere tab).1 ▸ hopen, (hwhere tab).2 ▸ hmem⟩
      show (b.tabs.modify tabId _)[c.tab]? = _
      rw [hid, getElem?_modify_self, htab]
      rfl
    · exact ⟨tab, (getElem?_modify_of_ne hid).trans htab, hopen, hmem⟩
  · obtain ⟨old, hold, ⟨-, rfl⟩ | ⟨-, rfl⟩⟩ := exists_of_getElem?_modify ht
    · exact h.pending t old hold i ((hwhere old).2 ▸ hi)
    · exact h.pending t tab hold i hi

theorem Sound.register (h : Sound b) (available : List UiAction) :
    Sound (b.register tabId available) := by
  refine h.tabWrite ?_ ?_
  · intro t
    rfl
  · intro t
    rfl

theorem Sound.focus (h : Sound b) (visible : Bool) : Sound (b.focus tabId visible) := by
  refine h.tabWrite ?_ ?_
  · intro t
    rfl
  · intro t
    rfl

theorem settle_done {outcome given : UiActionOutcome} {future : Future}
    (h : settle given future = .done outcome) : outcome = given ∨ future = .done outcome := by
  cases future with
  | unset => exact .inl (Future.done.inj h).symm
  | done o => exact .inr h
  | cancelled => cases h

theorem settle_cancelled {given : UiActionOutcome} {future : Future} :
    settle given future = .cancelled → future = .cancelled := by
  intro h
  cases future with
  | unset | done o => cases h
  | cancelled => rfl

/-- A future that is set keeps where the `invoke` stands. -/
theorem PhaseOk.settled {now : Time} (h : PhaseOk now c) {c' : Call} (hphase : c'.phase = c.phase)
    (hstarted : c'.started = c.started) (htimeout : c'.timeout = c.timeout)
    (hended : c'.ended = c.ended) (htimed : c'.timedOut = c.timedOut)
    (hclosed : c.timedOut = true → c'.closedFirst = c.closedFirst)
    (hcancelled : c'.future = .cancelled → c.future = .cancelled)
    (hok : c.answeredOk = true → c'.answeredOk = true) : PhaseOk now c' := by
  rw [PhaseOk] at h ⊢
  rw [hphase]
  cases hp : c.phase with
  | sending =>
    rw [hp] at h
    exact ⟨hstarted.trans h.1, fun hc => h.2 (hcancelled hc)⟩
  | waiting deadline expired =>
    rw [hp] at h
    rw [hstarted, htimeout]
    refine ⟨h.1, h.2.1, fun he => ?_, fun he hc => h.2.2.2 he (hcancelled hc)⟩
    obtain ⟨ht, hfirst⟩ := h.2.2.1 he
    exact ⟨htimed.trans ht, (hclosed ht).trans hfirst⟩
  | returned outcome =>
    rw [hp] at h
    rw [hstarted, htimeout, hended]
    exact ⟨h.1, fun ho => hok (h.2 ho)⟩
  | raised =>
    rw [hp] at h
    exact h

/-- The tabs of one broker are those of another, less at most one request of theirs. -/
structure TabsBut (i : RequestId) (b b' : Broker) : Prop where
  keeps : ∀ (t : TabId) (tab : Tab), b.tabs[t]? = some tab → ∃ tab' : Tab,
    b'.tabs[t]? = some tab' ∧ tab'.connected = tab.connected ∧
      ∀ j ∈ tab.pending, j ≠ i → j ∈ tab'.pending
  comes : ∀ (t : TabId) (tab' : Tab), b'.tabs[t]? = some tab' → ∃ tab : Tab,
    b.tabs[t]? = some tab ∧ ∀ j ∈ tab'.pending, j ∈ tab.pending

theorem TabsBut.of_eq (h : b'.tabs = b.tabs) : TabsBut i b b' := by
  refine ⟨fun t tab ht => ?_, fun t tab ht => ?_⟩
  · exact ⟨tab, h ▸ ht, rfl, fun j hj _ => hj⟩
  · exact ⟨tab, h ▸ ht, fun j hj => hj⟩

theorem TabsBut.of_modify {t : TabId} {change : Tab → Tab} (h : b'.tabs = b.tabs.modify t change)
    (hconnected : ∀ tab, (change tab).connected = tab.connected)
    (hkeeps : ∀ tab, ∀ j ∈ tab.pending, j ≠ i → j ∈ (change tab).pending)
    (hcomes : ∀ tab, ∀ j ∈ (change tab).pending, j ∈ tab.pending) : TabsBut i b b' := by
  refine ⟨fun s tab hs => ?_, fun s tab hs => ?_⟩
  · rw [h]
    by_cases hid : t = s
    · subst hid
      refine ⟨change tab, ?_, hconnected tab, hkeeps tab⟩
      rw [getElem?_modify_self, hs]
      rfl
    · exact ⟨tab, (getElem?_modify_of_ne hid).trans hs, rfl, fun j hj _ => hj⟩
  · rw [h] at hs
    obtain ⟨old, hold, ⟨-, rfl⟩ | ⟨-, rfl⟩⟩ := exists_of_getElem?_modify hs
    · exact ⟨old, hold, hcomes old⟩
    · exact ⟨tab, hold, fun j hj => hj⟩

theorem Sound.callWrite (h : Sound b) {change : Call → Call} (hc : b.calls[i]? = some c)
    (hcalls : b'.calls = b.calls.modify i change) (hnow : b'.now = b.now)
    (honce : b'.atOnce = b.atOnce) (htabs : TabsBut i b b') (htab : (change c).tab = c.tab)
    (hflight : (c.inFlight = true → (change c).inFlight = true) ∨
      ∀ (t : TabId) (tab : Tab), b'.tabs[t]? = some tab → i ∉ tab.pending)
    (hok : CallOk b' i (change c)) : Sound b' := by
  refine ⟨fun j d hd => ?_, fun t tab ht j hj => ?_, honce ▸ h.atOnce⟩
  · rw [hcalls] at hd
    obtain ⟨old, hold, ⟨rfl, rfl⟩ | ⟨hne, rfl⟩⟩ := exists_of_getElem?_modify hd
    · obtain rfl : old = c := some.inj (hold.symm.trans hc)
      exact hok
    · refine (h.calls j d hold).frame hnow fun _ tab htab hopen hmem => ?_
      obtain ⟨tab', htab', hsame, hkeeps⟩ := htabs.keeps _ tab htab
      exact ⟨tab', htab', hsame.trans hopen, hkeeps j hmem hne⟩
  · obtain ⟨old, hold, hcomes⟩ := htabs.comes t tab ht
    obtain ⟨d, hd, hdt, hflightd⟩ := h.pending t old hold j (hcomes j hj)
    rw [hcalls]
    by_cases hji : j = i
    · subst hji
      obtain rfl : d = c := some.inj (hd.symm.trans hc)
      rcases hflight with hflight | hgone
      · refine ⟨change d, ?_, htab.trans hdt, hflight hflightd⟩
        rw [getElem?_modify_self, hd]
        rfl
      · exact absurd hj (hgone t tab ht)
    · exact ⟨d, (getElem?_modify_of_ne (Ne.symm hji)).trans hd, hdt, hflightd⟩

/-! ## A reply and a close -/

theorem replied_ok {ok : Bool} {result : Payload} {error : String}
    (h : (replied tabId ok result error).ok = true) : ok = true := by
  cases ok with
  | true => rfl
  | false => exact h

theorem CallOk.noteReply (h : CallOk b i c) (hentry : c.entry = false) (ok : Bool)
    (hnow : b'.now = b.now) : CallOk b' i (noteReply ok c) := by
  have hmono : c.answeredOk = true → (Broker.noteReply ok c).answeredOk = true := by
    intro hc
    show (c.answeredOk || ok) = true
    rw [hc]
    rfl
  refine ⟨fun he => ?_, fun _ ha => ?_, fun outcome hf ho => ?_, h.closed, ?_⟩
  · exact absurd (hentry.symm.trans he) false_ne_true
  · cases ha
  · exact hmono (h.done outcome hf ho)
  · exact hnow ▸ h.phase.settled rfl rfl rfl rfl rfl (fun _ => rfl) id hmono

theorem CallOk.answer (h : CallOk b i c) (ok : Bool) (result : Payload) (error : String)
    (hnow : b'.now = b.now) :
    CallOk b' i { Broker.noteReply ok c with
      entry := false, future := settle (replied tabId ok result error) c.future } := by
  have hmono : c.answeredOk = true → (c.answeredOk || ok) = true := by
    intro hc
    rw [hc]
    rfl
  refine ⟨nofun, fun _ ha => ?_, fun outcome hf ho => ?_, fun hclosed => ⟨fun hflight => ?_, ?_⟩, ?_⟩
  · cases ha
  · rcases settle_done hf with rfl | hold
    · show (c.answeredOk || ok) = true
      rw [replied_ok ho, Bool.or_true]
    · exact hmono (h.done outcome hold ho)
  · show settle _ c.future = _
    rw [(h.closed hclosed).1 hflight]
    rfl
  · exact (h.closed hclosed).2
  · exact hnow ▸ h.phase.settled rfl rfl rfl rfl rfl (fun _ => rfl) settle_cancelled hmono

theorem Sound.resolve (h : Sound b) (ok : Bool) (result : Payload) (error : String) :
    Sound (b.resolve tabId i ok result error) := by
  rw [Broker.resolve]
  cases hc : b.calls[i]? with
  | none => exact h
  | some c =>
    have hcall := h.calls i c hc
    show Sound (if c.tab ≠ tabId then _ else if (!c.entry) = true then _ else _)
    split
    · exact h
    · by_cases hentry : c.entry = true
      · rw [if_neg (by rw [hentry]; exact false_ne_true)]
        refine h.callWrite hc rfl rfl rfl (TabsBut.of_modify rfl ?_ ?_ ?_) rfl
          (.inl fun hflight => hflight) (hcall.answer ok result error rfl)
        · intro tab
          rw [whereConnected]
          split <;> rfl
        · intro tab j hj hne
          rw [whereConnected]
          split
          · exact mem_filter.mpr ⟨hj, decide_eq_true hne⟩
          · exact hj
        · intro tab j hj
          rw [whereConnected] at hj
          split at hj
          · exact (mem_filter.mp hj).1
          · exact hj
      · have hgone : c.entry = false := eq_false_iff.mpr hentry
        rw [if_pos (by rw [hgone]; rfl)]
        exact h.callWrite hc rfl rfl rfl (TabsBut.of_eq rfl) rfl (.inl fun hflight => hflight)
          (hcall.noteReply hgone ok rfl)

theorem closeCall_frame (tabId : TabId) (c : Call) : (closeCall tabId c).tab = c.tab ∧
    (closeCall tabId c).phase = c.phase := by
  rw [closeCall]
  split
  · exact ⟨rfl, rfl⟩
  · exact ⟨rfl, rfl⟩

theorem noteClosed_frame (tabId : TabId) (c : Call) : (noteClosed tabId c).tab = c.tab ∧
    (noteClosed tabId c).phase = c.phase := by
  rw [noteClosed]
  split
  · exact ⟨rfl, rfl⟩
  · exact ⟨rfl, rfl⟩

def closedRow (tabId : TabId) (pending : List RequestId) (i : RequestId) (c : Call) : Call :=
  noteClosed tabId (if i ∈ pending then closeCall tabId c else c)

theorem closedRow_frame (tabId : TabId) (pending : List RequestId) (i : RequestId) (c : Call) :
    (closedRow tabId pending i c).tab = c.tab ∧ (closedRow tabId pending i c).phase = c.phase := by
  rw [closedRow, (noteClosed_frame tabId _).1, (noteClosed_frame tabId _).2]
  split
  · exact closeCall_frame tabId c
  · exact ⟨rfl, rfl⟩

theorem inFlight_congr {d : Call} (h : d.phase = c.phase) : d.inFlight = c.inFlight := by
  rw [Call.inFlight, Call.inFlight, h]

theorem CallOk.closedRow_eq (h : CallOk b i c) {pending : List RequestId}
    (htab : i ∈ pending → c.tab = tabId) (haway : c.tab ≠ tabId ∨ c.entry = false) :
    closedRow tabId pending i c = c := by
  have hinner : (if i ∈ pending then closeCall tabId c else c) = c := by
    rcases haway with haway | haway
    · exact if_neg fun hi => haway (htab hi)
    · split
      · rw [closeCall, haway]
        rfl
      · rfl
  rw [closedRow, hinner, noteClosed]
  split
  · rename_i hcond
    obtain ⟨hid, hflight, hanswered, htimed⟩ := hcond
    rcases haway with haway | haway
    · exact absurd hid haway
    · -- it is in flight without its entry, so the tab has closed on it before
      have hclosed : c.closedFirst = true := by
        by_contra hno
        obtain ⟨hentry, -⟩ := h.untouched hflight (by simpa using hanswered)
          (by simpa using htimed) (eq_false_iff.mpr hno)
        exact false_ne_true (haway.symm.trans hentry)
      exact congrArg (fun x => { c with closedFirst := x }) hclosed.symm
  · rfl

theorem CallOk.closedRow (h : CallOk b i c) {pending : List RequestId} (hmem : i ∈ pending)
    (htab : c.tab = tabId) (hentry : c.entry = true) (hnow : b'.now = b.now) :
    CallOk b' i (closedRow tabId pending i c) := by
  obtain ⟨hflight, -⟩ := h.entry hentry
  have hdone : ∀ outcome, settle (tabClosed tabId) c.future = .done outcome → outcome.ok = true →
      c.answeredOk = true := by
    intro outcome hf ho
    rcases settle_done hf with rfl | hold
    · cases ho
    · exact h.done outcome hold ho
  have hclosed : c.closedFirst = true →
      settle (tabClosed tabId) c.future = .done (tabClosed c.tab) := by
    intro hc
    rw [(h.closed hc).1 hflight]
    rfl
  have hreturned : ∀ outcome, c.phase ≠ .returned outcome := by
    intro outcome hp
    rw [Call.inFlight, hp] at hflight
    cases hflight
  rw [UiBroker.closedRow, if_pos hmem, closeCall, if_pos hentry, noteClosed]
  split
  · rename_i hcond
    refine ⟨nofun, fun _ _ _ hno => ?_, hdone, fun _ => ⟨fun _ => ?_, fun o ho => ?_⟩, ?_⟩
    · cases hno
    · show settle (tabClosed tabId) c.future = .done (tabClosed c.tab)
      by_cases hc : c.closedFirst = true
      · exact hclosed hc
      · obtain ⟨-, hunset⟩ := h.untouched hflight (by simpa using hcond.2.2.1)
          (by simpa using hcond.2.2.2) (eq_false_iff.mpr hc)
        rw [hunset, htab]
        rfl
    · exact absurd ho (hreturned o)
    · refine hnow ▸ h.phase.settled rfl rfl rfl rfl rfl (fun htimed => ?_) settle_cancelled id
      have hno : (!c.timedOut) = true := hcond.2.2.2
      rw [htimed] at hno
      cases hno
  · rename_i hcond
    refine ⟨nofun, fun _ hanswered htimed _ => ?_, hdone,
      fun hc => ⟨fun _ => hclosed hc, fun o ho => absurd ho (hreturned o)⟩,
      hnow ▸ h.phase.settled rfl rfl rfl rfl rfl (fun _ => rfl) settle_cancelled id⟩
    refine absurd ⟨htab, hflight, ?_, ?_⟩ hcond
    · show (!c.answered) = true
      rw [show c.answered = false from hanswered]
      rfl
    · show (!c.timedOut) = true
      rw [show c.timedOut = false from htimed]
      rfl

theorem Sound.disconnect (h : Sound b) : Sound (b.disconnect tabId) := by
  rw [Broker.disconnect]
  cases htab : b.tabs[tabId]? with
  | none => exact h
  | some tab =>
    show Sound (if tab.connected = true then _ else _)
    split
    · have hrows : ∀ i, (b.calls.mapIdx (UiBroker.closedRow tabId tab.pending))[i]?
          = b.calls[i]?.map (UiBroker.closedRow tabId tab.pending i) :=
        fun i => List.getElem?_mapIdx
      refine ⟨fun i d hd => ?_, fun t s ht i hi => ?_, h.atOnce⟩
      · obtain ⟨c, hc, rfl⟩ := map_eq_some_iff.mp ((hrows i).symm.trans hd)
        have hcall := h.calls i c hc
        have hmem : i ∈ tab.pending → c.tab = tabId := by
          intro hi
          obtain ⟨d, hd', hdt, -⟩ := h.pending tabId tab htab i hi
          obtain rfl : d = c := some.inj (hd'.symm.trans hc)
          exact hdt
        by_cases hhere : c.tab = tabId ∧ c.entry = true
        · obtain ⟨-, s, hs, -, hi⟩ := hcall.entry hhere.2
          obtain rfl : s = tab := some.inj ((hhere.1 ▸ hs).symm.trans htab)
          exact hcall.closedRow hi hhere.1 hhere.2 rfl
        · have haway : c.tab ≠ tabId ∨ c.entry = false := by
            by_cases hid : c.tab = tabId
            · exact .inr (eq_false_iff.mpr fun he => hhere ⟨hid, he⟩)
            · exact .inl hid
          rw [hcall.closedRow_eq hmem haway]
          refine hcall.frame rfl fun hentry s hs hopen hi => ?_
          rcases haway with haway | hgone
          · exact ⟨s, (getElem?_modify_of_ne (Ne.symm haway)).trans hs, hopen, hi⟩
          · exact absurd (hgone.symm.trans hentry) false_ne_true
      · obtain ⟨old, hold, hpending⟩ : ∃ old, b.tabs[t]? = some old ∧ s.pending = old.pending := by
          obtain ⟨old, hold, ⟨-, rfl⟩ | ⟨-, rfl⟩⟩ := exists_of_getElem?_modify ht
          · exact ⟨old, hold, rfl⟩
          · exact ⟨s, hold, rfl⟩
        obtain ⟨c, hc, hct, hflight⟩ := h.pending t old hold i (hpending ▸ hi)
        obtain ⟨hrowtab, hrowphase⟩ := closedRow_frame tabId tab.pending i c
        refine ⟨_, (hrows i).trans (congrArg _ hc), hrowtab.trans hct, ?_⟩
        exact (inFlight_congr hrowphase).trans hflight
    · exact h

/-! ## The agent's events -/

theorem mostLikely_mem (first : Tab × TabId) (others : List (Tab × TabId)) :
    mostLikely first others ∈ first :: others := by
  rw [mostLikely]
  induction others generalizing first with
  | nil => exact mem_singleton_self first
  | cons row others ih =>
    rw [foldl_cons]
    have hmem := ih (if below first.1 row.1 = true then row else first)
    rcases mem_cons.mp hmem with heq | hmem
    · rw [heq]
      split
      · exact mem_cons_of_mem _ mem_cons_self
      · exact mem_cons_self
    · exact mem_cons_of_mem _ (mem_cons_of_mem _ hmem)

theorem of_mem_offering {action : UiAction} {row : Tab × TabId} (h : row ∈ b.offering action) :
    b.tabs[row.2]? = some row.1 ∧ row.1.connected = true := by
  obtain ⟨hmem, hcond⟩ := mem_filter.mp h
  exact ⟨mem_zipIdx_iff_getElem?.mp hmem, (of_decide_eq_true hcond).1⟩

theorem Sound.atOnce_snoc (h : Sound b) {outcome : UiActionOutcome} (hfail : outcome.ok = false)
    (hname : outcome.failure = some .noTab ∨ outcome.failure = some .notAvailable) :
    Sound { b with atOnce := b.atOnce ++ [outcome] } := by
  refine ⟨fun i c hc => ?_, h.pending, fun o ho => ?_⟩
  · exact (h.calls i c hc).frame rfl fun _ tab htab hopen hmem => ⟨tab, htab, hopen, hmem⟩
  · rcases mem_append.mp ho with ho | ho
    · exact h.atOnce o ho
    · obtain rfl := mem_singleton.mp ho
      exact ⟨hfail, hname⟩

theorem Sound.asked (h : Sound b) {action : UiAction} {timeout : Time} {tab : Tab}
    (htab : b.tabs[tabId]? = some tab) (hopen : tab.connected = true) :
    Sound { b with
      calls := b.calls ++ [{ tab := tabId, action := action, timeout := timeout, started := b.now }]
      tabs := b.tabs.modify tabId fun t =>
        { t with pending := t.pending ++ [b.calls.length] } } := by
  refine ⟨fun i c hc => ?_, fun t s hs i hi => ?_, h.atOnce⟩
  · rcases of_getElem?_append_singleton hc with hc | ⟨rfl, rfl⟩
    · refine (h.calls i c hc).frame rfl fun _ s hs hconnected hi => ?_
      by_cases hid : tabId = c.tab
      · subst hid
        refine ⟨{ s with pending := s.pending ++ [b.calls.length] }, ?_, hconnected,
          mem_append_left _ hi⟩
        show (b.tabs.modify c.tab _)[c.tab]? = _
        rw [getElem?_modify_self, hs]
        rfl
      · exact ⟨s, (getElem?_modify_of_ne hid).trans hs, hconnected, hi⟩
    · refine ⟨fun _ => ⟨rfl, { tab with pending := tab.pending ++ [b.calls.length] }, ?_, hopen, ?_⟩,
        fun _ _ _ _ => ⟨rfl, rfl⟩, nofun, nofun, rfl, nofun⟩
      · show (b.tabs.modify tabId _)[tabId]? = _
        rw [getElem?_modify_self, htab]
        rfl
      · exact mem_append_right _ (mem_singleton_self _)
  · have hold : ∀ old, b.tabs[t]? = some old → i ∈ old.pending → ∃ c : Call,
        (b.calls ++ [{ tab := tabId, action := action, timeout := timeout, started := b.now }])[i]?
          = some c ∧ c.tab = t ∧ c.inFlight = true := by
      intro old hold hmem
      obtain ⟨c, hc, hct, hflight⟩ := h.pending t old hold i hmem
      exact ⟨c, getElem?_append_of_some hc, hct, hflight⟩
    obtain ⟨old, hget, ⟨rfl, rfl⟩ | ⟨-, rfl⟩⟩ := exists_of_getElem?_modify hs
    · rcases mem_append.mp hi with hi | hi
      · exact hold old hget hi
      · obtain rfl := mem_singleton.mp hi
        exact ⟨_, getElem?_append_length, rfl, rfl⟩
    · exact hold s hget hi

theorem Sound.invoke (h : Sound b) (action : UiAction) (timeout : Time) :
    Sound (b.invoke action timeout) := by
  rw [Broker.invoke]
  split
  · exact h.atOnce_snoc rfl (.inl rfl)
  · split
    · exact h.atOnce_snoc rfl (.inr rfl)
    · rename_i first others hrows
      obtain ⟨htab, hopen⟩ := of_mem_offering (hrows ▸ mostLikely_mem first others)
      exact h.asked htab hopen

theorem Sound.finish (h : Sound b) (hc : b.calls[i]? = some c) {outcome : UiActionOutcome}
    (hended : b.now ≤ c.started + c.timeout) (hok : outcome.ok = true → c.answeredOk = true)
    (hclosed : c.closedFirst = true → outcome.failure = some .tabClosed) :
    Sound (b.finish i (.returned outcome)) := by
  rw [Broker.finish, hc]
  refine h.callWrite hc rfl rfl rfl (TabsBut.of_modify rfl ?_ ?_ ?_) rfl (.inr ?_) ?_
  · intro tab
    rfl
  · intro tab j hj hne
    exact mem_filter.mpr ⟨hj, decide_eq_true hne⟩
  · intro tab j hj
    exact (mem_filter.mp hj).1
  · intro t tab ht hmem
    obtain ⟨old, hold, ⟨rfl, rfl⟩ | ⟨hne, rfl⟩⟩ := exists_of_getElem?_modify ht
    · exact of_decide_eq_true (mem_filter.mp hmem).2 rfl
    · obtain ⟨d, hd, hdt, -⟩ := h.pending t tab hold i hmem
      obtain rfl : d = c := some.inj (hd.symm.trans hc)
      exact hne hdt.symm
  · refine ⟨nofun, nofun, (h.calls i c hc).done, fun hfirst => ⟨nofun, fun o ho => ?_⟩, hended, hok⟩
    obtain rfl : outcome = o := Phase.returned.inj ho
    exact hclosed hfirst

theorem sendDone_spec (h : b.sendDone i = some b') : ∃ c, b.calls[i]? = some c ∧
    c.phase = .sending ∧ b' = { b with calls := b.calls.modify i fun c =>
      { c with phase := .waiting (b.now + c.timeout) false } } := by
  rw [Broker.sendDone] at h
  split at h
  · cases h
  · rename_i c hc
    split at h
    · rename_i hphase
      exact ⟨c, hc, hphase, (some.inj h).symm⟩
    · cases h

theorem sendRaises_spec {timeoutError : Bool} (h : b.sendRaises i timeoutError = some b') :
    ∃ c phase, b.calls[i]? = some c ∧ c.phase = .sending ∧ b' = b.finish i phase := by
  rw [Broker.sendRaises] at h
  split at h
  · cases h
  · rename_i c hc
    split at h
    · rename_i hphase
      exact ⟨c, _, hc, hphase, (some.inj h).symm⟩
    · cases h

theorem timer_spec (h : b.timer late i = some b') : ∃ (c : Call) (deadline : Time)
    (future : Call → Future), b.calls[i]? = some c ∧ c.phase = .waiting deadline false ∧
    (∀ d, future d = .cancelled ∨ future d = d.future) ∧
    b' = { b with calls := b.calls.modify i fun c =>
      { c with future := future c, phase := .waiting deadline true, timedOut := true } } := by
  rw [Broker.timer] at h
  split at h
  · cases h
  · rename_i c hc
    split at h
    · rename_i deadline hphase
      split at h
      · cases h
      · split at h
        · exact ⟨c, deadline, fun _ => .cancelled, hc, hphase, fun _ => .inl rfl, (some.inj h).symm⟩
        · split at h
          · exact ⟨c, deadline, Call.future, hc, hphase, fun _ => .inr rfl, (some.inj h).symm⟩
          · cases h
    · cases h

theorem wake_spec (h : b.wake i = some b') : ∃ c outcome, b.calls[i]? = some c ∧
    woken c = some outcome ∧ b' = b.finish i (.returned outcome) := by
  obtain ⟨outcome, hbind, rfl⟩ := map_eq_some_iff.mp h
  obtain ⟨c, hc, hwoken⟩ := bind_eq_some_iff.mp hbind
  exact ⟨c, outcome, hc, hwoken, rfl⟩

theorem inFlight_of_woken {outcome : UiActionOutcome} (h : woken c = some outcome) :
    c.inFlight = true := by
  rw [woken] at h
  rw [Call.inFlight]
  cases hphase : c.phase with
  | waiting deadline expired | sending => rfl
  | returned o | raised => simp [hphase] at h

theorem CallOk.waiting (h : CallOk b i c) {deadline : Time} {expired : Bool}
    (hphase : c.phase = .waiting deadline expired) : c.inFlight = true ∧
      deadline = c.started + c.timeout ∧ b.now ≤ deadline ∧
      (expired = true → c.timedOut = true ∧ c.closedFirst = false) ∧
      (expired = false → c.future ≠ .cancelled) := by
  have hp := h.phase
  rw [PhaseOk, hphase] at hp
  exact ⟨by rw [Call.inFlight, hphase], hp⟩

theorem Sound.sendDone (h : Sound b) (hafter : b.sendDone i = some b') : Sound b' := by
  obtain ⟨c, hc, hphase, rfl⟩ := sendDone_spec hafter
  have hcall := h.calls i c hc
  have hsending : c.inFlight = true := by
    rw [Call.inFlight, hphase]
  obtain ⟨hstarted, hfuture⟩ : c.started = b.now ∧ c.future ≠ .cancelled := by
    have hp := hcall.phase
    rw [PhaseOk, hphase] at hp
    exact hp
  refine h.callWrite hc rfl rfl rfl (TabsBut.of_eq rfl) rfl (.inl fun _ => rfl) ?_
  refine ⟨fun he => ⟨rfl, (hcall.entry he).2⟩, fun _ => hcall.untouched hsending, hcall.done,
    fun hfirst => ⟨fun _ => (hcall.closed hfirst).1 hsending, nofun⟩, ?_, ?_, nofun,
    fun _ => hfuture⟩
  · show b.now + c.timeout = c.started + c.timeout
    rw [hstarted]
  · exact Nat.le_add_right _ _

theorem Sound.timer (h : Sound b) (hafter : b.timer late i = some b')
    (hopen : ∀ c, b.calls[i]? = some c → c.future ≠ .done (tabClosed c.tab)) : Sound b' := by
  obtain ⟨c, deadline, future, hc, hphase, hfuture, rfl⟩ := timer_spec hafter
  have hcall := h.calls i c hc
  obtain ⟨hwaiting, hdeadline, hnow, -⟩ := hcall.waiting hphase
  have hfirst : c.closedFirst = false := by
    by_contra hno
    exact hopen c hc ((hcall.closed (not_eq_false _ ▸ hno)).1 hwaiting)
  refine h.callWrite hc rfl rfl rfl (TabsBut.of_eq rfl) rfl (.inl fun _ => rfl) ?_
  refine ⟨fun he => ⟨rfl, (hcall.entry he).2⟩, nofun, fun outcome hf ho => ?_, fun hyes => ?_,
    hdeadline, hnow, fun _ => ⟨rfl, hfirst⟩, nofun⟩
  · rcases hfuture c with hcancelled | hsame
    · exact nomatch hcancelled.symm.trans hf
    · exact hcall.done outcome (hsame.symm.trans hf) ho
  · exact absurd (hfirst.symm.trans hyes) false_ne_true

theorem Sound.wake (h : Sound b) (hafter : b.wake i = some b') : Sound b' := by
  obtain ⟨c, outcome, hc, hwoken, rfl⟩ := wake_spec hafter
  have hcall := h.calls i c hc
  rw [woken] at hwoken
  cases hphase : c.phase with
  | waiting deadline expired =>
    obtain ⟨hwaiting, rfl, hnow, hexpired, -⟩ := hcall.waiting hphase
    cases expired with
    | true =>
      simp only [hphase, Option.some.injEq] at hwoken
      subst hwoken
      refine h.finish hc hnow nofun fun hfirst => ?_
      exact absurd ((hexpired rfl).2.symm.trans hfirst) false_ne_true
    | false =>
      cases hfuture : c.future with
      | done given =>
        simp only [hphase, hfuture, Option.some.injEq] at hwoken
        subst hwoken
        refine h.finish hc hnow (fun ho => hcall.done given hfuture ho) fun hfirst => ?_
        have hdone := (hcall.closed hfirst).1 hwaiting
        rw [hfuture] at hdone
        obtain rfl := Future.done.inj hdone
        rfl
      | unset | cancelled => simp [hphase, hfuture] at hwoken
  | sending | returned outcome | raised => simp [hphase] at hwoken

theorem Sound.tick (h : Sound b) {span : Time} (hafter : b.tick span = some b')
    (hsent : ∀ c ∈ b.calls, c.phase ≠ .sending) : Sound b' := by
  rw [Broker.tick] at hafter
  split at hafter
  · rename_i hlets
    obtain rfl := some.inj hafter
    refine ⟨fun i c hc => ?_, h.pending, h.atOnce⟩
    have hcall := h.calls i c hc
    have hmem := mem_of_getElem? hc
    refine ⟨hcall.entry, hcall.untouched, hcall.done, hcall.closed, ?_⟩
    have hp := hcall.phase
    have hlet := (and_eq_true_iff.mp (all_eq_true.mp hlets c hmem)).2
    rw [PhaseOk] at hp ⊢
    cases hphase : c.phase with
    | sending => exact absurd hphase (hsent c hmem)
    | waiting deadline expired =>
      rw [hphase] at hp hlet
      exact ⟨hp.1, of_decide_eq_true hlet, hp.2.2⟩
    | returned outcome | raised =>
      rw [hphase] at hp
      exact hp
  · cases hafter

end Loregarden.UiBroker
