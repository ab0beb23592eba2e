import Loregarden.StageBudgetModel

/-! # What a refund hands back

    The counter is right while each marker handed back is for a pass that charged one
    and has not had it back. No marker says whose it is, so nothing makes that so: a
    refund takes the newest, or the newest before a time.

    * `Stage.accounts_step`: every dispatch, clear and refund that fits keeps the
      account, and a refund that does not fit breaks it;
    * `Stage.accounts_run`: a history of steps that fit keeps it;
    * `refunds_account`: whole histories. -/

namespace Loregarden.StageBudget

open List Pass
open Bool hiding not_and not_not

variable {config : RetryBudgetConfig} {stageKey : String} {rows eligible : List Artifact}
  {kind : Kind} {stamp : Stamp} {s : Stage} {r : Run}

/-! ## Markers -/

theorem newest_mem {row : Artifact} (h : newest rows = some row) : row ∈ rows := by
  induction rows with
  | nil => cases h
  | cons first rest ih =>
    rw [newest] at h
    split at h
    · rw [Option.some.inj h]
      exact mem_cons_self
    · rename_i later hlater
      split at h
      · exact mem_cons_of_mem _ (ih (hlater.trans h))
      · rw [Option.some.inj h]
        exact mem_cons_self

theorem newest_eq_none_iff : newest rows = none ↔ rows = [] := by
  cases rows with
  | nil => exact ⟨fun _ => rfl, fun _ => rfl⟩
  | cons first rest =>
    refine ⟨fun h => ?_, fun h => by cases h⟩
    rw [newest] at h
    split at h
    · cases h
    · split at h <;> cases h

theorem countStageDispatches_append (more : List Artifact) : countStageDispatches (rows ++ more) =
      countStageDispatches rows + countStageDispatches more := by
  rw [countStageDispatches, markers, filter_append, length_append]
  rfl

theorem countStageDispatches_record :
    countStageDispatches (recordStageDispatch rows stamp) = countStageDispatches rows + 1 :=
  countStageDispatches_append _

theorem countStageDispatches_drop (h : kind ≠ .dispatch) :
    countStageDispatches (dropMarkers rows kind) = countStageDispatches rows := by
  rw [countStageDispatches, countStageDispatches, markers, markers, dropMarkers, filter_filter]
  refine congrArg List.length (filter_congr fun row _ => ?_)
  by_cases hrow : row.kind = .dispatch
  · simp [hrow, h.symm]
  · simp [hrow]

theorem countStageDispatches_clear : countStageDispatches (clearStageDispatches rows) = 0 := by
  rw [countStageDispatches, clearStageDispatches, markers, dropMarkers, filter_filter,
    length_eq_zero_iff, filter_eq_nil_iff]
  intro row _ h
  simp only [ne_eq, decide_not, and_eq_true, decide_eq_true_eq, not_eq_true',
    decide_eq_false_iff_not] at h
  exact h.2 h.1

theorem dropNewest_spec (h : ∀ row ∈ eligible, row ∈ markers rows .dispatch) :
    (eligible = [] ∧ dropNewest rows eligible = (rows, 0)) ∨
      (eligible ≠ [] ∧ (dropNewest rows eligible).2 = 1 ∧
        countStageDispatches (dropNewest rows eligible).1 + 1 = countStageDispatches rows) := by
  rw [dropNewest]
  cases hnewest : newest eligible with
  | none => exact .inl ⟨newest_eq_none_iff.mp hnewest, rfl⟩
  | some row =>
    have hmem := h row (newest_mem hnewest)
    refine .inr ⟨fun hnil => ?_, rfl, ?_⟩
    · rw [newest_eq_none_iff.mpr hnil] at hnewest
      cases hnewest
    · show (markers (rows.erase row) .dispatch).length + 1 = (markers rows .dispatch).length
      rw [markers, ← erase_filter, ← markers, length_erase_of_mem hmem]
      have hpos : 0 < (markers rows .dispatch).length := length_pos_of_mem hmem
      omega

/-- Charged since the last clear by nobody's deliberate act, and not refunded. -/
def Pass.unforced (p : Pass) : Bool := p.outstanding && !p.forced

/-- The counter counts the passes charged since the last clear and not refunded; no pass
    is refunded twice, or where it charged nothing; and no more unforced passes are
    outstanding than the budget has. -/
structure Stage.Accounts (config : RetryBudgetConfig) (s : Stage) : Prop where
  counted : countStageDispatches s.rows = s.passes.countP Pass.outstanding
  once : ∀ p ∈ s.passes, p.refunds ≤ 1
  charged : ∀ p ∈ s.passes, p.refunds ≠ 0 → p.charged
  bounded : config.enabled → 0 < config.maxAttemptsPerStage →
    s.passes.countP Pass.unforced ≤ config.maxAttemptsPerStage

theorem countP_unforced_le (passes : List Pass) :
    passes.countP unforced ≤ passes.countP outstanding :=
  countP_mono_left fun _ _ h => (and_eq_true_iff.mp h).1

namespace Stage

variable (s) in
/-- A refund for a run takes one of these rows: there is none, or the run's pass is outstanding. -/
def RefundFits (r : Run) (eligible : List Artifact) : Prop :=
  eligible = [] ∨ ∃ p, s.passes[r.pass]? = some p ∧ p.outstanding

variable (s) in
/-- An event hands back no marker but for an outstanding pass. -/
def Fits : Event → Prop
  | .parked i => ∀ r, s.runs[i]? = some r → s.RefundFits r (markers s.rows .dispatch)
  | .neverStarted i => ∀ r, s.runs[i]? = some r →
      s.RefundFits r ((markers s.rows .dispatch).filter (·.createdAt ≤ r.createdAt))
  | .membersSettled i before => ∀ r, s.runs[i]? = some r →
      s.RefundFits r ((markers s.rows .dispatch).filter (·.id ∉ before))
  | _ => True

/-! ### Refunds -/

theorem countP_refunded {passes : List Pass} {k : Nat} {p : Pass} (h : passes[k]? = some p) :
    (passes.set k { p with refunds := p.refunds + 1 }).countP outstanding +
        (if p.outstanding then 1 else 0) = passes.countP outstanding := by
  obtain ⟨hk, rfl⟩ := List.getElem?_eq_some_iff.mp h
  have hzero : outstanding { passes[k] with refunds := passes[k].refunds + 1 } = false := by
    rw [outstanding, and_eq_false_iff]
    exact .inr (decide_eq_false (Nat.succ_ne_zero _))
  rw [countP_set hk, hzero]
  have hle : (if passes[k].outstanding then 1 else 0) ≤ passes.countP outstanding :=
    boole_getElem_le_countP hk
  simp only [false_eq_true, if_false]
  omega

theorem countP_unforced_refunded {passes : List Pass} {k : Nat} {p : Pass}
    (h : passes[k]? = some p) :
    (passes.set k { p with refunds := p.refunds + 1 }).countP unforced ≤
      passes.countP unforced := by
  obtain ⟨hk, rfl⟩ := List.getElem?_eq_some_iff.mp h
  have hzero : unforced { passes[k] with refunds := passes[k].refunds + 1 } = false := by
    rw [unforced, outstanding, and_eq_false_iff, and_eq_false_iff]
    exact .inl (.inr (decide_eq_false (Nat.succ_ne_zero _)))
  rw [countP_set hk, hzero]
  simp only [false_eq_true, if_false]
  omega

theorem credited_passes_zero {refunded : List Artifact × Nat} (h : refunded.2 = 0) :
    (s.credited r refunded).passes = s.passes := by
  cases hp : s.passes[r.pass]? with
  | none => rw [credited, hp]
  | some p =>
    obtain ⟨hk, rfl⟩ := List.getElem?_eq_some_iff.mp hp
    rw [credited, hp, h]
    exact set_getElem_self hk

section

variable (h : s.Accounts config)
include h

theorem accounts_credited {refunded : List Artifact × Nat}
    (hrefund : (eligible = [] ∧ refunded.2 = 0 ∧
        countStageDispatches refunded.1 = countStageDispatches s.rows) ∨
      (eligible ≠ [] ∧ refunded.2 = 1 ∧
        countStageDispatches refunded.1 + 1 = countStageDispatches s.rows)) :
    (s.credited r refunded).Accounts config ↔ s.RefundFits r eligible := by
  rcases hrefund with ⟨hnil, hzero, hcount⟩ | ⟨hne, hone, hcount⟩
  · -- nothing is handed back
    refine ⟨fun _ => .inl hnil, fun _ => ?_⟩
    have hpasses := credited_passes_zero (s := s) (r := r) hzero
    exact
      { counted := hcount.trans (h.counted.trans (by rw [hpasses]))
        once := by rw [hpasses]; exact h.once
        charged := by rw [hpasses]; exact h.charged
        bounded := by rw [hpasses]; exact h.bounded }
  · rw [RefundFits, or_iff_right hne]
    cases hp : s.passes[r.pass]? with
    | none =>
      -- the counter goes down for no pass
      have hpasses : (s.credited r refunded).passes = s.passes := by
        rw [credited, hp]
      refine ⟨fun hacc => ?_, fun hex => ?_⟩
      · have hcounted : countStageDispatches refunded.1 = _ := hacc.counted
        rw [hpasses, ← h.counted] at hcounted
        omega
      · obtain ⟨p, hsome, -⟩ := hex
        cases hsome
    | some p =>
      have hpasses : (s.credited r refunded).passes =
          s.passes.set r.pass { p with refunds := p.refunds + 1 } := by
        rw [credited, hp, hone]
      have hcountP := countP_refunded hp
      have hrows : (s.credited r refunded).rows = refunded.1 := rfl
      constructor
      · intro hacc
        refine ⟨p, rfl, ?_⟩
        by_contra hout
        have hcounted := hacc.counted
        rw [if_neg hout] at hcountP
        rw [hrows, hpasses] at hcounted
        have := h.counted
        omega
      · rintro ⟨q, hq, hout⟩
        obtain rfl := Option.some.inj hq
        rw [if_pos hout] at hcountP
        obtain ⟨hleft, hrefunds⟩ := and_eq_true_iff.mp hout
        have hcharged := (and_eq_true_iff.mp hleft).1
        refine ⟨?_, ?_, ?_, ?_⟩
        · rw [hrows, hpasses]
          have := h.counted
          omega
        · rw [hpasses]
          intro q' hq'
          rcases mem_or_eq_of_mem_set hq' with hold | rfl
          · exact h.once q' hold
          · exact Nat.le_of_eq (congrArg (· + 1) (of_decide_eq_true hrefunds))
        · rw [hpasses]
          intro q' hq' hne'
          rcases mem_or_eq_of_mem_set hq' with hold | rfl
          · exact h.charged q' hold hne'
          · exact hcharged
        · rw [hpasses]
          exact fun hen hmax => Nat.le_trans (countP_unforced_refunded hp) (h.bounded hen hmax)

omit h in
theorem dropNewest_cases (h : ∀ row ∈ eligible, row ∈ markers rows .dispatch) :
    (eligible = [] ∧ (dropNewest rows eligible).2 = 0 ∧
        countStageDispatches (dropNewest rows eligible).1 = countStageDispatches rows) ∨
      (eligible ≠ [] ∧ (dropNewest rows eligible).2 = 1 ∧
        countStageDispatches (dropNewest rows eligible).1 + 1 = countStageDispatches rows) := by
  rcases dropNewest_spec h with ⟨hnil, heq⟩ | hsome
  · rw [heq]
    exact .inl ⟨hnil, rfl, rfl⟩
  · exact .inr hsome

theorem accounts_park : (s.park r).Accounts config ↔ s.RefundFits r (markers s.rows .dispatch) := by
  refine accounts_credited h ?_
  rw [refundStageDispatchBudget, dropLatestMarker]
  rw [countStageDispatches_drop (by decide)]
  exact dropNewest_cases fun _ hrow => hrow

theorem accounts_refundNeverStarted : (s.refundNeverStarted r).Accounts config ↔
      s.RefundFits r ((markers s.rows .dispatch).filter (·.createdAt ≤ r.createdAt)) :=
  accounts_credited h (dropNewest_cases fun _ hrow => mem_of_mem_filter hrow)

theorem accounts_settleFannedOutMembers {before : List Nat} :
    (s.settleFannedOutMembers r before).Accounts config ↔
      s.RefundFits r ((markers s.rows .dispatch).filter (·.id ∉ before)) :=
  accounts_credited h (dropNewest_cases fun _ hrow => mem_of_mem_filter hrow)

/-! ### Dispatches -/

theorem accounts_clear : s.clear.Accounts config := by
  have hzero : ∀ p ∈ s.clear.passes, outstanding p = false := by
    intro p hp
    obtain ⟨q, -, rfl⟩ := mem_map.mp hp
    rw [outstanding, and_eq_false_iff, and_eq_false_iff]
    exact .inl (.inr rfl)
  have hcount : s.clear.passes.countP outstanding = 0 :=
    countP_eq_zero.mpr fun p hp => by rw [hzero p hp]; exact false_ne_true
  refine ⟨?_, fun p hp => ?_, fun p hp => ?_, fun _ _ => ?_⟩
  · rw [hcount]
    exact countStageDispatches_clear
  · obtain ⟨q, hq, rfl⟩ := mem_map.mp hp
    exact h.once q hq
  · obtain ⟨q, hq, rfl⟩ := mem_map.mp hp
    exact h.charged q hq
  · have hle := countP_unforced_le s.clear.passes
    omega

theorem Accounts.congr {s' : Stage}
    (hrows : countStageDispatches s'.rows = countStageDispatches s.rows)
    (hpasses : s'.passes = s.passes) : s'.Accounts config :=
  { counted := by rw [hrows, hpasses]; exact h.counted
    once := by rw [hpasses]; exact h.once
    charged := by rw [hpasses]; exact h.charged
    bounded := by rw [hpasses]; exact h.bounded }

/-- A pass that is opened is counted as it is charged, and within the budget unless it is forced. -/
theorem Accounts.opens {s' : Stage} {new : List Pass} (hpasses : s'.passes = s.passes ++ new)
    (hnew : ∀ p ∈ new, p.refunds = 0) (hcount : countStageDispatches s'.rows =
      countStageDispatches s.rows + new.countP outstanding)
    (hbound : config.enabled → 0 < config.maxAttemptsPerStage →
      new.countP unforced ≠ 0 → countStageDispatches s'.rows ≤ config.maxAttemptsPerStage) :
    s'.Accounts config := by
  have hcounted : countStageDispatches s'.rows = s'.passes.countP outstanding := by
    rw [hcount, hpasses, countP_append, h.counted]
  refine ⟨hcounted, fun p hp => ?_, fun p hp hne => ?_, fun hen hmax => ?_⟩
  · rw [hpasses, mem_append] at hp
    rcases hp with hp | hp
    · exact h.once p hp
    · rw [hnew p hp]
      exact Nat.zero_le _
  · rw [hpasses, mem_append] at hp
    rcases hp with hp | hp
    · exact h.charged p hp hne
    · exact absurd (hnew p hp) hne
  · by_cases hzero : new.countP unforced = 0
    · rw [hpasses, countP_append, hzero]
      exact h.bounded hen hmax
    · have hle := countP_unforced_le s'.passes
      have hb := hbound hen hmax hzero
      omega

theorem accounts_enforce : (s.enforceStageRetryBudget config stamp).Accounts config := by
  rw [enforceStageRetryBudget]
  split
  · -- exempt: a row of another kind, and a pass that charged nothing
    refine h.opens rfl (by simp) ?_ (fun _ _ hne => absurd rfl hne)
    exact countStageDispatches_append _
  · rename_i hexempt
    split
    · refine h.congr ?_ rfl
      show countStageDispatches (recordStageRetryBlock s.rows stamp) = _
      rw [recordStageRetryBlock]
      split
      · rfl
      · exact countStageDispatches_append _
    · rename_i hbudget
      refine h.opens rfl (by simp) countStageDispatches_record fun hen _ _ => ?_
      rw [stageRetryBudgetState, if_neg] at hbudget
      · rw [hen, decide_eq_true_iff, not_and, Nat.not_le] at hbudget
        exact Nat.le_trans (Nat.le_of_eq countStageDispatches_record) (hbudget rfl)
      · intro hex
        rw [stageRetryBudgetState, if_pos hex] at hexempt
        exact hexempt rfl

omit h in
theorem evaluateStandaloneStageDispatch_spec {pin : String} {passOpen force reset : Bool}
    {d : StageDispatchDecision}
    (h : evaluateStandaloneStageDispatch rows pin stageKey config passOpen force reset = .ok d)
    (hcounts : d.counts) (hforced : d.forced = false) (hen : config.enabled) :
    countStageDispatches rows < config.maxAttemptsPerStage ∨ reset := by
  rw [evaluateStandaloneStageDispatch] at h
  split at h
  · rw [← Except.ok.inj h] at hcounts
    cases hcounts
  · dsimp only at h
    split at h
    · rw [← Except.ok.inj h] at hcounts
      cases hcounts
    · rename_i hexempt
      split at h
      · split at h
        · cases h
        · rw [← Except.ok.inj h] at hforced
          cases hforced
      · rename_i hbudget
        rw [stageRetryBudgetState, if_neg] at hbudget
        · rw [hen, decide_eq_true_iff, not_and, not_not] at hbudget
          by_cases hlt : countStageDispatches rows < config.maxAttemptsPerStage
          · exact .inl hlt
          · exact .inr (hbudget ⟨rfl, Nat.le_of_not_lt hlt⟩)
        · intro hex
          rw [stageRetryBudgetState, if_pos hex] at hexempt
          exact hexempt rfl

omit h in
theorem countStageDispatches_commit (rows : List Artifact) (d : StageDispatchDecision)
    (origin : DispatchOrigin) (stamp : Stamp) :
    countStageDispatches (commitStandaloneStageDispatch rows d origin stamp) =
      countStageDispatches rows + (opened d).countP outstanding := by
  rw [commitStandaloneStageDispatch, opened]
  split
  · exact countStageDispatches_append _
  · have hforced : countStageDispatches (if d.forced then
        rows ++ [{ kind := .dispatchOverride, id := stamp.id, createdAt := stamp.at_
                   origin := some origin }] else rows) = countStageDispatches rows := by
      split
      · exact countStageDispatches_append _
      · rfl
    dsimp only
    split
    · exact countStageDispatches_record.trans (congrArg (· + 1) hforced)
    · exact hforced

theorem accounts_prepareStageStart (reset : Bool) : (s.prepareStageStart reset).Accounts config ∧
      countStageDispatches (s.prepareStageStart reset).rows =
        if s.blocked && reset then 0 else countStageDispatches s.rows := by
  have hrefresh : ∀ t : Stage, t.Accounts config →
      Accounts config { (if blockedOnStageRetryBudget t.rows then
        { t with rows := clearStageRetryBlock t.rows } else t) with blocked := false } ∧
      countStageDispatches { (if blockedOnStageRetryBudget t.rows then
        { t with rows := clearStageRetryBlock t.rows } else t) with blocked := false }.rows =
        countStageDispatches t.rows := by
    intro t ht
    split
    · have hcount : countStageDispatches (dropMarkers t.rows .retryBlock) = _ :=
        countStageDispatches_drop (by decide)
      exact ⟨ht.congr hcount rfl, hcount⟩
    · exact ⟨ht.congr rfl rfl, rfl⟩
  rw [prepareStageStart]
  cases hblocked : s.blocked with
  | false => exact ⟨h, rfl⟩
  | true =>
    cases reset with
    | false => exact hrefresh s h
    | true =>
      obtain ⟨hacc, hcount⟩ := hrefresh s.clear (accounts_clear h)
      exact ⟨hacc, hcount.trans countStageDispatches_clear⟩

omit h in
theorem opened_refunds {d : StageDispatchDecision} : ∀ p ∈ opened d, p.refunds = 0 := by
  intro p hp
  rw [opened] at hp
  split at hp
  · rw [mem_singleton.mp hp]
  · split at hp
    · rw [mem_singleton.mp hp]
    · cases hp

omit h in
theorem opened_unforced {d : StageDispatchDecision}
    (h : (opened d).countP unforced ≠ 0) : d.counts ∧ d.forced = false ∧
      (opened d).countP outstanding = 1 := by
  rw [opened] at h ⊢
  split at h
  · exact absurd rfl h
  · rename_i hexempt
    rw [if_neg hexempt]
    split at h
    · rename_i hcounts
      rw [if_pos hcounts]
      refine ⟨hcounts, ?_, rfl⟩
      cases hforced : d.forced with
      | false => rfl
      | true =>
        rw [hforced] at h
        exact absurd rfl h
    · exact absurd rfl h

theorem accounts_startRun {live : Run → Bool} {force : Bool} {origin : DispatchOrigin} :
    (s.startRun config stageKey live force origin stamp).Accounts config := by
  rw [startRun]
  split
  · exact h
  · rename_i d hd
    obtain ⟨hprepared, hrows⟩ := accounts_prepareStageStart h s.stageStartClearsBudget
    refine hprepared.opens rfl opened_refunds (countStageDispatches_commit _ d origin stamp)
      fun hen hmax hne => ?_
    obtain ⟨hcounts, hforced, hone⟩ := opened_unforced hne
    have hcount := countStageDispatches_commit
      (s.prepareStageStart s.stageStartClearsBudget).rows d origin stamp
    rw [hone, hrows] at hcount
    refine Nat.le_trans (Nat.le_of_eq hcount) ?_
    rcases evaluateStandaloneStageDispatch_spec hd hcounts hforced hen with hlt | hreset
    · split
      · exact hmax
      · exact hlt
    · have hblocked : s.blocked = true := (and_eq_true_iff.mp hreset).1
      rw [hreset, hblocked]
      exact hmax

theorem accounts_guard {live : Run → Bool} {force : Bool} {origin : DispatchOrigin} :
    (s.guardStandaloneStageDispatch config stageKey live force origin stamp).Accounts config := by
  rw [guardStandaloneStageDispatch]
  split
  · exact h
  · rename_i d hd
    refine h.opens rfl opened_refunds (countStageDispatches_commit _ d origin stamp)
      fun hen _ hne => ?_
    obtain ⟨hcounts, hforced, hone⟩ := opened_unforced hne
    have hcount := countStageDispatches_commit s.rows d origin stamp
    rw [hone] at hcount
    refine Nat.le_trans (Nat.le_of_eq hcount) ?_
    rcases evaluateStandaloneStageDispatch_spec hd hcounts hforced hen with hlt | hreset
    · exact hlt
    · cases hreset

theorem accounts_fanout : (s.chargeFanoutDispatch stamp).Accounts config :=
  h.opens rfl (by simp) countStageDispatches_record fun _ _ hne => absurd rfl hne

/-! ### Steps and histories -/

theorem accounts_onRun {i : Nat} {s' : Stage} {P : Run → Prop} (hnone : s.runs[i]? = none → s' = s)
    (hsome : ∀ r, s.runs[i]? = some r → (s'.Accounts config ↔ P r)) :
    s'.Accounts config ↔ ∀ r, s.runs[i]? = some r → P r := by
  cases hi : s.runs[i]? with
  | none =>
    rw [hnone hi]
    exact ⟨fun _ r hr => (by cases hr), fun _ => h⟩
  | some r =>
    refine (hsome r hi).trans ⟨fun hP r' hr' => ?_, fun hall => hall r rfl⟩
    rw [← Option.some.inj hr']
    exact hP

/-- **A step keeps the account exactly when it fits**: every dispatch and every clear does,
    and a refund where its run's pass is outstanding. -/
theorem accounts_step (e : Event) : (s.step config stageKey e).Accounts config ↔ s.Fits e := by
  cases e with
  | orchestrated stamp => exact ⟨fun _ => trivial, fun _ => accounts_enforce h⟩
  | started live force origin stamp => exact ⟨fun _ => trivial, fun _ => accounts_startRun h⟩
  | guarded live force origin stamp => exact ⟨fun _ => trivial, fun _ => accounts_guard h⟩
  | fannedOut stamp => exact ⟨fun _ => trivial, fun _ => accounts_fanout h⟩
  | ran pass createdAt =>
    refine ⟨fun _ => trivial, fun _ => ?_⟩
    rw [step]
    split
    · exact h.congr rfl rfl
    · exact h
  | ended i =>
    refine ⟨fun _ => trivial, fun _ => ?_⟩
    rw [step]
    split
    · exact h
    · exact h.congr rfl rfl
  | parked i =>
    refine accounts_onRun h (fun hi => by rw [step, hi]) fun r hi => ?_
    rw [step, hi]
    exact accounts_park h
  | neverStarted i =>
    refine accounts_onRun h (fun hi => by rw [step, hi]) fun r hi => ?_
    rw [step, hi]
    exact accounts_refundNeverStarted h
  | membersSettled i before =>
    refine accounts_onRun h (fun hi => by rw [step, hi]) fun r hi => ?_
    rw [step, hi]
    exact accounts_settleFannedOutMembers h
  | cleared => exact ⟨fun _ => trivial, fun _ => accounts_clear h⟩
  | elsewhere pin blocked stageRunning fanoutPending =>
    exact ⟨fun _ => trivial, fun _ => h.congr rfl rfl⟩

end

theorem accounts_initial : Accounts config {} where
  counted := rfl
  once _ h := by cases h
  charged _ h := by cases h
  bounded _ _ := Nat.zero_le _

variable (config stageKey) in
def Fitting : Stage → List Event → Prop
  | _, [] => True
  | s, e :: events => s.Fits e ∧ Fitting (s.step config stageKey e) events

theorem accounts_run (h : s.Accounts config) (events : List Event)
    (hfit : Fitting config stageKey s events) : (s.run config stageKey events).Accounts config := by
  induction events generalizing s with
  | nil => exact h
  | cons e events ih => exact ih ((accounts_step h e).mpr hfit.1) hfit.2

end Stage

/-- **When the dispatches of a stage are accounted for.** In a history in which every refund that
    finds a marker is for a run whose pass is outstanding, the account holds in every state; and
    from a state where it holds, it holds after a step exactly when that step is such a one. -/
theorem refunds_account (config : RetryBudgetConfig) (stageKey : String) :
    (∀ events, Stage.Fitting config stageKey {} events →
      (Stage.run config stageKey {} events).Accounts config) ∧
      ∀ (s : Stage) (e : Stage.Event), s.Accounts config →
        ((s.step config stageKey e).Accounts config ↔ s.Fits e) :=
  ⟨fun events hfit => Stage.accounts_run Stage.accounts_initial events hfit,
    fun _ e h => Stage.accounts_step h e⟩

/-- A charged pass; then one a reroute pin lets through free, whose run parks. -/
def freePark : List Stage.Event :=
  [.orchestrated ⟨0, 0⟩, .ran 0 1, .ended 0, .elsewhere "frontend-impl" false false false,
   .orchestrated ⟨1, 2⟩, .ran 1 3, .parked 1]

/-- The first pass is charged and was never refunded, and no marker is left; and one park
    for each of two members of a pass hands back two. -/
theorem free_park_takes_marker :
    let s := Stage.run { maxAttemptsPerStage := 12 } "implement" {} freePark
    countStageDispatches s.rows = 0 ∧
      s.passes = [{ charged := true }, { charged := false, refunds := 1 }] ∧
      s.passes.countP Pass.outstanding = 1 ∧
      (Stage.run { maxAttemptsPerStage := 12 } "implement" {}
        [.orchestrated ⟨0, 0⟩, .ran 0 1, .orchestrated ⟨1, 2⟩, .ran 1 3, .ran 1 3, .parked 1,
         .parked 2]).passes = [{ charged := true }, { charged := true, refunds := 2 }] ∧
      ¬ s.Accounts { maxAttemptsPerStage := 12 } := by
  refine ⟨by decide +kernel, by decide +kernel, by decide +kernel, by decide +kernel, fun h => ?_⟩
  have hcounted := h.counted
  revert hcounted
  decide +kernel

end Loregarden.StageBudget

