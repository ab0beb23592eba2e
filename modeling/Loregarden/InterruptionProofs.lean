import Loregarden.InterruptionModel

/-! # When a restart hands the work back as it was driven

Who drove the interrupted run is the orchestration it belongs to; `resume_plan` asks the newest one
of the ticket. Which ticket is taken up, which run its restart names and when the work is handed
back as it was driven (`TakenUp`, `Names`, `Kept`) is said of the ticket as the restart finds it. -/

namespace Loregarden.Interruption

open DependencyRelease (OrchestrationDriver OrchestrationRunStatus)
open Lanes (RunStatus)
open List

/-- The terms of a re-run of one stage, and no further. -/
def OnlyStage (key : StageKey) (terms : DriveTerms) : Prop :=
  terms.stopAtStageKey = some key ∧ terms.autoApprove = false

/-- The plan hands a run back the way it was driven. -/
def HandsBack (own : Option OrchestrationRun) (key : StageKey) (plan : Option InterruptionResume) :
    Prop :=
  match own with
  | none => ∃ resume ∈ plan, OnlyStage key resume.terms
  | some own =>
    if own.cancelRequested ∨ own.status = .cancelled then plan = none
    else
      match own.driver with
      | .externalMcp => plan = none
      | .manualStage => ∃ resume ∈ plan, OnlyStage key resume.terms
      | .builtinAutopilot => ∀ resume ∈ plan,
          OnlyStage key resume.terms ∨ own.active ∧ resume.terms = own.terms

/-! ## What the restart leaves -/

namespace AgentRun

/-- The restart takes the run for dead: it was going, not as triage or outside, and its process
    does not live. -/
def Killed (run : AgentRun) : Prop :=
  (run.status = .running ∨ run.status = .awaitingPermission) ∧ run.agentId ≠ "triage" ∧
    run.externalHarness = false ∧ run.spared = false

/-- The run is going, or is to. -/
def Live (run : AgentRun) : Prop :=
  run.status = .queued ∨ run.status = .running ∨ run.status = .awaitingPermission

theorem interrupted_iff {run : AgentRun} : run.interrupted = true ↔ run.Killed := by
  rw [interrupted, Killed, triageAgentId, Bool.and_eq_true, Bool.and_eq_true, Bool.and_eq_true,
    Bool.or_eq_true, decide_eq_true_iff, decide_eq_true_iff, decide_eq_true_iff, Bool.not_eq_true',
    Bool.not_eq_true', and_assoc, and_assoc]

theorem live_iff {run : AgentRun} : run.status.live = true ↔ run.Live := by
  rw [Live]
  cases run.status <;> simp [RunStatus.live]

end AgentRun

namespace Ticket

variable (t : Ticket)

/-- A run of the stage is killed. -/
def Struck (key : StageKey) : Prop := ∃ run ∈ t.runs, run.Killed ∧ run.stageKey = key

/-- A drive goes on: it is queued, or running on a lease or with a process that lives. -/
def Driven : Prop :=
  ∃ number orch, t.orchestrations[number]? = some orch ∧ (orch.status = .queued ∨
    orch.status = .running ∧ (orch.leased = true ∨
      ∃ run ∈ t.runs, run.spared = true ∧ run.orchestration = some number))

/-- The first stage that is running with no run of it killed. -/
def Running (key : StageKey) : Prop :=
  ∃ before after, t.stages = before ++ (key, .running) :: after ∧ ¬ t.Struck key ∧
    ∀ stage ∈ before, stage.2 = .running → t.Struck stage.1

/-- That stage, where every run that goes is killed and no drive goes on. -/
def Strands (key : StageKey) : Prop :=
  t.Running key ∧ (∀ run ∈ t.runs, run.Live → run.Killed) ∧ ¬ t.Driven

/-- The restart blocks the stage. -/
def Hit (key : StageKey) : Prop := t.Struck key ∨ t.Strands key

/-- What the ticket is blocked by behind the restart. -/
def Says (message : String) : Prop :=
  (∃ key, t.Strands key) ∧ message = strandedStageMessage ∨
    (∀ key, ¬ t.Strands key) ∧
      ((∃ stage ∈ t.stages, t.Struck stage.1) ∧ message = interruptedRunMessage ∨
        (∀ stage ∈ t.stages, ¬ t.Struck stage.1) ∧ message = t.blockingIssues)

/-- The restart takes the ticket up: it is not finished, no drive goes on, and it is blocked, at a
    stage and by a message of a restart. -/
structure TakenUp : Prop where
  unfinished : t.state ≠ .done ∧ t.state ≠ .wontDo
  idle : ∀ stage ∈ t.stages, stage.2 = .running ∨ stage.2 = .awaiting → t.Hit stage.1
  blocked : ∃ stage ∈ t.stages, stage.2 = .blocked ∨ t.Hit stage.1
  told : t.Says interruptedRunMessage ∨ t.Says strandedStageMessage
  undriven : ¬ t.Driven

/-- The run is of a stage that is blocked, and carries the message, if that is the one of runs. -/
def Marked (run : AgentRun) : Prop :=
  run.agentId ≠ "triage" ∧
    (∃ stage ∈ t.stages, stage.1 = run.stageKey ∧ (stage.2 = .blocked ∨ t.Hit stage.1)) ∧
    (t.Says interruptedRunMessage → run.Killed ∨ run.stderr = interruptedRunMessage)

/-- The newest such run is of this stage, if of one with a name. -/
def Names (key : Option StageKey) : Prop :=
  ∀ k, key = some k ↔ k ≠ "" ∧ ∃ before run after, t.runs = before ++ run :: after ∧
    t.Marked run ∧ (∀ other ∈ after, ¬ t.Marked other) ∧ run.stageKey = k

variable {t}

/-- A block of stages: those of the keys are blocked, the others stay. -/
theorem mem_block {keys : List StageKey} {message : String} {stage : StageKey × StageStatus} :
    stage ∈ (t.block keys message).stages ↔ ∃ st ∈ t.stages, st.1 = stage.1 ∧
      (st.1 ∈ keys ∧ stage.2 = .blocked ∨ st.1 ∉ keys ∧ stage = st) := by
  simp only [block, mem_map]
  refine exists_congr fun st => and_congr_right fun _ => ?_
  by_cases hin : st.1 ∈ keys
  · simp [hin, Prod.ext_iff, eq_comm]
  · simp only [contains_eq_mem, hin, decide_false, Bool.false_eq_true, if_false, false_and,
      false_or, not_false_iff, true_and]
    exact ⟨fun h => ⟨h ▸ rfl, h.symm⟩, fun h => h.2.symm⟩

/-- The stages whose runs are killed. -/
theorem mem_struck {key : StageKey} :
    key ∈ (t.runs.filter (·.interrupted)).map (·.stageKey) ↔ t.Struck key := by
  simp only [mem_map, mem_filter, AgentRun.interrupted_iff, Struck, and_assoc]

/-- The first stage that is running once the runs are settled. -/
theorem running_iff {key : StageKey} :
    t.failInterruptedRuns.failInterruptedOrchestrationRuns.cursor = some (key, .running) ↔
      t.Running key := by
  have hfirst : ∀ {t : Ticket}, t.cursor = some (key, .running) ↔
      t.stages.find? (·.2 = .running) = some (key, .running) := by
    intro t
    have hstatus : ∀ status, t.stages.find? (·.2 = status) = some (key, .running) →
        status = StageStatus.running := by
      intro status h
      have hat := List.find?_some h
      exact (of_decide_eq_true hat).symm
    simp only [cursor, findSome?_cons, findSome?_nil]
    cases hrunning : t.stages.find? (·.2 = .running) with
    | some stage => rfl
    | none =>
      refine iff_of_false (fun h => ?_) nofun
      cases hawaiting : t.stages.find? (·.2 = .awaiting) with
      | some stage =>
        rw [hawaiting] at h
        cases hstatus .awaiting (hawaiting.trans h)
      | none =>
        cases hblocked : t.stages.find? (·.2 = .blocked) with
        | some stage =>
          rw [hawaiting, hblocked] at h
          cases hstatus .blocked (hblocked.trans h)
        | none =>
          rw [hawaiting, hblocked] at h
          cases h
  rw [hfirst]
  show (t.stages.map _).find? _ = _ ↔ _
  rw [find?_map, Option.map_eq_some_iff]
  have hgoes : ∀ stage : StageKey × StageStatus, ((fun stage => decide (stage.2 = .running)) ∘
      fun stage => if ((t.runs.filter (·.interrupted)).map (·.stageKey)).contains stage.1
        then (stage.1, .blocked) else stage) stage = true ↔
      stage.2 = .running ∧ ¬ t.Struck stage.1 := by
    intro stage
    by_cases hin : t.Struck stage.1
    · simp [contains_eq_mem, mem_struck, hin]
    · simp [contains_eq_mem, mem_struck, hin]
  constructor
  · rintro ⟨stage, hstage, heq⟩
    obtain ⟨hgoing, before, after, hsplit, hbefore⟩ := find?_eq_some_iff_append.mp hstage
    obtain ⟨hrunning, hnot⟩ := (hgoes stage).mp hgoing
    rw [contains_eq_mem, if_neg (by simpa [mem_struck] using hnot)] at heq
    subst heq
    refine ⟨before, after, hsplit, hnot, fun other hother hon => by_contra fun hspared => ?_⟩
    have hskip := hbefore other hother
    rw [(hgoes other).mpr ⟨hon, hspared⟩] at hskip
    cases hskip
  · rintro ⟨before, after, hsplit, hnot, hbefore⟩
    refine ⟨(key, .running), find?_eq_some_iff_append.mpr ⟨(hgoes _).mpr ⟨rfl, hnot⟩, before,
      after, hsplit, fun other hother => ?_⟩, ?_⟩
    · refine Bool.not_eq_true' _ ▸ Bool.eq_false_iff.mpr fun h => ?_
      obtain ⟨hon, hspared⟩ := (hgoes other).mp h
      exact hspared (hbefore other hother hon)
    · rw [contains_eq_mem, if_neg (by simpa [mem_struck] using hnot)]

/-- The restart leaves alone which runs live on, and for whom. -/
theorem spared_any (number : Nat) : t.failInterruptedRuns.runs.any
      (fun run => run.spared && run.orchestration = some number) =
    t.runs.any fun run => run.spared && run.orchestration = some number := by
  show (t.runs.map _).any _ = _
  rw [any_map]
  congr 1
  funext run
  rw [Function.comp_apply]
  split <;> rfl

/-- A drive is still found where one goes on. -/
theorem driven_iff : t.failInterruptedRuns.failInterruptedOrchestrationRuns.findActive = true ↔
    t.Driven := by
  show (t.orchestrations.mapIdx _).any _ = true ↔ _
  rw [any_eq_true]
  simp only [spared_any]
  constructor
  · rintro ⟨_, hmem, hactive⟩
    obtain ⟨number, hnumber⟩ := mem_iff_getElem?.mp hmem
    rw [getElem?_mapIdx, Option.map_eq_some_iff] at hnumber
    obtain ⟨orch, horch, rfl⟩ := hnumber
    refine ⟨number, orch, horch, ?_⟩
    split at hactive
    · cases hactive
    · next hspared =>
      rcases Bool.or_eq_true _ _ ▸ hactive with hqueued | hrunning
      · exact .inl (of_decide_eq_true hqueued)
      · have hrunning := of_decide_eq_true hrunning
        refine .inr ⟨hrunning, ?_⟩
        by_contra hnone
        obtain ⟨hfree, hdead⟩ := not_or.mp hnone
        refine hspared ⟨hrunning, hfree, fun hany => hdead ?_⟩
        obtain ⟨run, hrun, h⟩ := any_eq_true.mp hany
        rw [Bool.and_eq_true, decide_eq_true_iff] at h
        exact ⟨run, hrun, h⟩
  · rintro ⟨number, orch, horch, hgoes⟩
    refine ⟨orch, mem_iff_getElem?.mpr ⟨number, ?_⟩, ?_⟩
    · rw [getElem?_mapIdx, horch, Option.map_some, if_neg]
      rintro ⟨hrunning, hfree, hdead⟩
      rcases hgoes with hqueued | ⟨-, hleased | ⟨run, hrun, hspared, hits⟩⟩
      · cases hqueued.symm.trans hrunning
      · exact hfree hleased
      · exact hdead (any_eq_true.mpr ⟨run, hrun, by simp [hspared, hits]⟩)
    · rcases hgoes with hqueued | ⟨hrunning, -⟩
      · simp [DependencyRelease.OrchestrationRun.active, hqueued]
      · simp [DependencyRelease.OrchestrationRun.active, hrunning]

theorem live_iff : t.failInterruptedRuns.failInterruptedOrchestrationRuns.runs.any
    (·.status.live) = true ↔ ∃ run ∈ t.runs, run.Live ∧ ¬ run.Killed := by
  show (t.runs.map _).any _ = true ↔ _
  rw [any_map, any_eq_true]
  refine exists_congr fun run => and_congr_right fun _ => ?_
  rw [Function.comp_apply, ← AgentRun.live_iff, ← AgentRun.interrupted_iff]
  split
  · next hkilled => simp [RunStatus.live, hkilled]
  · next hspared => simp [hspared]

/-- Either a stage is stranded, and blocked, or the ticket is left as it is. -/
theorem settle_cases :
    (∃ key, (∀ k, t.Strands k ↔ k = key) ∧ t.recovered =
      t.failInterruptedRuns.failInterruptedOrchestrationRuns.block [key] strandedStageMessage) ∨
    (∀ key, ¬ t.Strands key) ∧
      t.recovered = t.failInterruptedRuns.failInterruptedOrchestrationRuns := by
  have hquiet : (∀ run ∈ t.runs, run.Live → run.Killed) ∧ ¬ t.Driven ↔
      ¬ (t.failInterruptedRuns.failInterruptedOrchestrationRuns.runs.any (·.status.live) ||
        t.failInterruptedRuns.failInterruptedOrchestrationRuns.findActive) = true := by
    rw [Bool.or_eq_true, not_or, live_iff, driven_iff]
    push Not
    rfl
  simp only [Strands, hquiet, ← running_iff]
  rw [recovered, settleStrandedStages]
  split
  · next key hcursor =>
    rw [hcursor]
    split
    · next hgoes => exact .inr ⟨fun _ h => h.2 hgoes, rfl⟩
    · next hquiet =>
      refine .inl ⟨key, fun k => ⟨fun h => ?_, fun h => ⟨h ▸ rfl, hquiet⟩⟩, rfl⟩
      exact (congrArg Prod.fst (Option.some.inj h.1)).symm
  · next hcursor => exact .inr ⟨fun key h => hcursor key h.1, rfl⟩

/-- The stages once the runs are failed. -/
theorem mem_struckStages {stage : StageKey × StageStatus} :
    stage ∈ t.failInterruptedRuns.failInterruptedOrchestrationRuns.stages ↔
      ∃ st ∈ t.stages, st.1 = stage.1 ∧
        (t.Struck st.1 ∧ stage.2 = .blocked ∨ ¬ t.Struck st.1 ∧ stage = st) := by
  show stage ∈ (t.block _ interruptedRunMessage).stages ↔ _
  simp only [mem_block, mem_struck]

/-- The stages as the restart leaves them. -/
theorem mem_recovered {stage : StageKey × StageStatus} : stage ∈ t.recovered.stages ↔
    ∃ st ∈ t.stages, st.1 = stage.1 ∧
      (t.Hit st.1 ∧ stage.2 = .blocked ∨ ¬ t.Hit st.1 ∧ stage = st) := by
  rcases settle_cases (t := t) with ⟨key, hstrands, heq⟩ | ⟨hstrands, heq⟩
  · rw [heq, mem_block]
    simp only [mem_struckStages, Hit, hstrands, mem_singleton]
    constructor
    · rintro ⟨mid, ⟨st, hst, hkey, hmid⟩, hkey', hstage⟩
      refine ⟨st, hst, hkey.trans hkey', ?_⟩
      rcases hstage with ⟨hkeys, hblocked⟩ | ⟨hnot, rfl⟩
      · exact .inl ⟨.inr (hkey ▸ hkeys), hblocked⟩
      · rcases hmid with ⟨hstruck, hblocked⟩ | ⟨hfree, rfl⟩
        · exact .inl ⟨.inl hstruck, hblocked⟩
        · exact .inr ⟨not_or.mpr ⟨hfree, hnot⟩, rfl⟩
    · rintro ⟨st, hst, hkey, hstage⟩
      by_cases hstruck : t.Struck st.1
      · refine ⟨(st.1, .blocked), ⟨st, hst, rfl, .inl ⟨hstruck, rfl⟩⟩, hkey, ?_⟩
        have hblocked : stage.2 = .blocked := by
          rcases hstage with h | h
          · exact h.2
          · exact absurd (.inl hstruck) h.1
        by_cases hin : st.1 = key
        · exact .inl ⟨hin, hblocked⟩
        · exact .inr ⟨hin, Prod.ext hkey.symm hblocked⟩
      · refine ⟨st, ⟨st, hst, rfl, .inr ⟨hstruck, rfl⟩⟩, hkey, ?_⟩
        simpa [hstruck] using hstage
  · rw [heq, mem_struckStages]
    simp only [Hit, hstrands, or_false]

/-- The message it leaves. -/
theorem says_iff {message : String} : t.recovered.blockingIssues = message ↔ t.Says message := by
  rcases settle_cases (t := t) with ⟨key, hstrands, heq⟩ | ⟨hstrands, heq⟩
  · have hon : (t.failInterruptedRuns.failInterruptedOrchestrationRuns.stages.any
        fun stage => [key].contains stage.1) = true := by
      obtain ⟨before, after, hsplit, hnot, -⟩ := ((hstrands key).mpr rfl).1
      have hmem : (key, StageStatus.running) ∈ t.stages :=
        hsplit ▸ mem_append_right _ mem_cons_self
      exact any_eq_true.mpr
        ⟨_, mem_struckStages.mpr ⟨_, hmem, rfl, .inr ⟨hnot, rfl⟩⟩, by simp⟩
    rw [heq, Says]
    show (if _ then strandedStageMessage else _) = message ↔ _
    rw [if_pos hon]
    simp [hstrands, eq_comm]
  · rw [heq, Says]
    have hany : (t.stages.any fun stage =>
        ((t.runs.filter (·.interrupted)).map (·.stageKey)).contains stage.1) = true ↔
          ∃ stage ∈ t.stages, t.Struck stage.1 := by
      simp only [any_eq_true, contains_eq_mem, decide_eq_true_iff, mem_struck]
    have hnone : (∀ stage ∈ t.stages, ¬ t.Struck stage.1) ↔
        ¬ ∃ stage ∈ t.stages, t.Struck stage.1 := by
      push Not
      rfl
    show (if _ then interruptedRunMessage else t.blockingIssues) = message ↔ _
    rw [hnone, and_iff_right hstrands, or_iff_right fun h => absurd h.1 (not_exists.mpr hstrands)]
    by_cases hstruck : ∃ stage ∈ t.stages, t.Struck stage.1
    · rw [if_pos (hany.mpr hstruck), and_iff_right hstruck, or_iff_left fun h => h.1 hstruck,
        eq_comm]
    · rw [if_neg (mt hany.mp hstruck), and_iff_right hstruck, or_iff_right fun h => hstruck h.1,
        eq_comm]

/-- The statuses the restart leaves: a stage it blocks is blocked, any other as it was. -/
theorem recovered_status {status : StageStatus} (h : status ≠ .blocked) :
    (∃ stage ∈ t.recovered.stages, stage.2 = status) ↔
      ∃ stage ∈ t.stages, stage.2 = status ∧ ¬ t.Hit stage.1 := by
  simp only [mem_recovered]
  constructor
  · rintro ⟨stage, ⟨st, hst, -, ⟨-, hblocked⟩ | ⟨hnot, rfl⟩⟩, rfl⟩
    · exact absurd hblocked h
    · exact ⟨stage, hst, rfl, hnot⟩
  · rintro ⟨stage, hstage, hstatus, hnot⟩
    exact ⟨stage, ⟨stage, hstage, rfl, .inr ⟨hnot, rfl⟩⟩, hstatus⟩

/-- A stage is blocked behind it where it was, or is hit. -/
theorem recovered_blocked {key : StageKey} : (key, .blocked) ∈ t.recovered.stages ↔
    ∃ stage ∈ t.stages, stage.1 = key ∧ (stage.2 = .blocked ∨ t.Hit stage.1) := by
  rw [mem_recovered]
  refine exists_congr fun st => and_congr_right fun _ => and_congr_right fun hkey => ?_
  obtain ⟨k, status⟩ := st
  obtain rfl : k = key := hkey
  by_cases hhit : t.Hit k
  · simp [hhit]
  · simp [hhit, eq_comm]

/-- Settling the stranded stages writes neither runs nor orchestrations. -/
theorem recovered_keeps : t.recovered.state = t.state ∧ t.recovered.id = t.id ∧
    t.recovered.findActive =
      t.failInterruptedRuns.failInterruptedOrchestrationRuns.findActive ∧
    t.recovered.runs = t.failInterruptedRuns.runs ∧
    t.recovered.orchestrations =
      t.failInterruptedRuns.failInterruptedOrchestrationRuns.orchestrations := by
  rcases settle_cases (t := t) with ⟨key, -, heq⟩ | ⟨-, heq⟩ <;> rw [heq] <;>
    exact ⟨rfl, rfl, rfl, rfl, rfl⟩

/-- The cursor stands on a blocked stage where one is blocked, and none is running or awaiting. -/
theorem cursor_blocked_iff : t.cursor.any (·.2 = .blocked) = true ↔
    (¬ (∃ stage ∈ t.stages, stage.2 = .running) ∧ ¬ ∃ stage ∈ t.stages, stage.2 = .awaiting) ∧
      ∃ stage ∈ t.stages, stage.2 = .blocked := by
  have hsome : ∀ {status stage}, t.stages.find? (·.2 = status) = some stage →
      stage ∈ t.stages ∧ stage.2 = status := by
    intro status stage h
    have hat := List.find?_some h
    exact ⟨mem_of_find?_eq_some h, of_decide_eq_true hat⟩
  have hnone : ∀ {status}, t.stages.find? (·.2 = status) = none →
      ¬ ∃ stage ∈ t.stages, stage.2 = status := by
    rintro status h ⟨stage, hstage, hstatus⟩
    exact List.find?_eq_none.mp h stage hstage (decide_eq_true hstatus)
  cases hrunning : t.stages.find? (·.2 = .running) with
  | some stage =>
    refine iff_of_false ?_ fun h => h.1.1 ⟨stage, hsome hrunning⟩
    simp [cursor, hrunning, (hsome hrunning).2]
  | none =>
    cases hawaiting : t.stages.find? (·.2 = .awaiting) with
    | some stage =>
      refine iff_of_false ?_ fun h => h.1.2 ⟨stage, hsome hawaiting⟩
      simp [cursor, hrunning, hawaiting, (hsome hawaiting).2]
    | none =>
      rw [and_iff_right ⟨hnone hrunning, hnone hawaiting⟩]
      cases hblocked : t.stages.find? (·.2 = .blocked) with
      | some stage =>
        refine iff_of_true ?_ ⟨stage, hsome hblocked⟩
        simp [cursor, hrunning, hawaiting, hblocked, (hsome hblocked).2]
      | none =>
        refine iff_of_false ?_ (hnone hblocked)
        simp [cursor, hrunning, hawaiting, hblocked]

/-- **A ticket is a candidate where it is taken up.** -/
theorem candidate_iff : t.recovered.candidate = true ↔ t.TakenUp := by
  obtain ⟨hstate, -, hactive, -⟩ := recovered_keeps (t := t)
  have hrunning := @recovered_status t .running nofun
  have hawaiting := @recovered_status t .awaiting nofun
  have hblocked : (∃ stage ∈ t.recovered.stages, stage.2 = .blocked) ↔
      ∃ stage ∈ t.stages, stage.2 = .blocked ∨ t.Hit stage.1 := by
    constructor
    · rintro ⟨⟨key, status⟩, hstage, rfl⟩
      obtain ⟨stage, hmem, -, h⟩ := recovered_blocked.mp hstage
      exact ⟨stage, hmem, h⟩
    · rintro ⟨stage, hmem, h⟩
      exact ⟨(stage.1, .blocked), recovered_blocked.mpr ⟨stage, hmem, rfl, h⟩, rfl⟩
  rw [candidate, Bool.and_eq_true, Bool.and_eq_true, cursor_blocked_iff, blockedByInterruption,
    hrunning, hawaiting, hblocked, hactive, hstate, Bool.not_eq_true', ← Bool.not_eq_true,
    driven_iff, Bool.and_eq_true, Bool.and_eq_true, Bool.or_eq_true, decide_eq_true_iff,
    decide_eq_true_iff, decide_eq_true_iff, decide_eq_true_iff, says_iff, says_iff]
  constructor
  · rintro ⟨⟨⟨⟨hrun, hwait⟩, hblock⟩, hfinished, htold⟩, hdriven⟩
    refine ⟨hfinished, fun stage hstage hstatus => ?_, hblock, htold, hdriven⟩
    by_contra hhit
    rcases hstatus with hstatus | hstatus
    · exact hrun ⟨stage, hstage, hstatus, hhit⟩
    · exact hwait ⟨stage, hstage, hstatus, hhit⟩
  · rintro ⟨hfinished, hidle, hblock, htold, hdriven⟩
    refine ⟨⟨⟨⟨?_, ?_⟩, hblock⟩, hfinished, htold⟩, hdriven⟩
    · rintro ⟨stage, hstage, hstatus, hhit⟩
      exact hhit (hidle stage hstage (.inl hstatus))
    · rintro ⟨stage, hstage, hstatus, hhit⟩
      exact hhit (hidle stage hstage (.inr hstatus))

/-- The stage the messages on the runs name. -/
theorem names_iff {key : Option StageKey} : t.recovered.namedStage = key ↔ t.Names key := by
  obtain ⟨-, -, -, hruns, -⟩ := recovered_keeps (t := t)
  let told := fun run : AgentRun => if run.interrupted then
    { run with status := .failed, stderr := interruptedRunMessage } else run
  let names := fun run : AgentRun => run.agentId ≠ triageAgentId &&
    t.recovered.stages.contains (run.stageKey, .blocked) &&
      (t.recovered.blockingIssues ≠ interruptedRunMessage || run.stderr = interruptedRunMessage)
  have hkeys : ∀ run, (told run).stageKey = run.stageKey ∧ (told run).agentId = run.agentId := by
    intro run
    simp only [told]
    split <;> exact ⟨rfl, rfl⟩
  have htold : ∀ run, (told run).stderr = interruptedRunMessage ↔
      run.Killed ∨ run.stderr = interruptedRunMessage := by
    intro run
    simp only [told, ← AgentRun.interrupted_iff]
    split
    · next h => simp [h]
    · next h => simp [h]
  have hmarked : ∀ run, (names ∘ told) run = true ↔ t.Marked run := by
    intro run
    simp only [names, Function.comp_apply, hkeys, Bool.and_eq_true, Bool.or_eq_true,
      decide_eq_true_iff, contains_eq_mem, recovered_blocked, says_iff, ne_eq, htold,
      ← imp_iff_not_or, Marked, and_assoc]
    exact Iff.rfl
  have hfound : ∀ k, t.recovered.namedStage = some k ↔ k ≠ "" ∧ ∃ before run after,
      t.runs = before ++ run :: after ∧ t.Marked run ∧ (∀ other ∈ after, ¬ t.Marked other) ∧
        run.stageKey = k := by
    intro k
    have hstage : t.recovered.interruptedStageKey =
        ((t.runs.reverse.find? (names ∘ told)).map told).map (·.stageKey) := by
      rw [← find?_map, map_reverse]
      show Option.map _ (List.find? _ t.recovered.runs.reverse) = _
      rw [hruns]
      rfl
    rw [namedStage, Option.filter_eq_some_iff, decide_eq_true_iff, and_comm, hstage,
      Option.map_map, Option.map_eq_some_iff]
    refine and_congr_right fun _ => ?_
    simp only [Function.comp_apply, hkeys]
    constructor
    · rintro ⟨run, hrun, rfl⟩
      obtain ⟨hmark, after, before, hsplit, hafter⟩ := find?_eq_some_iff_append.mp hrun
      refine ⟨before.reverse, run, after.reverse, ?_, (hmarked run).mp hmark, ?_, rfl⟩
      · rw [← reverse_reverse t.runs, hsplit]
        simp
      · intro other hother hmark'
        have hskip : (!(names ∘ told) other) = true := hafter other (mem_reverse.mp hother)
        rw [(hmarked other).mpr hmark'] at hskip
        cases hskip
    · rintro ⟨before, run, after, hsplit, hmark, hafter, rfl⟩
      refine ⟨run, find?_eq_some_iff_append.mpr ⟨(hmarked run).mpr hmark, after.reverse,
        before.reverse, by rw [hsplit]; simp, fun other hother => ?_⟩, rfl⟩
      show (!(names ∘ told) other) = true
      rw [Bool.eq_false_iff.mpr fun h =>
          hafter other (mem_reverse.mp hother) ((hmarked other).mp h)]
      rfl
  constructor
  · rintro rfl
    exact hfound
  · intro h
    refine Option.ext fun k => ?_
    rw [hfound k, h k]

/-- Of the newest orchestration the restart changes the status alone. -/
theorem latest_cases : t.recovered.latest = none ∧ t.orchestrations.getLast? = none ∨
    ∃ orch now, t.orchestrations.getLast? = some orch ∧ t.recovered.latest = some now ∧
      now.driver = orch.driver ∧ now.terms = orch.terms ∧
        now.cancelRequested = orch.cancelRequested := by
  obtain ⟨-, -, -, -, horchs⟩ := recovered_keeps (t := t)
  have hlatest : t.recovered.latest = (t.orchestrations.mapIdx _).getLast?.map
      Orchestration.toOrchestrationRun :=
    congrArg (·.getLast?.map Orchestration.toOrchestrationRun) horchs
  rw [getLast?_mapIdx] at hlatest
  cases hlast : t.orchestrations.getLast? with
  | none =>
    rw [hlast] at hlatest
    exact .inl ⟨hlatest, rfl⟩
  | some orch =>
    rw [hlast] at hlatest
    refine .inr ⟨orch, _, rfl, hlatest, ?_⟩
    dsimp only
    split <;> exact ⟨rfl, rfl, rfl⟩

/-! ## What it resumes -/

/-- The restart does not take the ticket up, or leaves its newest drive to somebody else. -/
def Left (t : Ticket) : Prop :=
  ¬ t.TakenUp ∨
    ∃ orch ∈ t.orchestrations.getLast?, orch.cancelRequested = true ∨ orch.driver = .externalMcp

/-- It takes up the newest drive, a builtin one on these terms. -/
def Drives (t : Ticket) (terms : DriveTerms) : Prop :=
  ¬ t.Left ∧
    ∃ orch ∈ t.orchestrations.getLast?, orch.driver = .builtinAutopilot ∧ orch.terms = terms

/-- No drive is newer than a stage run by hand, and the messages on the runs name `key`, if a
    stage at all. -/
def Manual (t : Ticket) (key : Option StageKey) : Prop :=
  ¬ t.Left ∧ (∀ orch ∈ t.orchestrations.getLast?, orch.driver = .manualStage) ∧ t.Names key

/-- The terms of a re-run of the stage. -/
def rerun (t : Ticket) (key : StageKey) : DriveTerms :=
  { (t.orchestrations.getLast?.map (·.terms)).getD {} with
    autoApprove := false, stopAtStageKey := some key }

/-- Nothing is resumed. -/
def Untouched (t : Ticket) : Prop := t.Left ∨ t.Manual none

/-- The stage is re-run and no other, or the newest drive is one that stops there. -/
def Alone (t : Ticket) (key : StageKey) : Prop :=
  t.Manual (some key) ∨ ∃ terms, t.Drives terms ∧ OnlyStage key terms

/-- A drive on these terms is resumed, or a stage re-run that has the same. -/
def Carries (t : Ticket) (terms : DriveTerms) : Prop :=
  t.Drives terms ∨ ∃ key, t.Manual (some key) ∧ t.rerun key = terms

/-- What is left gets no plan. -/
theorem resume_of_left (h : t.Left) : t.recovered.resumeInterrupted = none := by
  rw [resumeInterrupted]
  split
  · next hcandidate =>
    rcases h with h | ⟨orch, ho, hstop⟩
    · exact absurd (candidate_iff.mp hcandidate) h
    · have hplan : ∀ key, Interruption.resumePlan t.recovered.id t.recovered.latest key = none := by
        intro key
        rcases latest_cases (t := t) with ⟨-, hnone⟩ | ⟨_, now, ho', hnow, hdriver, -, hcancel⟩
        · cases hnone.symm.trans ho
        · cases ho'.symm.trans ho
          rw [hnow, Interruption.resumePlan]
          rcases hstop with h | h
          · simp [hcancel, h]
          · simp [hdriver, h]
      simp [resumePlan, hplan]
  · rfl

/-- A builtin drive is resumed on its own terms. -/
theorem resume_of_drives {terms : DriveTerms} (h : t.Drives terms) :
    t.recovered.resumeInterrupted = some { ticketId := t.id, terms } := by
  obtain ⟨hleft, orch, ho, hdriver, rfl⟩ := h
  obtain ⟨hcandidate, hstop⟩ := not_or.mp hleft
  have hcancel : orch.cancelRequested ≠ true := fun h => hstop ⟨orch, ho, .inl h⟩
  rcases latest_cases (t := t) with ⟨-, hnone⟩ | ⟨_, now, ho', hnow, hdriver', hterms, hcancel'⟩
  · cases hnone.symm.trans ho
  · cases ho'.symm.trans ho
    rw [resumeInterrupted, if_pos (candidate_iff.mpr (not_not.mp hcandidate)), resumePlan, hnow,
      Option.any_some, if_pos (decide_eq_true (hdriver'.trans hdriver)), Interruption.resumePlan]
    simp [hcancel', hcancel, hdriver', hdriver, hterms, (recovered_keeps (t := t)).2.1]

/-- A manual one, or none, is resumed by a re-run of the stage that is named. -/
theorem resume_of_manual {key : Option StageKey} (h : t.Manual key) :
    t.recovered.resumeInterrupted =
      key.map fun key => { ticketId := t.id, terms := t.rerun key } := by
  obtain ⟨hleft, hmanual, hnames⟩ := h
  obtain ⟨hcandidate, hstop⟩ := not_or.mp hleft
  have hplan : t.recovered.latest.any (·.driver = .builtinAutopilot) = false ∧
      Interruption.resumePlan t.recovered.id t.recovered.latest =
        fun key => some ⟨t.id, t.rerun key⟩ := by
    rw [(recovered_keeps (t := t)).2.1]
    rcases latest_cases (t := t) with ⟨hnone, hl⟩ | ⟨orch, now, hl, hnow, hdriver, hterms, hcancel⟩
    · refine ⟨by rw [hnone]; rfl, funext fun key => ?_⟩
      simp [Interruption.resumePlan, rerun, hl, hnone]
    · have hmanual := hmanual orch hl
      have hgoes : orch.cancelRequested ≠ true := fun h => hstop ⟨orch, hl, .inl h⟩
      refine ⟨by simp [hnow, hdriver, hmanual], funext fun key => ?_⟩
      simp [Interruption.resumePlan, rerun, hl, hnow, hdriver, hmanual, hcancel, hgoes, hterms]
  rw [resumeInterrupted, if_pos (candidate_iff.mpr (not_not.mp hcandidate)), resumePlan, hplan.1,
    hplan.2, names_iff.mpr hnames, Option.map_eq_bind]
  rfl

/-- There is nothing else. -/
theorem left_or_drives_or_manual (t : Ticket) :
    t.Left ∨ (∃ terms, t.Drives terms) ∨ ∃ key, t.Manual key := by
  by_cases h : t.Left
  · exact .inl h
  have hnames : t.Names t.recovered.namedStage := names_iff.mp rfl
  cases hl : t.orchestrations.getLast? with
  | none => exact .inr (.inr ⟨_, h, by simp [hl], hnames⟩)
  | some orch =>
    cases hd : orch.driver with
    | builtinAutopilot => exact .inr (.inl ⟨_, h, orch, hl, hd, rfl⟩)
    | externalMcp => exact absurd (.inr ⟨orch, hl, .inr hd⟩) h
    | manualStage => exact .inr (.inr ⟨_, h, by simp [hl, hd], hnames⟩)

/-- No plan is made where the ticket is untouched. -/
theorem resume_eq_none_iff : t.recovered.resumeInterrupted = none ↔ t.Untouched := by
  constructor
  · intro h
    rcases left_or_drives_or_manual t with hleft | ⟨terms, hd⟩ | ⟨key, hm⟩
    · exact .inl hleft
    · cases (resume_of_drives hd).symm.trans h
    · rw [resume_of_manual hm, Option.map_eq_none_iff] at h
      exact .inr (h ▸ hm)
  · rintro (hleft | hm)
    · exact resume_of_left hleft
    · exact resume_of_manual hm

/-- A plan carries its terms. -/
theorem resume_eq_some_iff {plan : InterruptionResume} :
    t.recovered.resumeInterrupted = some plan ↔ plan.ticketId = t.id ∧ t.Carries plan.terms := by
  constructor
  · intro h
    rcases left_or_drives_or_manual t with hleft | ⟨terms, hd⟩ | ⟨key, hm⟩
    · cases (resume_of_left hleft).symm.trans h
    · obtain rfl := Option.some.inj ((resume_of_drives hd).symm.trans h)
      exact ⟨rfl, .inl hd⟩
    · rw [resume_of_manual hm] at h
      obtain ⟨key, rfl, rfl⟩ := Option.map_eq_some_iff.mp h
      exact ⟨rfl, .inr ⟨key, hm, rfl⟩⟩
  · obtain ⟨id, terms⟩ := plan
    rintro ⟨rfl, hd | ⟨key, hm, rfl⟩⟩
    · exact resume_of_drives hd
    · exact resume_of_manual hm

/-- It re-runs one stage alone where the ticket says so. -/
theorem resume_only_iff {key : StageKey} :
    (∃ plan ∈ t.recovered.resumeInterrupted, OnlyStage key plan.terms) ↔ t.Alone key := by
  constructor
  · rintro ⟨plan, hplan, honly⟩
    rcases (resume_eq_some_iff.mp hplan).2 with hd | ⟨other, hm, hterms⟩
    · exact .inr ⟨_, hd, honly⟩
    · have hkey : some other = some key := by rw [← honly.1, ← hterms, rerun]
      exact .inl (hkey ▸ hm)
  · rintro (hm | ⟨terms, hd, honly⟩)
    · exact ⟨_, resume_of_manual hm, rfl, rfl⟩
    · exact ⟨_, resume_of_drives hd, honly⟩

end Ticket

/-- How the restart finds the ticket, for the run to be handed back. -/
def Kept (own : Option OrchestrationRun) (key : StageKey) (t : Ticket) : Prop :=
  match own with
  | none => t.Alone key
  | some own =>
    if own.cancelRequested ∨ own.status = .cancelled then t.Untouched
    else
      match own.driver with
      | .externalMcp => t.Untouched
      | .manualStage => t.Alone key
      | .builtinAutopilot => t.Untouched ∨ t.Alone key ∨ own.active ∧ t.Carries own.terms

/-- The orchestration a run belongs to, as the restart finds it. -/
def AgentRun.own (t : Ticket) (run : AgentRun) : Option OrchestrationRun :=
  (run.orchestration.bind (t.orchestrations[·]?)).map (·.toOrchestrationRun)

end Loregarden.Interruption
