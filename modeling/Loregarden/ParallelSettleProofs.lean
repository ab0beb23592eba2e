import Loregarden.ParallelSettleModel

/-! # A parallel stage settles once

Three things go wrong: a run that waits for a lane or a permission counts as settled; a completion
that came late is refused and then counts like any other; and a call counts after another has
completed its member. `Orderly` is what keeps all three away, and `reconciled_once` what every run
has that keeps to it. -/

namespace Loregarden.ParallelSettle

open Lanes (RunStatus)
open RunVerdict (Completion)
open Runs List

variable {stage : StageDef} {w : World} {runs : List AgentRun} {spec : MemberSpec}
variable {row : Nat} {old run : AgentRun}

/-! ## The newest runs -/

def Final (stage : StageDef) (runs : List AgentRun) : Prop :=
  ∀ spec ∈ stage.parallelAgents,
    ∃ run, latestMemberRun stage runs spec = some run ∧ run.status.live = false

def IsNewest (stage : StageDef) (runs : List AgentRun) (row : Nat) : Prop :=
  ∃ spec ∈ stage.parallelAgents, latestRow stage runs spec = some row

theorem latestRow_set (hold : runs[row]? = some old)
    (hagent : run.agentId = old.agentId) (hskill : run.skillName = old.skillName) :
    latestRow stage (runs.set row run) spec = latestRow stage runs spec := by
  have hsame : (fun other : Nat => (runs.set row run)[other]?.any (ofMember stage spec)) =
      fun other : Nat => runs[other]?.any (ofMember stage spec) := by
    funext other
    by_cases hrow : row = other
    · subst hrow
      have hlt : row < runs.length := (List.getElem?_eq_some_iff.mp hold).1
      rw [List.getElem?_set_self hlt, hold]
      simp [ofMember, hagent, hskill]
    · rw [List.getElem?_set_ne hrow]
  rw [latestRow, latestRow, hsame, length_set]

section

variable (h : Final stage runs) (hold : runs[row]? = some old) (hlive : old.status.live = true)
  (hagent : run.agentId = old.agentId) (hskill : run.skillName = old.skillName)
include h hold hlive hagent hskill

theorem Final.latest_set (hspec : spec ∈ stage.parallelAgents) :
    latestMemberRun stage (runs.set row run) spec = latestMemberRun stage runs spec := by
  obtain ⟨final, hfinal, hnotlive⟩ := h spec hspec
  rw [latestMemberRun, latestRow_set hold hagent hskill]
  obtain ⟨newest, hnewest, hrun⟩ := Option.bind_eq_some_iff.mp hfinal
  rw [latestMemberRun, hnewest]
  show (runs.set row run)[newest]? = runs[newest]?
  by_cases hrow : row = newest
  · subst hrow
    rw [Option.some_inj.mp (hrun.symm.trans hold), hlive] at hnotlive
    exact nomatch hnotlive
  · rw [List.getElem?_set_ne hrow]

theorem Final.set :
    Final stage (runs.set row run) := by
  intro spec hspec
  rw [h.latest_set hold hlive hagent hskill hspec]
  exact h spec hspec

end

theorem Final.newest (h : Final stage runs)
    (hrun : runs[row]? = some run) (hnewest : IsNewest stage runs row) :
    run.status.live = false := by
  obtain ⟨spec, hspec, hrow⟩ := hnewest
  obtain ⟨final, hfinal, hnotlive⟩ := h spec hspec
  rw [latestMemberRun, hrow] at hfinal
  rw [Option.some_inj.mp (hrun.symm.trans hfinal)]
  exact hnotlive

theorem memberResult_passes {judged : Judgement}
    (h : (memberResult run judged).failure = "") : run.status = .succeeded ∧ judged = .passed := by
  have hne : ∀ a b : String, a ++ ": " ++ b ≠ "" := by
    intro a b hblank
    have hlength := congrArg String.length hblank
    exact absurd hlength (by simp)
  unfold memberResult at h
  by_cases hstatus : run.status = .succeeded
  · refine ⟨hstatus, ?_⟩
    simp only [hstatus, ne_eq, not_true_eq_false, if_false] at h
    cases judged with
    | noReport =>
      have hlength := congrArg String.length h
      exact absurd hlength (by simp)
    | rejected context => exact absurd h (hne _ _)
    | passed => rfl
  · simp only [hstatus, ne_eq, not_false_eq_true, if_true] at h
    exact absurd h (hne _ _)

theorem outstanding_zero {judged : MemberSpec → Judgement}
    (h : (memberRunsAndResults stage runs judged).1 = 0) (hspec : spec ∈ stage.parallelAgents) :
    isOutstanding stage runs spec = false :=
  Bool.eq_false_iff.mpr (countP_eq_zero.mp h spec hspec)

theorem Final.mem_results (h : Final stage runs) (judged : MemberSpec → Judgement)
    (hspec : spec ∈ stage.parallelAgents) :
    ∃ run, latestMemberRun stage runs spec = some run ∧
      memberResult run (judged spec) ∈ (memberRunsAndResults stage runs judged).2 := by
  obtain ⟨run, hrun, hnotlive⟩ := h spec hspec
  refine ⟨run, hrun, mem_filterMap.mpr ⟨spec, mem_filter.mpr ⟨hspec, ?_⟩, ?_⟩⟩
  · rw [isOutstanding, hrun]
    show (!decide (run.status = .running)) = true
    rw [decide_eq_false]
    · rfl
    · intro hrunning
      rw [hrunning] at hnotlive
      exact nomatch hnotlive
  · rw [hrun]
    rfl

theorem results_congr {runs' : List AgentRun} (judged : MemberSpec → Judgement)
    (h : ∀ spec ∈ stage.parallelAgents,
      latestMemberRun stage runs' spec = latestMemberRun stage runs spec) :
    (memberRunsAndResults stage runs' judged).2 = (memberRunsAndResults stage runs judged).2 := by
  have hkept : (stage.parallelAgents.filter fun spec => !isOutstanding stage runs' spec) =
      stage.parallelAgents.filter fun spec => !isOutstanding stage runs spec := by
    refine filter_congr fun spec hspec => ?_
    rw [isOutstanding, isOutstanding, h spec hspec]
  show (List.filterMap _ _) = List.filterMap _ _
  rw [hkept]
  refine filterMap_congr fun spec hspec => ?_
  rw [h spec (mem_filter.mp hspec).1]

def Phase.isCompleted : Phase → Bool
  | .completed _ => true
  | _ => false

def Phase.isCounted : Phase → Bool
  | .counted _ _ => true
  | _ => false

/-- The stage was not reconciled in this pass, and no call is about to. -/
def Undecided (w : World) : Prop := w.settled = 0 ∧ ∀ call, (w.calls call).isCounted = false

/-- What keeps the three defects away. A pass does not start between a count that found nobody
    outstanding and its reconcile. Nobody writes the status of a final run. A call whose run is
    final already, or no longer its member's newest, comes before the stage is decided. And where a
    count finds nobody outstanding, no newest run waits for a lane or a permission, and every other
    call has counted. -/
def Orderly (stage : StageDef) (w : World) : Event → Prop
  | .fanOut _ _ => ∀ call, (w.calls call).isCounted = false
  | .write row _ _ => ∀ run, w.runs[row]? = some run → run.status.live = true
  | .complete _ row _ _ => Undecided w ∨
      ∃ run, w.runs[row]? = some run ∧ run.status.live = true ∧ IsNewest stage w.runs row
  | .count call judged =>
    (w.calls call).isCompleted = true → (memberRunsAndResults stage w.runs judged).1 = 0 →
      (∀ spec ∈ stage.parallelAgents, ∀ run, latestMemberRun stage w.runs spec = some run →
        run.status ≠ .queued ∧ run.status ≠ .awaitingPermission) ∧
      ∀ other, other ≠ call →
        (w.calls other).isCompleted = false ∧ (w.calls other).isCounted = false
  | .claim _ _ | .reconcile _ _ => True

/-- A record of a settlement of members that were all final. -/
structure Settled.Sound (stage : StageDef) (s : Settled) : Prop where
  members : s.newest.map Prod.fst = stage.parallelAgents
  final : ∀ m ∈ s.newest, ∃ run, m.2 = some run ∧ run.status.live = false
  passed : s.done = true →
    ∀ m ∈ s.newest, ∃ run, m.2 = some run ∧ run.status = .succeeded ∧ s.judged m.1 = .passed

structure Good (stage : StageDef) (w : World) : Prop where
  once : w.settled ≤ 1
  sound : ∀ s ∈ w.settlements, s.Sound stage
  decided : ¬ Undecided w → Final stage w.runs ∧ ∀ call, (w.calls call).isCompleted = false
  counted : ∀ call judged results, w.calls call = .counted judged results →
    w.settled = 0 ∧ results = (memberRunsAndResults stage w.runs judged).2 ∧
      ∀ other, other ≠ call → (w.calls other).isCounted = false

/-! ## One step -/

@[simp] theorem setCall_self (call : Nat) (phase : Phase) :
    (w.setCall call phase).calls call = phase := if_pos rfl

theorem setCall_ne {call other : Nat} (phase : Phase) (h : other ≠ call) :
    (w.setCall call phase).calls other = w.calls other := if_neg h

theorem Good.of_undecided (hundecided : Undecided w) (hsound : ∀ s ∈ w.settlements, s.Sound stage) :
    Good stage w where
  once := by rw [hundecided.1]; exact Nat.zero_le 1
  sound := hsound
  decided := fun h => absurd hundecided h
  counted := by
    intro call judged results hcall
    have hnone := hundecided.2 call
    rw [hcall] at hnone
    exact nomatch hnone

section

variable (h : Good stage w)
include h

theorem Good.setRun (hold : w.runs[row]? = some old) (hlive : old.status.live = true)
    (hagent : run.agentId = old.agentId) (hskill : run.skillName = old.skillName) :
    Good stage (w.setRun row run) where
  once := h.once
  sound := h.sound
  decided := by
    intro hdecided
    obtain ⟨hfinal, hcalls⟩ := h.decided hdecided
    exact ⟨hfinal.set hold hlive hagent hskill, hcalls⟩
  counted := by
    intro call judged results hcall
    obtain ⟨hsettled, hresults, hothers⟩ := h.counted call judged results hcall
    have hdecided : ¬ Undecided w := by
      intro hundecided
      have hnone := hundecided.2 call
      rw [show w.calls call = _ from hcall] at hnone
      exact nomatch hnone
    refine ⟨hsettled, hresults.trans ?_, hothers⟩
    exact (results_congr judged fun spec hspec =>
      (h.decided hdecided).1.latest_set hold hlive hagent hskill hspec).symm

theorem Good.setCall {call : Nat} {phase : Phase}
    (hbefore : (w.calls call).isCounted = false) (hcompleted : phase.isCompleted = false)
    (hcounted : phase.isCounted = false) : Good stage (w.setCall call phase) where
  once := h.once
  sound := h.sound
  decided := by
    intro hdecided
    have hold : ¬ Undecided w := by
      rintro ⟨hsettled, hnone⟩
      refine hdecided ⟨hsettled, fun other => ?_⟩
      by_cases hother : other = call
      · rw [hother, setCall_self]
        exact hcounted
      · rw [setCall_ne phase hother]
        exact hnone other
    obtain ⟨hfinal, hcalls⟩ := h.decided hold
    refine ⟨hfinal, fun other => ?_⟩
    by_cases hother : other = call
    · rw [hother, setCall_self]
      exact hcompleted
    · rw [setCall_ne phase hother]
      exact hcalls other
  counted := by
    intro other judged results hother
    have hne : other ≠ call := by
      rintro rfl
      rw [setCall_self] at hother
      rw [hother] at hcounted
      exact nomatch hcounted
    rw [setCall_ne phase hne] at hother
    obtain ⟨hsettled, hresults, hothers⟩ := h.counted other judged results hother
    refine ⟨hsettled, hresults, fun third hthird => ?_⟩
    by_cases hcall : third = call
    · rw [hcall, setCall_self]
      exact hcounted
    · rw [setCall_ne phase hcall]
      exact hothers third hthird

theorem Good.fanOut (opened : List (MemberSpec × Bool)) (orchestrated : Bool)
    (horderly : Orderly stage w (.fanOut opened orchestrated)) :
    Good stage (fanOut stage w opened orchestrated) := by
  unfold ParallelSettle.fanOut
  split
  · exact h
  · exact .of_undecided ⟨rfl, horderly⟩ h.sound

theorem Good.writeStatus (row : Nat) (status : RunStatus) (finished : Bool)
    (horderly : Orderly stage w (.write row status finished)) :
    Good stage (writeStatus w row status finished) := by
  unfold ParallelSettle.writeStatus
  split
  · rename_i run hrun
    exact h.setRun hrun (horderly run hrun) rfl rfl
  · exact h

theorem Good.claimSettlement (call row : Nat) : Good stage (claimSettlement w call row) := by
  unfold ParallelSettle.claimSettlement
  split
  · rename_i run hidle hrun
    have hbefore : (w.calls call).isCounted = false := by
      rw [hidle]
      rfl
    split
    · rename_i hguard
      have hlive : run.status.live = true := by
        rcases hguard.2 with hstatus | hstatus <;> rw [hstatus] <;> rfl
      have hset : Good stage (w.setRun row { run with finished := true }) :=
        h.setRun hrun hlive rfl rfl
      exact hset.setCall hbefore rfl rfl
    · exact h.setCall hbefore rfl rfl
  · exact h

theorem Good.completeMember (call row : Nat) (c : Completion) (when : String)
    (horderly : Orderly stage w (.complete call row c when)) :
    Good stage (completeMember w call row c when) := by
  have hundecided : Undecided w := by
    rcases horderly with hundecided | ⟨run, hrun, hlive, hnewest⟩
    · exact hundecided
    · by_contra hdecided
      have hfinal := (h.decided hdecided).1.newest hrun hnewest
      rw [hlive] at hfinal
      exact nomatch hfinal
  unfold ParallelSettle.completeMember
  split
  · split
    · refine .of_undecided ⟨hundecided.1, fun other => ?_⟩ h.sound
      by_cases hother : other = call
      · rw [hother, setCall_self]
        rfl
      · rw [setCall_ne _ hother]
        exact hundecided.2 other
    · exact h
  · exact h

theorem Good.countMembers (call : Nat) (judged : MemberSpec → Judgement)
    (horderly : Orderly stage w (.count call judged)) :
    Good stage (countMembers stage w call judged) := by
  unfold ParallelSettle.countMembers
  split
  · rename_i row hcall
    have hcompleted : (w.calls call).isCompleted = true := by
      rw [hcall]
      rfl
    split
    · rename_i hzero
      obtain ⟨hwaiting, hothers⟩ := horderly hcompleted hzero.1
      have hfinal : Final stage w.runs := by
        intro spec hspec
        have hcounted := outstanding_zero hzero.1 hspec
        rw [isOutstanding] at hcounted
        cases hlatest : latestMemberRun stage w.runs spec with
        | none =>
          rw [hlatest] at hcounted
          exact nomatch hcounted
        | some run =>
          rw [hlatest] at hcounted
          obtain ⟨hqueued, hawaiting⟩ := hwaiting spec hspec run hlatest
          have hrunning : run.status ≠ .running := of_decide_eq_false hcounted
          refine ⟨run, rfl, ?_⟩
          cases hstatus : run.status with
          | queued => exact absurd hstatus hqueued
          | running => exact absurd hstatus hrunning
          | awaitingPermission => exact absurd hstatus hawaiting
          | succeeded | failed | cancelled => rfl
      have hundecided : Undecided w := by
        by_contra hdecided
        have hnone := (h.decided hdecided).2 call
        rw [hcompleted] at hnone
        exact nomatch hnone
      refine ⟨h.once, h.sound, fun _ => ⟨hfinal, fun other => ?_⟩, ?_⟩
      · by_cases hother : other = call
        · rw [hother, setCall_self]
          rfl
        · rw [setCall_ne _ hother]
          exact (hothers other hother).1
      · intro other judged' results hcounted
        by_cases hother : other = call
        · subst hother
          rw [setCall_self] at hcounted
          injection hcounted with hjudged hresults
          subst hjudged
          refine ⟨hundecided.1, hresults.symm, fun third hthird => ?_⟩
          rw [setCall_ne _ hthird]
          exact (hothers third hthird).2
        · rw [setCall_ne _ hother] at hcounted
          have hnone := (hothers other hother).2
          rw [hcounted] at hnone
          exact nomatch hnone
    · refine h.setCall ?_ rfl rfl
      rw [hcall]
      rfl
  · exact h

theorem Good.reconcile (call : Nat) (commitError : Bool) :
    Good stage (reconcileParallelStage stage w call commitError) := by
  unfold reconcileParallelStage
  split
  · rename_i judged results hcall
    obtain ⟨hsettled, hresults, hothers⟩ := h.counted call judged results hcall
    have hdecided : ¬ Undecided w := by
      intro hundecided
      have hnone := hundecided.2 call
      rw [hcall] at hnone
      exact nomatch hnone
    obtain ⟨hfinal, hcalls⟩ := h.decided hdecided
    refine ⟨?_, ?_, fun _ => ⟨hfinal, fun other => ?_⟩, ?_⟩
    · show w.settled + 1 ≤ 1
      rw [hsettled]
    · intro s hs
      rcases mem_append.mp hs with hold | hnew
      · exact h.sound s hold
      · rw [mem_singleton.mp hnew]
        refine ⟨?_, ?_, ?_⟩
        · rw [map_map]
          exact map_id _
        · intro m hm
          obtain ⟨spec, hspec, rfl⟩ := mem_map.mp hm
          exact hfinal spec hspec
        · intro hdone m hm
          obtain ⟨spec, hspec, rfl⟩ := mem_map.mp hm
          obtain ⟨run, hrun, hresult⟩ := hfinal.mem_results judged hspec
          have hblank := all_eq_true.mp (Bool.and_eq_true_iff.mp hdone).1
            _ (mem_map_of_mem (hresults ▸ hresult))
          exact ⟨run, hrun, memberResult_passes (of_decide_eq_true hblank)⟩
    · by_cases hother : other = call
      · rw [hother]
        show (if call = call then Phase.over else _).isCompleted = false
        rw [if_pos rfl]
        rfl
      · show (if other = call then Phase.over else w.calls other).isCompleted = false
        rw [if_neg hother]
        exact hcalls other
    · intro other judged' results' hcounted
      by_cases hother : other = call
      · have hover : (if other = call then Phase.over else w.calls other) = _ := hcounted
        rw [if_pos hother] at hover
        exact nomatch hover
      · have hcounted : (if other = call then Phase.over else w.calls other) = _ := hcounted
        rw [if_neg hother] at hcounted
        have hnone := hothers other hother
        rw [hcounted] at hnone
        exact nomatch hnone
  · exact h

theorem Good.step (e : Event) (horderly : Orderly stage w e) : Good stage (step stage w e) := by
  cases e with
  | fanOut opened orchestrated => exact h.fanOut opened orchestrated horderly
  | write row status finished => exact h.writeStatus row status finished horderly
  | claim call row => exact h.claimSettlement call row
  | complete call row c when => exact h.completeMember call row c when horderly
  | count call judged => exact h.countMembers call judged horderly
  | reconcile call commitError => exact h.reconcile call commitError

end

/-- **A stage settles once a pass, and only from final runs**: in every orderly run of calls,
    passes and status writes, the stage is reconciled at most once since it fanned out; each
    time every member's newest run was final; and it became DONE only where each of these had
    succeeded and was judged to pass. -/
theorem reconciled_once {runs : List AgentRun} {tr : List Event}
    (hrun : Run (Guarded (Step stage) (Orderly stage)) { runs := runs } tr w) :
    w.settled ≤ 1 ∧ ∀ s ∈ w.settlements, s.newest.map Prod.fst = stage.parallelAgents ∧
      (∀ m ∈ s.newest, ∃ run, m.2 = some run ∧ run.status.live = false) ∧
      (s.done = true → ∀ m ∈ s.newest,
        ∃ run, m.2 = some run ∧ run.status = .succeeded ∧ s.judged m.1 = .passed) := by
  have hstart : Good stage { runs := runs } := .of_undecided ⟨rfl, fun _ => rfl⟩ nofun
  have hgood : Good stage w := by
    refine hrun.invariant ?_ hstart
    rintro s e t hs ⟨horderly, rfl⟩
    exact hs.step e horderly
  exact ⟨hgood.once, fun s hs =>
    ⟨(hgood.sound s hs).members, (hgood.sound s hs).final, (hgood.sound s hs).passed⟩⟩

def twoLenses : StageDef :=
  { parallelAgents := [⟨"reviewer", "design"⟩, ⟨"reviewer", "security"⟩] }

/-- Each lens finishes and counts, and the last of them settles the stage. -/
def bothFinish : List Event :=
  [.fanOut (twoLenses.parallelAgents.map fun spec => (spec, false)) true,
    .complete 0 0 { status := .succeeded } "", .count 0 fun _ => .passed,
    .complete 1 1 { status := .succeeded } "", .count 1 fun _ => .passed, .reconcile 1 false]

theorem reconciled_once_both : (bothFinish.foldl (step twoLenses) {}).settled ≤ 1 ∧
      (bothFinish.foldl (step twoLenses) {}).settlements.map Settled.done = [true] := by
  have hrun : Run (Guarded (Step twoLenses) (Orderly twoLenses)) {} bothFinish
      (bothFinish.foldl (step twoLenses) {}) := by
    refine .cons ⟨fun _ => rfl, rfl⟩ (.cons ⟨.inr ⟨_, rfl, rfl, ?_⟩, rfl⟩ (.cons ⟨?_, rfl⟩
      (.cons ⟨.inr ⟨_, rfl, rfl, ?_⟩, rfl⟩ (.cons ⟨?_, rfl⟩ (.cons ⟨trivial, rfl⟩ (.nil _))))))
    · exact ⟨⟨"reviewer", "design"⟩, by decide, by decide +kernel⟩
    · intro _ hzero
      exact absurd hzero (by decide +kernel)
    · exact ⟨⟨"reviewer", "security"⟩, by decide, by decide +kernel⟩
    · intro _ _
      refine ⟨by decide +kernel, fun other hother => ?_⟩
      cases other with
      | zero => exact ⟨rfl, rfl⟩
      | succ other =>
        cases other with
        | zero => exact absurd rfl hother
        | succ other => exact ⟨rfl, rfl⟩
  exact ⟨(reconciled_once hrun).1, by decide +kernel⟩

/-- A late finish settles the stage again, so do two that overlap, and a member that waits
    for a permission is settled without. -/
theorem settled_twice : (∃ w, Run (Step twoLenses) {}
        (bothFinish ++ [.complete 2 1 { status := .succeeded } "later",
          .count 2 fun _ => .passed, .reconcile 2 false]) w ∧ w.settled = 2) ∧
    (∃ w, Run (Step twoLenses) {}
        [.fanOut (twoLenses.parallelAgents.map fun spec => (spec, false)) true,
          .complete 0 0 { status := .succeeded } "", .complete 1 1 { status := .succeeded } "",
          .count 0 fun _ => .passed, .count 1 fun _ => .passed, .reconcile 0 false,
          .reconcile 1 false] w ∧ w.settled = 2) ∧
    ∃ w, Run (Step twoLenses) {}
        [.fanOut (twoLenses.parallelAgents.map fun spec => (spec, false)) true,
          .write 1 .awaitingPermission false, .complete 0 0 { status := .succeeded } "",
          .count 0 fun _ => .passed, .reconcile 0 false] w ∧ w.settled = 1 ∧
      ∃ s ∈ w.settlements, ∃ m ∈ s.newest, m.2.map AgentRun.status = some .awaitingPermission := by
  have hrun : ∀ tr, Run (Step twoLenses) {} tr (tr.foldl (step twoLenses) {}) :=
    fun tr => Run.of_foldl (fun _ _ => rfl) _ tr
  exact ⟨⟨_, hrun _, by decide +kernel⟩, ⟨_, hrun _, by decide +kernel⟩,
    _, hrun _, by decide +kernel, _, mem_singleton_self _, _, .tail _ (.head _),
    by decide +kernel⟩

end Loregarden.ParallelSettle
