import Loregarden.RejectionModel
import Loregarden.ReworkRouteProofs
import Mathlib.Algebra.Order.Ring.Unbundled.Rat
import Mathlib.Order.Lattice

/-! # When no rejection is lost

A rejection is kept where its context is in the round recorded for the stage the work goes back to,
and in what that stage is shown of its rounds, or in the message of a block (`Kept`). Three filters
over the same results decide otherwise: only reports that name a stage keep the failures from being
transient, only one of them says the round, and the failure of a run that failed is not its report.
`Heard` is when every rejection is kept, in terms of the runs, the template and the ledger; each of
its notions is shown to be what the code decides by (`lead_iff`, `message_iff`, `charged_iff`,
`goes_iff`, `over_iff`). -/

namespace Loregarden.Rejection

open Rework Text Ranked List
open Stages (WorkflowStageDef Transition pyStrip transitionWhen ordered previousStageKey
  routesForward rejectFallbackKey)
open Bool (eq_false_iff and_eq_true and_eq_true_iff not_eq_true')

variable {stages : List WorkflowStageDef} {transitions : List Transition} {times : Nat → Int}
  {ledger ledger' : Ledger} {stageKey unlinked commitSha context stage named message : String}
  {results : List ParallelMemberResult} {run : MemberRun} {runs : List MemberRun}
  {lead : Option StageReport}

/-- One round was recorded for the stage, its agent is shown it, and the context is in it. -/
def Recorded (ledger ledger' : Ledger) (stage context : String) : Prop :=
  ∃ (createdAt : Int) (fromStage round sha : String),
    ledger' = ledger ++ [⟨stage, createdAt, .feedback fromStage round sha⟩] ∧
      context.toList <:+: round.toList ∧
      (pyStrip context).toList <:+: (renderReworkFeedback ledger' stage).toList

/-- **The context of a rejection is kept.** -/
def Kept (ledger : Ledger) (out : Ledger × Outcome) (context : String) : Prop :=
  match out.2 with
  | .transient => False
  | .paused targetStage => Recorded ledger out.1 targetStage context
  | .sentBack toKey => Recorded ledger out.1 toKey context
  | .blocked message => context.toList <:+: message.toList

/-! ## What the members come to -/

/-- The run ends in a report that rejects the work: its own or, where it succeeded and is judged
    with its ticket, what the verdict makes of it. -/
inductive MemberRun.Rejects (stageKey : String) (run : MemberRun) : StageReport → Prop where
  | own {report : StageReport} (hreport : run.report = some report)
      (hrejecting : report.rejecting = true)
      (hunjudged : run.succeeded = false ∨ run.verdict = none) : Rejects stageKey run report
  | judged {report : StageReport} {verdict : StageVerdict} (hsucceeded : run.succeeded = true)
      (hreport : run.report = some report) (hverdict : run.verdict = some verdict)
      (hfailed : verdict.passed = false) :
      Rejects stageKey run (reportWithVerdict report verdict stageKey)

/-- Nothing is heard of the work: the infrastructure failed, or there is no report. -/
def MemberRun.Unheard (run : MemberRun) : Prop :=
  (run.succeeded = true ∧ run.report = none) ∨
    (run.succeeded = false ∧ run.transientFailure = true)

/-- What stands against the run among the failures, which is nothing where it passes. -/
inductive MemberRun.Against (stageKey : String) (run : MemberRun) : List String → Prop where
  | failed (hfailed : run.succeeded = false) :
      Against stageKey run [run.agentId ++ ": " ++ orElse run.stderr "agent run failed"]
  | missing (hsucceeded : run.succeeded = true) (hreport : run.report = none) :
      Against stageKey run [run.agentId ++ ": missing <<<LOREGARDEN_STAGE_REPORT>>> block"]
  | rejected {report : StageReport} (hsucceeded : run.succeeded = true)
      (hrejects : run.Rejects stageKey report) : Against stageKey run
        [run.agentId ++ ": " ++ orElse report.rerouteContext "agent reported failure"]
  | passed (hsucceeded : run.succeeded = true) (hreport : run.report ≠ none)
      (hpasses : ∀ report, ¬ run.Rejects stageKey report) : Against stageKey run []

/-- The text of all failures, and of the prerequisites that could not be linked. -/
def Message (stageKey : String) (runs : List MemberRun) (unlinked message : String) : Prop :=
  ∃ lines, Forall₂ (MemberRun.Against stageKey) runs lines ∧
    message = "; ".intercalate lines.flatten ++
      if unlinked = "" then "" else "; prerequisites that could not be linked: " ++ unlinked

/-- The rejection that says the round: the most confident of those that name a stage, the first of
    them; none where no rejection names one. -/
def Lead (stageKey : String) (runs : List MemberRun) : Option StageReport → Prop
  | none => ∀ run ∈ runs, ∀ report, run.Rejects stageKey report → report.rerouteToStage = ""
  | some report => report.rerouteToStage ≠ "" ∧ ∃ before run after,
      runs = before ++ run :: after ∧ run.Rejects stageKey report ∧
        (∀ other ∈ before, ∀ said, other.Rejects stageKey said → said.rerouteToStage ≠ "" →
          said.confidence < report.confidence) ∧
        ∀ other ∈ after, ∀ said, other.Rejects stageKey said → said.rerouteToStage ≠ "" →
          said.confidence ≤ report.confidence

/-- The stage it names, and what it says to it. -/
def namedBy (lead : Option StageReport) : String :=
  (lead.map StageReport.rerouteToStage).getD ""

def saidBy (lead : Option StageReport) : String := (lead.map StageReport.rerouteContext).getD ""

/-! ## Where the work goes -/

def orderedKeys (stages : List WorkflowStageDef) : List String :=
  (ordered stages).map (·.key)

/-- `previous` stands right before the stage, where the template first has that one. -/
def Before (stages : List WorkflowStageDef) (stageKey previous : String) : Prop :=
  ∃ above below, orderedKeys stages = above ++ previous :: stageKey :: below ∧
    stageKey ∉ above ∧ previous ≠ stageKey

/-- `named` is a stage of the template, and first stands no later than the stage. -/
def Behind (stages : List WorkflowStageDef) (stageKey named : String) : Prop :=
  named ∈ stages.map (·.key) ∧ ¬ ∃ above below, orderedKeys stages = above ++ stageKey :: below ∧
    stageKey ∉ above ∧ named ∉ above ∧ named ≠ stageKey ∧ named ∈ below

/-- The first of the transitions that take a reject of the stage, where it has a target. -/
def Sends (transitions : List Transition) (stageKey : String) (route : Transition) : Prop :=
  route.target ≠ "" ∧ route.source = some stageKey ∧ transitionWhen route = "reject" ∧
    ∃ above below, transitions = above ++ route :: below ∧
      ∀ other ∈ above, ¬ (other.source = some stageKey ∧ transitionWhen other = "reject")

/-- The stage a round is recorded for; none where there is nothing before the stage. -/
inductive Charged (stages : List WorkflowStageDef) (transitions : List Transition)
    (stageKey named : String) : String → Prop where
  | named (hnamed : named ≠ "") : Charged stages transitions stageKey named named
  | template {route : Transition} (hnamed : named = "")
      (hsends : Sends transitions stageKey route) :
      Charged stages transitions stageKey named route.target
  | back {previous : String} (hnamed : named = "") (hnone : ∀ t, ¬ Sends transitions stageKey t)
      (hbefore : Before stages stageKey previous) :
      Charged stages transitions stageKey named previous
  | nothing (hnamed : named = "") (hnone : ∀ t, ¬ Sends transitions stageKey t)
      (hfirst : ∀ previous, ¬ Before stages stageKey previous) :
      Charged stages transitions stageKey named ""

/-- The stage the work goes back to. -/
inductive Goes (stages : List WorkflowStageDef) (transitions : List Transition)
    (stageKey named : String) : String → Prop where
  | named (hnamed : named ≠ "") (hbehind : Behind stages stageKey named) :
      Goes stages transitions stageKey named named
  | template {route : Transition} (hrefused : named ≠ "" → ¬ Behind stages stageKey named)
      (hsends : Sends transitions stageKey route)
      (hpinned : pyStrip route.agentId = "" ∨ route.target ∈ stages.map (·.key) ∨
        stageKey ∈ stages.map (·.key)) : Goes stages transitions stageKey named route.target
  | back {previous : String} (hrefused : named ≠ "" → ¬ Behind stages stageKey named)
      (hnone : ∀ t, ¬ Sends transitions stageKey t) (hbefore : Before stages stageKey previous)
      (hprevious : previous ≠ "") : Goes stages transitions stageKey named previous

/-! ## When the loop of its rounds is over -/

/-- The rounds of the stage. -/
def rounds (ledger : Ledger) (target : String) : List Artifact :=
  ledger.filter fun row => row.isFeedback && row.targetStage = target

/-- No budget of the stage was given back at the time of the round or since. -/
def Counts (ledger : Ledger) (target : String) (row : Artifact) : Prop :=
  ∀ reset ∈ ledger, reset.isFeedback = false → reset.targetStage = target →
    reset.createdAt < row.createdAt

instance (ledger : Ledger) (target : String) : DecidablePred (Counts ledger target) :=
  fun row => inferInstanceAs (Decidable (∀ reset ∈ ledger, reset.isFeedback = false →
    reset.targetStage = target → reset.createdAt < row.createdAt))

/-- `row` is the latest of the rows, `others` the rest of them. -/
def Latest (rows : List Artifact) (row : Artifact) (others : List Artifact) : Prop :=
  ∃ before after, rows = before ++ row :: after ∧ others = before ++ after ∧
    (∀ other ∈ before, other.createdAt ≤ row.createdAt) ∧
      ∀ other ∈ after, other.createdAt < row.createdAt

/-- The last two rounds found the same against the same commit. -/
def Repeats (rows : List Artifact) : Prop :=
  ∃ newest others previous rest, Latest rows newest others ∧ Latest others previous rest ∧
    newest.commitSha ≠ "" ∧ newest.commitSha = previous.commitSha ∧
      newest.context = previous.context ∧ previous.context ≠ ""

/-- With this round the loop of the stage is over: its budget was spent, or it repeats itself. -/
def Over (times : Nat → Int) (ledger : Ledger) (stageKey commitSha round target : String) : Prop :=
  target ≠ "" ∧ (3 ≤ ((rounds ledger target).filter (Counts ledger target)).length ∨
    Repeats (rounds ledger target ++
      [⟨target, times ledger.length, .feedback stageKey round commitSha⟩]))

/-- The text stands within the first 2000 characters of the message. -/
def Fits (context message : String) : Prop :=
  ∃ before after, message.toList = before ++ context.toList ++ after ∧
    before.length + context.toList.length ≤ 2000

section

variable (stages : List WorkflowStageDef) (transitions : List Transition) (times : Nat → Int)
  (ledger : Ledger) (stageKey commitSha : String) (runs : List MemberRun)
  (lead : Option StageReport) (message : String)

/-- The round ends the loop of the stage it is recorded for. -/
def Stopped : Prop :=
  ∃ target, Charged stages transitions stageKey (namedBy lead) target ∧
    Over times ledger stageKey commitSha (orElse (saidBy lead) message) target

/-- There is nowhere to send the work: the ticket has no workflow, or the stage has no way back
    and its loop is not over. -/
def Nowhere : Prop :=
  stages = [] ∨ (¬ Stopped stages transitions times ledger stageKey commitSha lead message ∧
    ∀ dest, ¬ Goes stages transitions stageKey (namedBy lead) dest)

/-- **Every rejection is heard**, where `lead` says the round and `message` the failures. -/
structure Heard : Prop where
  /-- A rejecting report names a stage, where nothing is heard of a member. -/
  named : lead ≠ none ∨ ∀ run ∈ runs, ¬ run.Unheard
  /-- The failures fit in the message of a block, as far as they hold a rejection. -/
  fits : Nowhere stages transitions times ledger stageKey commitSha lead message →
    ∀ run ∈ runs, ∀ report, run.Rejects stageKey report → Fits report.rerouteContext message
  /-- The report that says the round says what the others do. -/
  leads : ¬ Nowhere stages transitions times ledger stageKey commitSha lead message →
    saidBy lead ≠ "" → ∀ run ∈ runs, ∀ report, run.Rejects stageKey report →
      report.rerouteContext.toList <:+: (saidBy lead).toList
  /-- Where the failures say the round, the rejecting report of a failed run is in them. -/
  failed : ¬ Nowhere stages transitions times ledger stageKey commitSha lead message →
    saidBy lead = "" → ∀ run ∈ runs, run.succeeded = false →
      ∀ report, run.Rejects stageKey report →
        report.rerouteContext.toList <:+: message.toList
  /-- Work that is sent back goes where that report said. -/
  honoured : ¬ Nowhere stages transitions times ledger stageKey commitSha lead message →
    ¬ Stopped stages transitions times ledger stageKey commitSha lead message →
      namedBy lead ≠ "" → Goes stages transitions stageKey (namedBy lead) (namedBy lead)

end

/-! ## The code decides by these -/

theorem rejects_iff {report : StageReport} : run.Rejects stageKey report ↔
    (memberResult stageKey run).report = some report ∧ report.rejecting = true := by
  rw [memberResult]
  constructor
  · intro hrejects
    cases hrejects with
    | own hreport hrejecting hunjudged =>
      split
      · rename_i hsucceeded
        have hverdict : run.verdict = none := hunjudged.resolve_left fun hfailed => by
          rw [hfailed] at hsucceeded
          exact Bool.noConfusion hsucceeded
        rw [hreport, hverdict]
        exact ⟨rfl, hrejecting⟩
      · exact ⟨hreport, hrejecting⟩
    | judged hsucceeded hreport hverdict hfailed =>
      rw [if_pos hsucceeded, hreport, hverdict]
      exact ⟨rfl, by simp [reportWithVerdict, hfailed]⟩
  · rintro ⟨hreport, hrejecting⟩
    split at hreport
    · rename_i hsucceeded
      cases hown : run.report with
      | none =>
        rw [hown] at hreport
        cases hreport
      | some own =>
        rw [hown] at hreport
        cases hverdict : run.verdict with
        | none =>
          rw [hverdict] at hreport
          obtain rfl := Option.some.inj hreport
          exact .own hown hrejecting (.inr hverdict)
        | some verdict =>
          rw [hverdict] at hreport
          obtain rfl := Option.some.inj hreport
          refine .judged hsucceeded hown hverdict ?_
          simpa [reportWithVerdict] using hrejecting
    · rename_i hfailed
      exact .own hreport hrejecting (.inl (eq_false_iff.mpr hfailed))

theorem unheard_iff : run.Unheard ↔ (memberResult stageKey run).transient = true := by
  rw [MemberRun.Unheard, memberResult]
  cases run.succeeded with
  | false => simp
  | true =>
    cases run.report with
    | none => simp
    | some report => cases run.verdict <;> simp [judgedResult]

theorem MemberRun.Rejects.report_ne {report : StageReport} (h : run.Rejects stageKey report) :
    run.report ≠ none := by
  cases h with
  | own hreport | judged _ hreport => simp [hreport]

theorem MemberRun.Rejects.unique {report other : StageReport} (h : run.Rejects stageKey report)
    (h' : run.Rejects stageKey other) : report = other :=
  Option.some.inj ((rejects_iff.mp h).1.symm.trans (rejects_iff.mp h').1)

theorem MemberRun.Against.unique {lines lines' : List String} (h : run.Against stageKey lines)
    (h' : run.Against stageKey lines') : lines = lines' := by
  cases h with
  | failed hfailed =>
    cases h' with
    | failed => rfl
    | missing hsucceeded | rejected hsucceeded | passed hsucceeded => simp [hfailed] at hsucceeded
  | missing hsucceeded hreport =>
    cases h' with
    | failed hfailed => simp [hfailed] at hsucceeded
    | missing => rfl
    | rejected _ hrejects => exact absurd hreport hrejects.report_ne
    | passed _ hne => exact absurd hreport hne
  | rejected hsucceeded hrejects =>
    cases h' with
    | failed hfailed => simp [hfailed] at hsucceeded
    | missing _ hreport => exact absurd hreport hrejects.report_ne
    | rejected _ hother => rw [hrejects.unique hother]
    | passed _ _ hpasses => exact absurd hrejects (hpasses _)
  | passed hsucceeded hne hpasses =>
    cases h' with
    | failed hfailed => simp [hfailed] at hsucceeded
    | missing _ hreport => exact absurd hreport hne
    | rejected _ hrejects => exact absurd hrejects (hpasses _)
    | passed => rfl

/-- The failure of a run, as the code has it. -/
def failureLines (stageKey : String) (run : MemberRun) : List String :=
  if (memberResult stageKey run).failure = "" then [] else [(memberResult stageKey run).failure]

theorem failureLines_of {reason : String}
    (h : (memberResult stageKey run).failure = run.agentId ++ ": " ++ reason) :
    failureLines stageKey run = [run.agentId ++ ": " ++ reason] := by
  have hne : run.agentId ++ ": " ++ reason ≠ "" := by
    intro hempty
    have hlength := congrArg (fun s => s.toList.length) hempty
    simp at hlength
  rw [failureLines, h, if_neg hne]

theorem judged_against {report : StageReport} (hsucceeded : run.succeeded = true)
    (hresult : memberResult stageKey run = judgedResult run.agentId report)
    (hreport : run.report ≠ none) : run.Against stageKey (failureLines stageKey run) := by
  have hfailure : (memberResult stageKey run).failure = if report.rejecting then
      run.agentId ++ ": " ++ orElse report.rerouteContext "agent reported failure" else "" := by
    rw [hresult]
    rfl
  have hsame : (memberResult stageKey run).report = some report := by
    rw [hresult]
    rfl
  by_cases hrejecting : report.rejecting = true
  · rw [if_pos hrejecting] at hfailure
    rw [failureLines_of hfailure]
    exact .rejected hsucceeded (rejects_iff.mpr ⟨hsame, hrejecting⟩)
  · rw [failureLines, hfailure, if_neg hrejecting, if_pos rfl]
    refine .passed hsucceeded hreport fun other hother => hrejecting ?_
    obtain ⟨hother, hrejects⟩ := rejects_iff.mp hother
    exact Option.some.inj (hsame.symm.trans hother) ▸ hrejects

theorem failureLines_against (stageKey : String) (run : MemberRun) :
    run.Against stageKey (failureLines stageKey run) := by
  by_cases hsucceeded : run.succeeded = true
  · cases hreport : run.report with
    | none =>
      have hfailure : (memberResult stageKey run).failure =
          run.agentId ++ ": " ++ "missing <<<LOREGARDEN_STAGE_REPORT>>> block" := by
        rw [memberResult, if_pos hsucceeded, hreport, String.append_assoc]
        rfl
      rw [failureLines_of hfailure, String.append_assoc]
      exact .missing hsucceeded hreport
    | some report =>
      have hne : run.report ≠ none := by simp [hreport]
      cases hverdict : run.verdict with
      | none =>
        refine @judged_against _ _ report hsucceeded ?_ hne
        rw [memberResult, if_pos hsucceeded, hreport, hverdict]
      | some verdict =>
        refine @judged_against _ _ (reportWithVerdict report verdict stageKey) hsucceeded ?_ hne
        rw [memberResult, if_pos hsucceeded, hreport, hverdict]
  · have hfailure : (memberResult stageKey run).failure =
        run.agentId ++ ": " ++ orElse run.stderr "agent run failed" := by
      rw [memberResult, if_neg hsucceeded]
    rw [failureLines_of hfailure]
    exact .failed (eq_false_iff.mpr hsucceeded)

theorem against_iff {lines : List String} :
    run.Against stageKey lines ↔ lines = failureLines stageKey run := by
  constructor
  · exact fun h => h.unique (failureLines_against stageKey run)
  · rintro rfl
    exact failureLines_against stageKey run

theorem lines_iff {lines : List (List String)} :
    Forall₂ (MemberRun.Against stageKey) runs lines ↔ lines = runs.map (failureLines stageKey) := by
  induction runs generalizing lines with
  | nil => rw [forall₂_nil_left_iff, map_nil]
  | cons run runs ih =>
    rw [forall₂_cons_left_iff]
    simp only [against_iff, ih, map_cons]
    constructor
    · rintro ⟨_, _, rfl, rfl, rfl⟩
      rfl
    · rintro rfl
      exact ⟨_, _, rfl, rfl, rfl⟩

theorem message_iff : Message stageKey runs unlinked message ↔
    failureMessage (memberResults stageKey runs) unlinked = message := by
  have hflatten : (runs.map (failureLines stageKey)).flatten =
      ((memberResults stageKey runs).map ParallelMemberResult.failure).filter
        fun failure => failure ≠ "" := by
    rw [memberResults, map_map]
    induction runs with
    | nil => rfl
    | cons run runs ih =>
      rw [map_cons, flatten_cons, ih, map_cons, filter_cons]
      by_cases hempty : (memberResult stageKey run).failure = ""
      · simp [failureLines, hempty]
      · simp [failureLines, hempty]
  have hmessage : failureMessage (memberResults stageKey runs) unlinked =
      "; ".intercalate (runs.map (failureLines stageKey)).flatten ++
        if unlinked = "" then "" else "; prerequisites that could not be linked: " ++ unlinked := by
    rw [hflatten, failureMessage]
    split
    · exact String.append_empty.symm
    · exact String.append_assoc
  rw [Message, hmessage]
  constructor
  · rintro ⟨lines, hforall, rfl⟩
    rw [lines_iff.mp hforall]
  · rintro rfl
    exact ⟨_, lines_iff.mpr rfl, rfl⟩

/-- The rejection of a run that names a stage, as the code has it. -/
def offered (stageKey : String) (run : MemberRun) : Option StageReport :=
  (memberResult stageKey run).report.filter fun report =>
    report.rejecting && report.rerouteToStage ≠ ""

theorem offered_iff {report : StageReport} : offered stageKey run = some report ↔
    run.Rejects stageKey report ∧ report.rerouteToStage ≠ "" := by
  rw [offered, Option.filter_eq_some_iff, rejects_iff, and_eq_true, decide_eq_true_iff]
  exact ⟨fun ⟨hreport, hrejecting, hne⟩ => ⟨⟨hreport, hrejecting⟩, hne⟩,
    fun ⟨⟨hreport, hrejecting⟩, hne⟩ => ⟨hreport, hrejecting, hne⟩⟩

theorem rejectingReports_eq (stageKey : String) (runs : List MemberRun) :
    rejectingReports (memberResults stageKey runs) =
      ranked (fun report => OrderDual.toDual report.confidence)
        (runs.filterMap (offered stageKey)) := by
  have hrows : ((memberResults stageKey runs).filterMap ParallelMemberResult.report).filter
      (fun report => report.rejecting && report.rerouteToStage ≠ "") =
        runs.filterMap (offered stageKey) := by
    rw [memberResults, filterMap_map, filter_filterMap]
    rfl
  rw [rejectingReports, hrows]
  rfl

/-- **The rejection that says the round** is the first of the ranked ones. -/
theorem lead_iff : Lead stageKey runs lead ↔
    (rejectingReports (memberResults stageKey runs)).head? = lead := by
  rw [rejectingReports_eq]
  cases lead with
  | none =>
    rw [head?_eq_none_iff, ← length_eq_zero_iff, length_ranked, length_eq_zero_iff,
      filterMap_eq_nil_iff]
    refine forall₂_congr fun run _ => ?_
    constructor
    · intro hunnamed
      rw [Option.eq_none_iff_forall_ne_some]
      intro report hoffered
      obtain ⟨hrejects, hne⟩ := offered_iff.mp hoffered
      exact hne (hunnamed report hrejects)
    · intro hnone report hrejects
      by_contra hne
      rw [offered_iff.mpr ⟨hrejects, hne⟩] at hnone
      cases hnone
  | some report =>
    rw [head?_ranked_iff]
    constructor
    · rintro ⟨hne, before, run, after, rfl, hrejects, hbefore, hafter⟩
      refine ⟨before.filterMap (offered stageKey), after.filterMap (offered stageKey), ?_, ?_, ?_⟩
      · rw [filterMap_append, filterMap_cons_some (offered_iff.mpr ⟨hrejects, hne⟩)]
      · intro said hsaid
        obtain ⟨other, hother, hoffered⟩ := mem_filterMap.mp hsaid
        obtain ⟨hrejects, hnames⟩ := offered_iff.mp hoffered
        exact OrderDual.toDual_lt_toDual.mpr (hbefore other hother said hrejects hnames)
      · intro said hsaid
        obtain ⟨other, hother, hoffered⟩ := mem_filterMap.mp hsaid
        obtain ⟨hrejects, hnames⟩ := offered_iff.mp hoffered
        exact OrderDual.toDual_le_toDual.mpr (hafter other hother said hrejects hnames)
    · rintro ⟨front, back, hrows, hfront, hback⟩
      obtain ⟨first, rest, rfl, rfl, hrest⟩ := filterMap_eq_append_iff.mp hrows
      obtain ⟨silent, run, after, rfl, hsilent, hoffered, rfl⟩ := filterMap_eq_cons_iff.mp hrest
      obtain ⟨hrejects, hne⟩ := offered_iff.mp hoffered
      refine ⟨hne, first ++ silent, run, after, (append_assoc _ _ _).symm, hrejects, ?_, ?_⟩
      · intro other hother said hrejects hnames
        have hsaid := offered_iff.mpr ⟨hrejects, hnames⟩
        rcases mem_append.mp hother with hother | hother
        · exact OrderDual.toDual_lt_toDual.mp (hfront said (mem_filterMap.mpr ⟨_, hother, hsaid⟩))
        · rw [hsilent other hother] at hsaid
          cases hsaid
      · intro other hother said hrejects hnames
        exact OrderDual.toDual_le_toDual.mp
          (hback said (mem_filterMap.mpr ⟨_, hother, offered_iff.mpr ⟨hrejects, hnames⟩⟩))

theorem fits_iff : Fits context message ↔ context.toList <:+: (cut message).toList := by
  rw [cut, String.toList_ofList]
  constructor
  · rintro ⟨before, after, hmessage, hlength⟩
    refine ⟨before, after.take (2000 - (before ++ context.toList).length), ?_⟩
    have hwhole : (before ++ context.toList).take 2000 = before ++ context.toList :=
      take_of_length_le (by rw [length_append]; exact hlength)
    rw [hmessage, take_append, hwhole]
  · rintro ⟨before, after, hmessage⟩
    refine ⟨before, after ++ message.toList.drop 2000, ?_, ?_⟩
    · rw [← append_assoc, hmessage, take_append_drop]
    · have hlength := congrArg List.length hmessage
      have hle := length_take_le 2000 message.toList
      simp only [length_append] at hlength
      omega

/-! ### The template -/

theorem idxOf?_eq_some_iff_append {keys : List String} {key : String} {n : Nat} :
    keys.idxOf? key = some n ↔
      ∃ above below, keys = above ++ key :: below ∧ key ∉ above ∧ above.length = n := by
  induction keys generalizing n with
  | nil => simp
  | cons first keys ih =>
    rw [idxOf?_cons]
    by_cases hfirst : first = key
    · subst hfirst
      simp only [beq_self_eq_true, if_true]
      constructor
      · intro hn
        obtain rfl := Option.some.inj hn
        exact ⟨[], keys, rfl, not_mem_nil, rfl⟩
      · rintro ⟨above, below, hkeys, habove, rfl⟩
        cases above with
        | nil => rfl
        | cons other above =>
          exact absurd mem_cons_self ((cons_eq_cons.mp hkeys).1 ▸ habove)
    · rw [if_neg (by simpa using hfirst), Option.map_eq_some_iff]
      constructor
      · rintro ⟨m, hm, rfl⟩
        obtain ⟨above, below, rfl, habove, rfl⟩ := ih.mp hm
        exact ⟨first :: above, below, rfl, by simp [habove, Ne.symm hfirst], rfl⟩
      · rintro ⟨above, below, hkeys, habove, rfl⟩
        cases above with
        | nil => exact absurd (cons_eq_cons.mp hkeys).1 hfirst
        | cons other above =>
          obtain ⟨rfl, rfl⟩ := cons_eq_cons.mp hkeys
          rw [mem_cons, not_or] at habove
          exact ⟨above.length, ih.mpr ⟨above, below, rfl, habove.2, rfl⟩, rfl⟩

theorem before_iff {previous : String} :
    Before stages stageKey previous ↔ previousStageKey stages stageKey = some previous := by
  have hprevious : previousStageKey stages stageKey = some previous ↔
      ∃ n, (orderedKeys stages).idxOf? stageKey = some (n + 1) ∧
        (orderedKeys stages)[n]? = some previous := by
    have hindex : Stages.stageIndex stages stageKey = (orderedKeys stages).idxOf? stageKey := rfl
    rw [previousStageKey, hindex, ← orderedKeys]
    split
    · rename_i n hn
      simp [hn]
    · rename_i hnone
      constructor
      · intro h
        cases h
      · rintro ⟨n, hn, -⟩
        exact (hnone n hn).elim
  rw [hprevious]
  constructor
  · rintro ⟨above, below, hkeys, habove, hne⟩
    refine ⟨above.length, idxOf?_eq_some_iff_append.mpr
      ⟨above ++ [previous], below, ?_, ?_, length_append⟩, ?_⟩
    · rw [hkeys, append_assoc]
      rfl
    · simp [habove, Ne.symm hne]
    · rw [hkeys, getElem?_append_right le_rfl, Nat.sub_self]
      rfl
  · rintro ⟨n, hn, hget⟩
    obtain ⟨before, below, hkeys, hbefore, hlength⟩ := idxOf?_eq_some_iff_append.mp hn
    rcases before.eq_nil_or_concat' with rfl | ⟨above, last, rfl⟩
    · cases hlength
    · rw [length_append, length_singleton, Nat.add_right_cancel_iff] at hlength
      rw [append_assoc] at hkeys
      rw [hkeys, ← hlength, getElem?_append_right le_rfl, Nat.sub_self] at hget
      obtain rfl : last = previous := Option.some.inj hget
      rw [mem_append, not_or, mem_singleton] at hbefore
      exact ⟨above, below, hkeys, hbefore.1, fun h => hbefore.2 h.symm⟩

theorem routesForward_iff : routesForward stages stageKey named = true ↔
    ∃ above below, orderedKeys stages = above ++ stageKey :: below ∧
      stageKey ∉ above ∧ named ∉ above ∧ named ≠ stageKey ∧ named ∈ below := by
  have hplaces : routesForward stages stageKey named = true ↔
      ∃ i j, (orderedKeys stages).idxOf? stageKey = some i ∧
        (orderedKeys stages).idxOf? named = some j ∧ i < j := by
    rw [routesForward, Stages.stageIndex, Stages.stageIndex, ← orderedKeys]
    cases (orderedKeys stages).idxOf? stageKey with
    | none => simp
    | some i => cases (orderedKeys stages).idxOf? named <;> simp
  rw [hplaces]
  constructor
  · rintro ⟨i, j, hi, hj, hlt⟩
    obtain ⟨above, below, hkeys, habove, rfl⟩ := idxOf?_eq_some_iff_append.mp hi
    obtain ⟨before, after, hkeys', hbefore, rfl⟩ := idxOf?_eq_some_iff_append.mp hj
    have hfront : above ++ [stageKey] <+: before := by
      refine prefix_of_prefix_length_le ⟨below, ?_⟩ ⟨named :: after, hkeys'.symm⟩ ?_
      · rw [append_assoc, hkeys]
        rfl
      · rw [length_append]
        exact hlt
    have hnamed : named ∉ above ++ [stageKey] := fun h => hbefore (hfront.subset h)
    rw [mem_append, not_or, mem_singleton] at hnamed
    refine ⟨above, below, hkeys, habove, hnamed.1, hnamed.2, ?_⟩
    have hmem : named ∈ orderedKeys stages := hkeys' ▸ mem_append_right _ mem_cons_self
    rw [hkeys, mem_append, mem_cons] at hmem
    exact (hmem.resolve_left hnamed.1).resolve_left hnamed.2
  · rintro ⟨above, below, hkeys, habove, hnamed, hne, hbelow⟩
    obtain ⟨between, after, rfl, hbetween⟩ := eq_append_cons_of_mem hbelow
    refine ⟨_, _, idxOf?_eq_some_iff_append.mpr ⟨above, _, hkeys, habove, rfl⟩,
      idxOf?_eq_some_iff_append.mpr
        ⟨above ++ stageKey :: between, after, ?_, ?_, length_append⟩, ?_⟩
    · rw [hkeys, append_assoc]
      rfl
    · simp [hnamed, hne, hbetween]
    · rw [length_cons]
      omega

theorem behind_iff : Behind stages stageKey named ↔ validTarget stages stageKey named = true := by
  rw [Behind, validTarget, and_eq_true, decide_eq_true_iff, not_eq_true', ← routesForward_iff,
    Bool.not_eq_true]

theorem sends_iff {route : String × String} : rejectTransition transitions stageKey = some route ↔
    ∃ t, Sends transitions stageKey t ∧ (t.target, t.agentId) = route := by
  have hfind : ∀ t, transitions.find? (fun t =>
      t.source = some stageKey ∧ transitionWhen t = "reject") = some t ∧ t.target ≠ "" ↔
        Sends transitions stageKey t := by
    intro t
    rw [find?_eq_some_iff_append, Sends]
    simp only [decide_eq_true_iff, not_eq_true', decide_eq_false_iff_not]
    constructor
    · rintro ⟨⟨⟨hsource, hwhen⟩, hfirst⟩, htarget⟩
      exact ⟨htarget, hsource, hwhen, hfirst⟩
    · rintro ⟨htarget, hsource, hwhen, hfirst⟩
      exact ⟨⟨⟨hsource, hwhen⟩, hfirst⟩, htarget⟩
  simp only [← hfind]
  rw [rejectTransition_eq]
  cases hsome : transitions.find? fun t =>
      t.source = some stageKey ∧ transitionWhen t = "reject" with
  | none => simp
  | some t =>
    rw [Option.map_some, Option.filter_eq_some_iff]
    constructor
    · rintro ⟨hroute, hne⟩
      obtain rfl := Option.some.inj hroute
      exact ⟨t, ⟨rfl, of_decide_eq_true hne⟩, rfl⟩
    · rintro ⟨_, ⟨hsame, hne⟩, rfl⟩
      obtain rfl := Option.some.inj hsame
      exact ⟨rfl, decide_eq_true hne⟩

theorem none_sends (h : rejectTransition transitions stageKey = none) (t : Transition) :
    ¬ Sends transitions stageKey t := by
  intro hsends
  rw [sends_iff.mpr ⟨t, hsends, rfl⟩] at h
  cases h

theorem rejectTransition_none (h : ∀ t, ¬ Sends transitions stageKey t) :
    rejectTransition transitions stageKey = none := by
  rw [Option.eq_none_iff_forall_ne_some]
  intro route hroute
  obtain ⟨t, hsends, -⟩ := sends_iff.mp hroute
  exact h t hsends

theorem charged_iff {target : String} :
    Charged stages transitions stageKey (agentToKey results) target ↔
      targetStage stages transitions stageKey results = target := by
  have htarget : targetStage stages transitions stageKey results =
      orElse (orElse (agentToKey results)
        (((rejectTransition transitions stageKey).map Prod.fst).getD ""))
          ((previousStageKey stages stageKey).getD "") := rfl
  rw [htarget]
  constructor
  · intro hcharged
    cases hcharged with
    | named hnamed => simp [orElse, hnamed]
    | template hnamed hsends =>
      rw [sends_iff.mpr ⟨_, hsends, rfl⟩, hnamed]
      simp [orElse, hsends.1]
    | back hnamed hnone hbefore =>
      rw [rejectTransition_none hnone, before_iff.mp hbefore, hnamed]
      simp [orElse]
    | nothing hnamed hnone hfirst =>
      have hprevious : previousStageKey stages stageKey = none :=
        Option.eq_none_iff_forall_ne_some.mpr fun previous h => hfirst previous (before_iff.mpr h)
      rw [rejectTransition_none hnone, hprevious, hnamed]
      simp [orElse]
  · rintro rfl
    by_cases hnamed : agentToKey results = ""
    · cases hroute : rejectTransition transitions stageKey with
      | some route =>
        obtain ⟨t, hsends, rfl⟩ := sends_iff.mp hroute
        have hcharged : Charged stages transitions stageKey _ _ := .template hnamed hsends
        simpa [orElse, hnamed, hsends.1] using hcharged
      | none =>
        have hnone := none_sends hroute
        cases hprevious : previousStageKey stages stageKey with
        | some previous =>
          simpa [orElse, hnamed] using Charged.back hnamed hnone (before_iff.mpr hprevious)
        | none =>
          have hfirst : ∀ previous, ¬ Before stages stageKey previous := by
            intro previous hbefore
            rw [before_iff.mp hbefore] at hprevious
            cases hprevious
          simpa [orElse, hnamed] using Charged.nothing hnamed hnone hfirst
    · have hcharged : Charged stages transitions stageKey _ _ := .named hnamed
      simpa [orElse, hnamed] using hcharged

theorem routeOf_eq : routeOf stages transitions stageKey results =
    if agentToKey results ≠ "" ∧ validTarget stages stageKey (agentToKey results) = true then
      some (agentToKey results)
    else match rejectTransition transitions stageKey with
      | some route => if pyStrip route.2 = "" ∨ route.1 ∈ stages.map (·.key) ∨
          stageKey ∈ stages.map (·.key) then some route.1 else none
      | none => (previousStageKey stages stageKey).filter fun key => key ≠ "" := by
  have hblank : pyStrip "" = "" := by decide
  have hmember : ∀ key, validTarget stages stageKey key = true → key ∈ stages.map (·.key) :=
    fun key hvalid => of_decide_eq_true (and_eq_true_iff.mp hvalid).1
  rw [routeOf, applyStageRoute_eq, parallelAsk]
  cases hroute : rejectTransition transitions stageKey with
  | none =>
    by_cases hnamed : agentToKey results = ""
    · simp [orElse, hnamed, rejectFallbackKey_no_agent, hblank]
    · by_cases hvalid : validTarget stages stageKey (agentToKey results) = true
      · simp [orElse, hnamed, hvalid, hblank]
      · simp [orElse, hnamed, hvalid, rejectFallbackKey_no_agent, hblank]
  | some route =>
    by_cases hnamed : agentToKey results = ""
    · simp [orElse, hnamed, Option.filter, or_assoc]
    · by_cases hvalid : validTarget stages stageKey (agentToKey results) = true
      · have hin := hmember _ hvalid
        simp [orElse, hnamed, hvalid, Option.filter, hin]
      · simp [orElse, hnamed, hvalid, Option.filter, or_assoc]

theorem goes_iff {dest : String} : Goes stages transitions stageKey (agentToKey results) dest ↔
    routeOf stages transitions stageKey results = some dest := by
  rw [routeOf_eq]
  constructor
  · intro hgoes
    cases hgoes with
    | named hnamed hbehind => rw [if_pos ⟨hnamed, behind_iff.mp hbehind⟩]
    | template hrefused hsends hpinned =>
      rw [if_neg fun h => hrefused h.1 (behind_iff.mpr h.2), sends_iff.mpr ⟨_, hsends, rfl⟩]
      exact if_pos hpinned
    | back hrefused hnone hbefore hprevious =>
      rw [if_neg fun h => hrefused h.1 (behind_iff.mpr h.2), rejectTransition_none hnone,
        before_iff.mp hbefore]
      exact Option.filter_some_pos (decide_eq_true hprevious)
  · intro hroute
    split at hroute
    · rename_i h
      obtain rfl := Option.some.inj hroute
      exact .named h.1 (behind_iff.mpr h.2)
    · rename_i h
      have hrefused : agentToKey results ≠ "" →
          ¬ Behind stages stageKey (agentToKey results) :=
        fun hnamed hbehind => h ⟨hnamed, behind_iff.mp hbehind⟩
      cases htemplate : rejectTransition transitions stageKey with
      | some route =>
        rw [htemplate] at hroute
        obtain ⟨t, hsends, rfl⟩ := sends_iff.mp htemplate
        dsimp only at hroute
        split at hroute
        · rename_i hpinned
          obtain rfl := Option.some.inj hroute
          exact .template hrefused hsends hpinned
        · cases hroute
      | none =>
        rw [htemplate] at hroute
        obtain ⟨hprevious, hne⟩ := Option.filter_eq_some_iff.mp hroute
        exact .back hrefused (none_sends htemplate) (before_iff.mpr hprevious)
          (of_decide_eq_true hne)

/-! ### The ledger -/

theorem counts_iff {row : Artifact} {target : String} : Counts ledger target row ↔
    ((newestResetAt ledger target).all fun reset => reset < row.createdAt) = true := by
  have hresets : Counts ledger target row ↔ ∀ reset ∈
      (ledger.filter fun row => !row.isFeedback && row.targetStage = target).map
        Artifact.createdAt, reset ≤ row.createdAt - 1 := by
    simp only [Counts, forall_mem_map, mem_filter, and_eq_true, not_eq_true', decide_eq_true_iff,
      and_imp, Int.le_sub_one_iff]
  rw [hresets, newestResetAt]
  cases hmax : ((ledger.filter fun row => !row.isFeedback && row.targetStage = target).map
      Artifact.createdAt).max? with
  | none => simp [max?_eq_none_iff.mp hmax]
  | some newest =>
    rw [← max?_le_iff hmax, Option.all_some, decide_eq_true_iff, Int.le_sub_one_iff]

theorem reworkRerouteCount_eq (ledger : Ledger) (target : String) :
    reworkRerouteCount ledger target =
      ((rounds ledger target).filter (Counts ledger target)).length := by
  have hcounts : (fun row : Artifact =>
      (newestResetAt ledger target).all fun reset => decide (reset < row.createdAt)) =
        fun row => decide (Counts ledger target row) := by
    funext row
    exact (Bool.eq_iff_iff.mpr (counts_iff.symm.trans decide_eq_true_iff.symm))
  rw [reworkRerouteCount, hcounts]
  exact ((ranked_perm _ _).filter _).length_eq

theorem latest_iff {rows front : List Artifact} {row : Artifact} :
    ranked Artifact.createdAt rows = front ++ [row] ↔
      ∃ others, Latest rows row others ∧ ranked Artifact.createdAt others = front := by
  rw [ranked_eq_concat_iff]
  constructor
  · rintro ⟨before, after, hrows, hbefore, hafter, hfront⟩
    exact ⟨_, ⟨before, after, hrows, rfl, hbefore, hafter⟩, hfront⟩
  · rintro ⟨_, ⟨before, after, hrows, rfl, hbefore, hafter⟩, hfront⟩
    exact ⟨before, after, hrows, hbefore, hafter, hfront⟩

theorem repeats_iff {target : String} :
    Repeats (rounds ledger target) ↔ reworkIsStuck ledger target = true := by
  have hentries : entries ledger target = ranked Artifact.createdAt (rounds ledger target) := rfl
  constructor
  · rintro ⟨newest, others, previous, rest, hnewest, hprevious, hsha, hshas, hcontexts, hcontext⟩
    have hfront := latest_iff.mpr ⟨rest, hprevious, rfl⟩
    have hrows := latest_iff.mpr ⟨others, hnewest, hfront⟩
    rw [reworkIsStuck, hentries, hrows, reverse_append, reverse_append]
    simp [← hshas, hsha, hcontexts, hcontext]
  · intro hstuck
    rw [reworkIsStuck, hentries] at hstuck
    split at hstuck
    · rename_i newest previous rest hrows
      have hfront : ranked Artifact.createdAt (rounds ledger target) =
          (rest.reverse ++ [previous]) ++ [newest] := by
        rw [← reverse_reverse (ranked _ _), hrows]
        simp
      obtain ⟨others, hnewest, hothers⟩ := latest_iff.mp hfront
      obtain ⟨after, hprevious, -⟩ := latest_iff.mp hothers
      simp only [and_eq_true, decide_eq_true_iff] at hstuck
      exact ⟨newest, others, previous, after, hnewest, hprevious, hstuck.1.1.1, hstuck.1.1.2,
        hstuck.1.2, hstuck.2⟩
    · cases hstuck

/-- The loop is over exactly where the ledger says so. -/
theorem over_iff {round target : String} : Over times ledger stageKey commitSha round target ↔
    (recordReroute times ledger target stageKey round commitSha).2 ≠ .none := by
  have hrounds : rounds (add times ledger target (.feedback stageKey round commitSha)) target =
      rounds ledger target ++
        [⟨target, times ledger.length, .feedback stageKey round commitSha⟩] := by
    rw [add, rounds, filter_append]
    simp [Artifact.isFeedback, rounds]
  rw [Over, ← reworkRerouteCount_eq, ← hrounds, repeats_iff, recordReroute]
  by_cases htarget : target = ""
  · simp [htarget]
  · by_cases hspent : 3 ≤ reworkRerouteCount ledger target
    · simp [htarget, hspent, maxReworkReroutes]
    · by_cases hstuck : reworkIsStuck (add times ledger target
          (.feedback stageKey round commitSha)) target = true
      · simp [htarget, hspent, hstuck, maxReworkReroutes]
      · simp [htarget, hspent, hstuck, maxReworkReroutes]

theorem stopped_iff : Stopped stages transitions times ledger stageKey commitSha
      (rejectingReports results).head? (failureMessage results unlinked) ↔
    (roundRecorded stages transitions times ledger stageKey results unlinked commitSha).2 ≠
      .none := by
  have hround : orElse (saidBy (rejectingReports results).head?)
      (failureMessage results unlinked) = roundContext results unlinked := rfl
  have hnamed : namedBy (rejectingReports results).head? = agentToKey results := rfl
  rw [Stopped, hround, hnamed, roundRecorded, ← over_iff]
  constructor
  · rintro ⟨target, hcharged, hover⟩
    rw [charged_iff.mp hcharged]
    exact hover
  · exact fun hover => ⟨_, charged_iff.mpr rfl, hover⟩

/-! ## What the round says -/

theorem mem_rejections {report : StageReport} :
    report ∈ rejections (memberResults stageKey runs) ↔
      ∃ run ∈ runs, run.Rejects stageKey report := by
  rw [rejections, mem_filter, mem_filterMap]
  constructor
  · rintro ⟨⟨result, hresult, hreport⟩, hrejecting⟩
    obtain ⟨run, hrun, rfl⟩ := mem_map.mp hresult
    exact ⟨run, hrun, rejects_iff.mpr ⟨hreport, hrejecting⟩⟩
  · rintro ⟨run, hrun, hrejects⟩
    obtain ⟨hreport, hrejecting⟩ := rejects_iff.mp hrejects
    exact ⟨⟨_, mem_map_of_mem hrun, hreport⟩, hrejecting⟩

/-- **The failures hold what a member rejects**, where its run succeeded. -/
theorem rejects_isInfix (hmessage : Message stageKey runs unlinked message) (hrun : run ∈ runs)
    (hsucceeded : run.succeeded = true) {report : StageReport}
    (hrejects : run.Rejects stageKey report) :
    report.rerouteContext.toList <:+: message.toList := by
  obtain ⟨lines, hlines, rfl⟩ := hmessage
  have hline : run.agentId ++ ": " ++ orElse report.rerouteContext "agent reported failure" ∈
      lines.flatten := by
    have hagainst := against_iff.mp (.rejected hsucceeded hrejects)
    rw [lines_iff.mp hlines, mem_flatten]
    exact ⟨_, mem_map_of_mem hrun, hagainst ▸ mem_singleton_self _⟩
  have hcontext : report.rerouteContext.toList <:+:
      (run.agentId ++ ": " ++ orElse report.rerouteContext "agent reported failure").toList := by
    rw [String.toList_append]
    by_cases hblank : report.rerouteContext = ""
    · rw [hblank]
      exact nil_infix
    · have helse : orElse report.rerouteContext "agent reported failure" =
          report.rerouteContext := if_neg hblank
      rw [helse]
      exact (suffix_append _ _).isInfix
  rw [String.toList_append, String.toList_intercalate]
  exact (hcontext.trans (infix_intercalate (mem_map_of_mem hline))).trans
    (prefix_append _ _).isInfix

theorem context_feedback (target : String) (createdAt : Int) (fromStage round sha : String) :
    Artifact.context ⟨target, createdAt, .feedback fromStage round sha⟩ = pyStrip round := rfl

theorem recorded_iff {target fromStage round sha : String} :
    Recorded ledger (add times ledger target (.feedback fromStage round sha)) stage context ↔
      target = stage ∧ context.toList <:+: round.toList := by
  constructor
  · rintro ⟨createdAt, otherStage, otherRound, otherSha, hledger, hin, -⟩
    have hrow := append_cancel_left hledger
    injection hrow with hrow
    injection hrow with htarget _ hentry
    injection hentry with _ hround
    exact ⟨htarget, hround ▸ hin⟩
  · rintro ⟨rfl, hin⟩
    refine ⟨times ledger.length, fromStage, round, sha, rfl, hin, ?_⟩
    have hstripped : (pyStrip context).toList <:+: (pyStrip round).toList := by
      rw [pyStrip, pyStrip, String.toList_ofList, String.toList_ofList]
      exact strip_isInfix_strip hin
    by_cases hblank : pyStrip round = ""
    · rw [hblank] at hstripped
      rw [infix_nil.mp hstripped]
      exact nil_infix
    · have hrow : ⟨target, times ledger.length, .feedback fromStage round sha⟩ ∈
          entries (add times ledger target (.feedback fromStage round sha)) target :=
        mem_entries.mpr ⟨mem_append_right _ (mem_singleton_self _), rfl, rfl⟩
      have hshows := renderReworkFeedback_shows hrow
      rw [context_feedback] at hshows
      exact hstripped.trans (hshows hblank)

theorem roundRecorded_iff {dest : String} : Recorded ledger
        (roundRecorded stages transitions times ledger stageKey results unlinked commitSha).1
        dest context ↔
      targetStage stages transitions stageKey results ≠ "" ∧
        targetStage stages transitions stageKey results = dest ∧
        context.toList <:+: (roundContext results unlinked).toList := by
  rw [roundRecorded, recordReroute_fst]
  by_cases htarget : targetStage stages transitions stageKey results = ""
  · rw [if_pos htarget]
    constructor
    · rintro ⟨createdAt, fromStage, round, sha, hledger, -, -⟩
      have hlength := congrArg List.length hledger
      simp at hlength
    · rintro ⟨hne, -⟩
      exact absurd htarget hne
  · rw [if_neg htarget, recorded_iff]
    exact ⟨fun h => ⟨htarget, h⟩, And.right⟩

theorem target_ne_of_stopped
    (hstop : (roundRecorded stages transitions times ledger stageKey results unlinked
      commitSha).2 ≠ .none) : targetStage stages transitions stageKey results ≠ "" := by
  intro htarget
  refine hstop ?_
  rw [roundRecorded, recordReroute, if_pos htarget]

theorem target_eq_iff {dest : String}
    (hroute : routeOf stages transitions stageKey results = some dest) :
    targetStage stages transitions stageKey results = dest ↔
      (agentToKey results ≠ "" → dest = agentToKey results) := by
  by_cases hnamed : agentToKey results = ""
  · have hkeyed : (Settlement.parallel stageKey results "" "").keyed stages transitions = true := by
      rw [Settlement.keyed, hnamed]
      rfl
    have htarget : targetStage stages transitions stageKey results = dest :=
      ledgerKey_of_route hkeyed hroute
    exact ⟨fun _ hne => absurd hnamed hne, fun _ => htarget⟩
  · have hask : (parallelAsk transitions stageKey results).1 = agentToKey results := if_neg hnamed
    have htarget : targetStage stages transitions stageKey results = agentToKey results := by
      rw [targetStage, hask]
      exact if_neg hnamed
    rw [htarget, forall_prop_of_true hnamed, eq_comm]

/-! ## Every stage -/

theorem passed_iff : onlyTransient (memberResults stageKey runs) = false ↔
    (rejectingReports (memberResults stageKey runs)).head? ≠ none ∨
      ∀ run ∈ runs, ¬ run.Unheard := by
  have hunheard : (memberResults stageKey runs).any ParallelMemberResult.transient = true ↔
      ∃ run ∈ runs, run.Unheard := by
    rw [memberResults, any_map, any_eq_true]
    exact exists_congr fun run => and_congr_right fun _ => unheard_iff.symm
  rw [← not_iff_not, Bool.not_eq_false, onlyTransient, and_eq_true, hunheard, List.isEmpty_iff,
    ← head?_eq_none_iff]
  push Not
  exact and_comm

theorem nowhere_iff : Nowhere stages transitions times ledger stageKey commitSha
      (rejectingReports results).head? (failureMessage results unlinked) ↔
    stages = [] ∨
      (roundRecorded stages transitions times ledger stageKey results unlinked commitSha).2 =
          .none ∧ routeOf stages transitions stageKey results = none := by
  have hnamed : namedBy (rejectingReports results).head? = agentToKey results := rfl
  rw [Nowhere, stopped_iff, not_not, hnamed, Option.eq_none_iff_forall_ne_some]
  simp only [goes_iff, ne_eq]

section

variable (hpassed : onlyTransient results = false)
include hpassed

theorem route_of_nowhere
    (hnowhere : stages = [] ∨
      (roundRecorded stages transitions times ledger stageKey results unlinked commitSha).2 =
          .none ∧ routeOf stages transitions stageKey results = none) :
    (routeParallelStageFailures stages transitions times ledger stageKey results unlinked
      commitSha).2 = .blocked (cut (failureMessage results unlinked)) := by
  rw [routeParallelStageFailures, hpassed, if_neg Bool.false_ne_true]
  rcases hnowhere with rfl | ⟨hstop, hroute⟩
  · rfl
  · cases hrecord : roundRecorded stages transitions times ledger stageKey results unlinked
        commitSha with
    | mk after stop =>
      rw [hrecord] at hstop
      obtain rfl : stop = .none := hstop
      rw [hroute]
      split <;> rfl

theorem route_of_stopped (hstages : stages ≠ [])
    (hstop : (roundRecorded stages transitions times ledger stageKey results unlinked
      commitSha).2 ≠ .none) :
    routeParallelStageFailures stages transitions times ledger stageKey results unlinked
        commitSha =
      ((roundRecorded stages transitions times ledger stageKey results unlinked commitSha).1,
        .paused (targetStage stages transitions stageKey results)) := by
  rw [routeParallelStageFailures, hpassed, if_neg Bool.false_ne_true,
    if_neg (List.isEmpty_iff.not.mpr hstages)]
  cases hrecord : roundRecorded stages transitions times ledger stageKey results unlinked
      commitSha with
  | mk after stop =>
    rw [hrecord] at hstop
    cases stop with
    | none => exact absurd rfl hstop
    | budget | stuck => rfl

theorem route_of_sentBack (hstages : stages ≠ [])
    (hstop : (roundRecorded stages transitions times ledger stageKey results unlinked
      commitSha).2 = .none) {dest : String}
    (hroute : routeOf stages transitions stageKey results = some dest) :
    routeParallelStageFailures stages transitions times ledger stageKey results unlinked
        commitSha =
      ((roundRecorded stages transitions times ledger stageKey results unlinked commitSha).1,
        .sentBack dest) := by
  rw [routeParallelStageFailures, hpassed, if_neg Bool.false_ne_true,
    if_neg (List.isEmpty_iff.not.mpr hstages)]
  cases hrecord : roundRecorded stages transitions times ledger stageKey results unlinked
      commitSha with
  | mk after stop =>
    rw [hrecord] at hstop
    obtain rfl : stop = .none := hstop
    rw [hroute]

end

theorem forall_roundRecorded_iff {dest : String}
    (hsome : ∃ run ∈ runs, ∃ report, run.Rejects stageKey report) :
    (∀ run ∈ runs, ∀ report, run.Rejects stageKey report → Recorded ledger
        (roundRecorded stages transitions times ledger stageKey results unlinked commitSha).1
        dest report.rerouteContext) ↔
      (∀ run ∈ runs, ∀ report, run.Rejects stageKey report →
        report.rerouteContext.toList <:+: (roundContext results unlinked).toList) ∧
      targetStage stages transitions stageKey results ≠ "" ∧
        targetStage stages transitions stageKey results = dest := by
  obtain ⟨first, hfirst, report, hreport⟩ := hsome
  constructor
  · intro hrecorded
    obtain ⟨hne, htarget, -⟩ := roundRecorded_iff.mp (hrecorded first hfirst report hreport)
    exact ⟨fun run hrun report h => (roundRecorded_iff.mp (hrecorded run hrun report h)).2.2, hne,
      htarget⟩
  · rintro ⟨hholds, hne, htarget⟩ run hrun report h
    exact roundRecorded_iff.mpr ⟨hne, htarget, hholds run hrun report h⟩

theorem round_holds_iff (hmessage : Message stageKey runs unlinked message) :
    (∀ run ∈ runs, ∀ report, run.Rejects stageKey report →
        report.rerouteContext.toList <:+: (orElse (saidBy lead) message).toList) ↔
      (saidBy lead ≠ "" → ∀ run ∈ runs, ∀ report, run.Rejects stageKey report →
        report.rerouteContext.toList <:+: (saidBy lead).toList) ∧
      (saidBy lead = "" → ∀ run ∈ runs, run.succeeded = false →
        ∀ report, run.Rejects stageKey report →
          report.rerouteContext.toList <:+: message.toList) := by
  by_cases hsaid : saidBy lead = ""
  · have hround : orElse (saidBy lead) message = message := if_pos hsaid
    rw [hround]
    constructor
    · exact fun h => ⟨fun hne => absurd hsaid hne, fun _ run hrun _ => h run hrun⟩
    · intro h run hrun report hrejects
      cases hsucceeded : run.succeeded with
      | true => exact rejects_isInfix hmessage hrun hsucceeded hrejects
      | false => exact h.2 hsaid run hrun hsucceeded report hrejects
  · have hround : orElse (saidBy lead) message = saidBy lead := if_neg hsaid
    rw [hround]
    exact ⟨fun h => ⟨fun _ => h, fun heq => absurd heq hsaid⟩, fun h => h.1 hsaid⟩

theorem heard_nowhere (hnamed : lead ≠ none ∨ ∀ run ∈ runs, ¬ run.Unheard)
    (hnowhere : Nowhere stages transitions times ledger stageKey commitSha lead message) :
    Heard stages transitions times ledger stageKey commitSha runs lead message ↔
      ∀ run ∈ runs, ∀ report, run.Rejects stageKey report →
        report.rerouteContext.toList <:+: (cut message).toList := by
  simp only [← fits_iff]
  constructor
  · exact fun hheard => hheard.fits hnowhere
  · intro hfits
    exact ⟨hnamed, fun _ => hfits, fun h => absurd hnowhere h, fun h => absurd hnowhere h,
      fun h => absurd hnowhere h⟩

theorem heard_somewhere (hmessage : Message stageKey runs unlinked message)
    (hnamed : lead ≠ none ∨ ∀ run ∈ runs, ¬ run.Unheard)
    (hnowhere : ¬ Nowhere stages transitions times ledger stageKey commitSha lead message) :
    Heard stages transitions times ledger stageKey commitSha runs lead message ↔
      (∀ run ∈ runs, ∀ report, run.Rejects stageKey report →
        report.rerouteContext.toList <:+: (orElse (saidBy lead) message).toList) ∧
      (¬ Stopped stages transitions times ledger stageKey commitSha lead message →
        namedBy lead ≠ "" → Goes stages transitions stageKey (namedBy lead) (namedBy lead)) := by
  rw [round_holds_iff hmessage]
  constructor
  · intro hheard
    exact ⟨⟨hheard.leads hnowhere, hheard.failed hnowhere⟩, hheard.honoured hnowhere⟩
  · rintro ⟨⟨hleads, hfailed⟩, hhonoured⟩
    exact ⟨hnamed, fun h => absurd h hnowhere, fun _ => hleads, fun _ => hfailed,
      fun _ => hhonoured⟩

theorem heard_iff : (∃ lead message, Lead stageKey runs lead ∧
        Message stageKey runs unlinked message ∧
          Heard stages transitions times ledger stageKey commitSha runs lead message) ↔
      Heard stages transitions times ledger stageKey commitSha runs
        (rejectingReports (memberResults stageKey runs)).head?
        (failureMessage (memberResults stageKey runs) unlinked) := by
  constructor
  · rintro ⟨lead, message, hlead, hmessage, hheard⟩
    rw [lead_iff.mp hlead, message_iff.mp hmessage]
    exact hheard
  · exact fun hheard => ⟨_, _, lead_iff.mpr rfl, message_iff.mpr rfl, hheard⟩

/-- **Every rejection is kept, exactly where the stage is heard.** -/
theorem rejections_kept_iff (stages : List WorkflowStageDef) (transitions : List Transition)
    (times : Nat → Int) (ledger : Ledger) (stageKey : String) (runs : List MemberRun)
    (unlinked commitSha : String) :
    (∀ report ∈ rejections (memberResults stageKey runs),
        Kept ledger (routeParallelStageFailures stages transitions times ledger stageKey
          (memberResults stageKey runs) unlinked commitSha) report.rerouteContext) ↔
      ((∃ run ∈ runs, ∃ report, run.Rejects stageKey report) →
        ∃ lead message, Lead stageKey runs lead ∧ Message stageKey runs unlinked message ∧
          Heard stages transitions times ledger stageKey commitSha runs lead message) := by
  have hmembers : (∀ report ∈ rejections (memberResults stageKey runs),
        Kept ledger (routeParallelStageFailures stages transitions times ledger stageKey
          (memberResults stageKey runs) unlinked commitSha) report.rerouteContext) ↔
      ∀ run ∈ runs, ∀ report, run.Rejects stageKey report →
        Kept ledger (routeParallelStageFailures stages transitions times ledger stageKey
          (memberResults stageKey runs) unlinked commitSha) report.rerouteContext := by
    constructor
    · exact fun h run hrun report hrejects => h report (mem_rejections.mpr ⟨run, hrun, hrejects⟩)
    · intro h report hreport
      obtain ⟨run, hrun, hrejects⟩ := mem_rejections.mp hreport
      exact h run hrun report hrejects
  rw [hmembers]
  by_cases hsome : ∃ run ∈ runs, ∃ report, run.Rejects stageKey report
  · rw [forall_prop_of_true hsome]
    have hmessage := message_iff.mpr
      (Eq.refl (failureMessage (memberResults stageKey runs) unlinked))
    rw [heard_iff]
    cases hpassed : onlyTransient (memberResults stageKey runs) with
    | true =>
      -- the rejection is taken for a failure of the infrastructure
      obtain ⟨first, hfirst, report, hreport⟩ := hsome
      constructor
      · intro hkept
        have hfalse := hkept first hfirst report hreport
        rw [Kept, routeParallelStageFailures, if_pos hpassed] at hfalse
        exact hfalse.elim
      · intro hheard
        rw [passed_iff.mpr hheard.named] at hpassed
        cases hpassed
    | false =>
      have hnamed := passed_iff.mp hpassed
      by_cases hnowhere : Nowhere stages transitions times ledger stageKey commitSha
          (rejectingReports (memberResults stageKey runs)).head?
          (failureMessage (memberResults stageKey runs) unlinked)
      · rw [heard_nowhere hnamed hnowhere]
        simp only [Kept, route_of_nowhere hpassed (nowhere_iff.mp hnowhere)]
      · have hsent := nowhere_iff.not.mp hnowhere
        rw [heard_somewhere hmessage hnamed hnowhere, stopped_iff]
        rw [not_or, not_and] at hsent
        by_cases hstop : (roundRecorded stages transitions times ledger stageKey
            (memberResults stageKey runs) unlinked commitSha).2 = .none
        · obtain ⟨dest, hroute⟩ := Option.ne_none_iff_exists'.mp (hsent.2 hstop)
          simp only [Kept, route_of_sentBack hpassed hsent.1 hstop hroute,
            forall_roundRecorded_iff hsome]
          refine and_congr_right fun _ => ?_
          rw [target_eq_iff hroute]
          constructor
          · intro h _ hne
            exact goes_iff.mpr (hroute.trans (congrArg some (h.2 hne)))
          · intro h
            have hsame : agentToKey (memberResults stageKey runs) ≠ "" →
                dest = agentToKey (memberResults stageKey runs) := by
              intro hne
              have hgoes := goes_iff.mp (h (not_not_intro hstop) hne)
              exact Option.some.inj (hroute.symm.trans hgoes)
            refine ⟨?_, hsame⟩
            rw [(target_eq_iff hroute).mpr hsame]
            exact (applyStageRoute_cases hroute).1
        · -- the loop is over: the round stands for the stage it would go back to
          simp only [Kept, route_of_stopped hpassed hsent.1 hstop,
            forall_roundRecorded_iff hsome]
          refine and_congr_right fun _ => ⟨fun _ h => absurd hstop h, fun _ => ⟨?_, trivial⟩⟩
          exact target_ne_of_stopped hstop
  · constructor
    · exact fun _ h => absurd h hsome
    · intro _ run hrun report hrejects
      exact absurd ⟨run, hrun, report, hrejects⟩ hsome

/-- Two reviewers, one of which rejects without naming a stage, and one that met a limit. -/
def limitBeside : List MemberRun :=
  [{ agentId := "reviewer", succeeded := true
     report := some { rejecting := true, rerouteContext := "The lock is not released." } },
   { agentId := "auditor", succeeded := false, stderr := "usage limit", transientFailure := true }]

/-- The rejection beside a limit is taken for a transient failure. -/
theorem rejection_lost_beside_limit :
    ¬ ∀ (stages : List WorkflowStageDef) (transitions : List Transition) (times : Nat → Int)
      (ledger : Ledger) (stageKey : String) (runs : List MemberRun) (unlinked commitSha : String),
      ∀ report ∈ rejections (memberResults stageKey runs),
        Kept ledger (routeParallelStageFailures stages transitions times ledger stageKey
          (memberResults stageKey runs) unlinked commitSha) report.rerouteContext := by
  intro hclaim
  have hkept := hclaim [{ key := "implement" }, { key := "review", order := 1 }] [] (fun n => n) []
    "review" limitBeside "" "" _ (mem_cons_self)
  exact hkept

end Loregarden.Rejection
