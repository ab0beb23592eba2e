import Loregarden.IssueSyncEditProofs

/-! # Where a sync of a workspace fails

    A failed fetch and a failed push are recorded on the link, and the next link is synced.
    A pull the ticket refuses is not: `ValueError` leaves `sync_link`, and with it the
    comprehension of `sync_workspace`.

    * `LinkedTicket.pull_error_iff`, `Turn.raised_iff`: when a sync raises, as a condition on
      what it finds;
    * `syncWorkspace_complete_iff`: when every link is attempted;
    * `workspace_sync_coherent_iff`: when a failed sync leaves ticket, issue and base
      coherent. -/

namespace Loregarden.IssueSync

open List LinkedTicket
open Option hiding or_assoc

open Lanes (TicketState)
open Stages (StageMap)
open WorkflowState (Time reconcile_ok reconcile_error parseStageMap)

variable {now : Time} {t t' : LinkedTicket} {issue : GithubIssue} {link : GithubIssueLink}
  {ours remote : IssueSnapshot} {field : SyncField} {fields : List SyncField}
  {gh : GhAnswers} {request : UpdateTicketRequest} {policy : ConflictPolicy}

namespace LinkedTicket

def ContentRefused (t : LinkedTicket) (title description : Option String) : Prop :=
  title.any (stripped · = "") = true ∨
    description.any (wouldExceed t.description.length ·.length maxDescriptionChars) = true

def RowsBroken (t : LinkedTicket) : Prop :=
  ∃ workflow reason, t.workflow = some workflow ∧ t.stages ≠ [] ∧ ¬ t.row.stateLocked ∧
    parseStageMap workflow = .error reason

theorem operatorEdits_error_iff : (∃ reason, t.applyOperatorEdits request = .error reason) ↔
    t.ContentRefused request.title request.description := by
  rw [applyOperatorEdits, applyContentEdits]
  by_cases htitle : request.title.any (stripped · = "") = true
  · rw [if_pos htitle]
    exact ⟨fun _ => .inl htitle, fun _ => ⟨_, rfl⟩⟩
  · rw [if_neg htitle]
    by_cases hcap : request.description.any
        (wouldExceed t.columns.description.length ·.length maxDescriptionChars) = true
    · rw [if_pos hcap]
      exact ⟨fun _ => .inr hcap, fun _ => ⟨_, rfl⟩⟩
    · rw [if_neg hcap]
      refine ⟨?_, fun h => (h.elim htitle hcap).elim⟩
      rintro ⟨reason, h⟩
      cases h

theorem stateEdit_error_iff {state : TicketState} :
    (∃ reason, t.applyStateEdit now (some state) = .error reason) ↔
      t.row.state ≠ state ∧ ¬ canChoose t.row.state state := by
  rw [applyStateEdit]
  by_cases hstate : t.row.state = state
  · rw [if_pos hstate]
    refine ⟨?_, fun h => absurd hstate h.1⟩
    rintro ⟨reason, h⟩
    cases h
  · rw [if_neg hstate]
    by_cases hchoose : canChoose t.row.state state
    · rw [if_neg (not_not.mpr hchoose)]
      refine ⟨?_, fun h => absurd hchoose h.2⟩
      rintro ⟨reason, h⟩
      cases h
    · rw [if_pos hchoose]
      exact ⟨fun _ => ⟨hstate, hchoose⟩, fun _ => ⟨_, rfl⟩⟩

theorem stageEdits_error_iff :
    (∃ reason, t.applyManualStageEdits now = .error reason) ↔ t.RowsBroken := by
  rw [applyManualStageEdits, RowsBroken]
  cases hworkflow : t.workflow with
  | none =>
    constructor
    · rintro ⟨reason, h⟩
      cases h
    · rintro ⟨workflow, reason, h, -⟩
      cases h
  | some workflow =>
    dsimp only
    by_cases hkept : t.stages = [] ∨ t.row.stateLocked
    · rw [if_pos hkept]
      constructor
      · rintro ⟨reason, h⟩
        cases h
      · rintro ⟨-, -, -, hstages, hlocked, -⟩
        exact (hkept.elim hstages hlocked).elim
    · rw [if_neg hkept]
      rw [not_or] at hkept
      cases hparse : parseStageMap workflow with
      | error reason =>
        rw [reconcile_error hparse]
        exact ⟨fun _ => ⟨workflow, reason, rfl, hkept.1, hkept.2, hparse⟩, fun _ => ⟨_, rfl⟩⟩
      | ok m =>
        rw [reconcile_ok hparse]
        constructor
        · rintro ⟨reason, h⟩
          cases h
        · rintro ⟨workflow', reason, hsome, -, -, h⟩
          obtain rfl := some.inj hsome
          rw [hparse] at h
          cases h

theorem operatorEdits_rowsBroken (h : t.applyOperatorEdits request = .ok t') :
    t'.RowsBroken ↔ t.RowsBroken := by
  rw [applyOperatorEdits, applyContentEdits] at h
  split at h
  · cases h
  · split at h
    · cases h
    · obtain rfl := Except.ok.inj h
      dsimp only
      split_ifs <;> exact Iff.rfl

/-- An edit is refused by a guard, or for a state that cannot be chosen, or names no state
    and finds rows it cannot read. -/
theorem updateTicketManual_error_iff : (∃ why, t.updateTicketManual now request = .error why) ↔
    t.ContentRefused request.title request.description ∨
      (∃ state, request.state = some state ∧ t.row.state ≠ state ∧ ¬ canChoose t.row.state state) ∨
      request.state = none ∧ t.RowsBroken := by
  cases hcontent : t.applyOperatorEdits request with
  | error reason =>
    have hrefused := operatorEdits_error_iff.mp ⟨reason, hcontent⟩
    refine ⟨fun _ => .inl hrefused, fun _ => ⟨.refused reason, ?_⟩⟩
    rw [updateTicketManual, hcontent]
    rfl
  | ok edited =>
    have hallowed : ¬ t.ContentRefused request.title request.description := by
      intro hrefused
      obtain ⟨reason, h⟩ := operatorEdits_error_iff.mpr hrefused
      rw [hcontent] at h
      cases h
    have hcalls : t.updateTicketManual now request =
        ((edited.applyStateEdit now request.state).mapError .refused).bind fun moved =>
          (moved.applyManualStageEdits now).mapError .stageRows := by
      rw [updateTicketManual, hcontent]
      rfl
    obtain ⟨-, -, hstate, -⟩ := operatorEdits_ok hcontent
    rw [or_iff_right hallowed, hcalls]
    cases hreq : request.state with
    | none =>
      have hnone : ¬ ∃ state, (none : Option TicketState) = some state ∧
          t.row.state ≠ state ∧ ¬ canChoose t.row.state state := by
        rintro ⟨state, h, -⟩
        cases h
      rw [or_iff_right hnone, and_iff_right rfl, ← operatorEdits_rowsBroken hcontent,
        ← @stageEdits_error_iff now]
      show (∃ why, (edited.applyManualStageEdits now).mapError EditFailure.stageRows = _) ↔ _
      cases edited.applyManualStageEdits now with
      | error reason => exact ⟨fun _ => ⟨_, rfl⟩, fun _ => ⟨_, rfl⟩⟩
      | ok settled =>
        constructor
        · rintro ⟨why, h⟩
          cases h
        · rintro ⟨why, h⟩
          cases h
    | some state =>
      have hrefuses := @stateEdit_error_iff now edited state
      rw [hstate] at hrefuses
      cases hmove : edited.applyStateEdit now (some state) with
      | error reason =>
        exact ⟨fun _ => .inl ⟨state, rfl, hrefuses.mp ⟨reason, hmove⟩⟩, fun _ => ⟨_, rfl⟩⟩
      | ok moved =>
        -- the state is pinned, so the rows are not read
        obtain ⟨-, -, -, hlocked⟩ := stateEdit_some hmove
        have hstages : moved.applyManualStageEdits now = .ok moved := stageEdits_locked hlocked
        show (∃ why, (moved.applyManualStageEdits now).mapError EditFailure.stageRows = _) ↔ _
        rw [hstages]
        constructor
        · rintro ⟨why, h⟩
          cases h
        · rintro (⟨state', hsome, hmoves⟩ | ⟨h, -⟩)
          · obtain rfl := some.inj hsome
            obtain ⟨reason, h⟩ := hrefuses.mpr hmoves
            rw [hmove] at h
            cases h
          · cases h

/-! ## When a pull is refused -/

def PullRefused (t : LinkedTicket) (remote : IssueSnapshot) (fields : List SyncField) : Prop :=
  .title ∈ fields ∧ stripped remote.title = "" ∨ .body ∈ fields ∧
      wouldExceed t.description.length remote.body.length maxDescriptionChars = true ∨
    .closure ∉ fields ∧ t.RowsBroken

theorem contentRefused_pullRequest : t.ContentRefused (t.pullRequest remote fields).title
      (t.pullRequest remote fields).description ↔
    .title ∈ fields ∧ stripped remote.title = "" ∨ .body ∈ fields ∧
      wouldExceed t.description.length remote.body.length maxDescriptionChars = true := by
  rw [ContentRefused, pullRequest]
  dsimp only
  refine or_congr ?_ ?_
  · split
    · rename_i hmem
      rw [and_iff_right hmem]
      exact decide_eq_true_iff
    · rename_i hmem
      exact iff_of_false Bool.false_ne_true fun h => hmem h.1
  · split
    · rename_i hmem
      rw [and_iff_right hmem]
      rfl
    · rename_i hmem
      exact iff_of_false Bool.false_ne_true fun h => hmem h.1

theorem pullTarget_choosable (hne : closureForState t.row.state ≠ remote.closure)
    {state : TicketState} (h : pullTarget t.columns remote fields = some state) :
    t.row.state ≠ state ∧
      (canChoose t.row.state state ∨ t.row.state = .wontDo ∧ state = .done) := by
  rw [pullTarget] at h
  split at h
  · cases h
  · split at h
    · cases h
    · rename_i hopen
      obtain rfl := some.inj h
      have hopen : ¬ (remote.closure = .opened ∧ t.row.state ∉ [TicketState.done, .wontDo]) := hopen
      revert hne hopen
      cases remote.closure <;> cases t.row.state <;> decide

section

variable (hne : .closure ∈ fields → closureForState t.row.state ≠ remote.closure)
include hne

theorem reopened_of_pull : ∃ reopened, (if t.throughBacklog remote fields then
        t.updateTicketManual now { state := some .backlog } else .ok t) = .ok reopened ∧
      reopened.title = t.title ∧ reopened.description = t.description ∧
      reopened.row.state = (if t.throughBacklog remote fields then .backlog else t.row.state) ∧
      (pullTarget t.columns remote fields = none → reopened = t) ∧
      ∀ state, pullTarget t.columns remote fields = some state →
        canChoose reopened.row.state state = true := by
  cases htarget : pullTarget t.columns remote fields with
  | none =>
    have hthrough : t.throughBacklog remote fields = false := by
      rw [throughBacklog, htarget]
      rfl
    rw [hthrough]
    exact ⟨t, rfl, rfl, rfl, rfl, fun _ => rfl, fun _ h => absurd h.symm (some_ne_none _)⟩
  | some state =>
    have hmem : .closure ∈ fields := by
      by_contra hno
      rw [pullTarget_none hno] at htarget
      cases htarget
    obtain ⟨-, hmoves⟩ := pullTarget_choosable (hne hmem) htarget
    have hthrough : t.throughBacklog remote fields = !canChoose t.row.state state := by
      rw [throughBacklog, htarget]
      show decide (¬ canChoose t.row.state state = true) = _
      cases canChoose t.row.state state <;> rfl
    rw [hthrough]
    rcases Bool.eq_false_or_eq_true (canChoose t.row.state state) with hcan | hcannot
    · rw [hcan]
      refine ⟨t, rfl, rfl, rfl, rfl, fun h => absurd h (some_ne_none _), fun _ h => ?_⟩
      rw [← some.inj h, hcan]
    · rw [hcannot] at hmoves ⊢
      obtain ⟨hwontDo, rfl⟩ := hmoves.resolve_left Bool.false_ne_true
      have hok : ¬ ∃ why, t.updateTicketManual now { state := some .backlog } = .error why := by
        rw [updateTicketManual_error_iff]
        rintro (hcontent | ⟨state, hsome, -, hcannot⟩ | ⟨h, -⟩)
        · exact hcontent.elim Bool.false_ne_true Bool.false_ne_true
        · rw [← some.inj hsome, hwontDo] at hcannot
          exact hcannot rfl
        · cases h
      cases hedit : t.updateTicketManual now { state := some .backlog } with
      | error why => exact absurd ⟨why, hedit⟩ hok
      | ok reopened =>
        obtain ⟨htitle, hdescription, hchosen, -⟩ := updateTicketManual_ok hedit
        have hbacklog : reopened.row.state = .backlog := hchosen .backlog rfl
        refine ⟨reopened, rfl, htitle, hdescription, hbacklog,
          fun h => absurd h (some_ne_none _), ?_⟩
        intro state h
        rw [← some.inj h, hbacklog]
        rfl

/-- **When a pull raises.** -/
theorem pull_error_iff :
    (∃ why, (t.pull now remote fields).2 = .error why) ↔ t.PullRefused remote fields := by
  obtain ⟨reopened, hreopened, -, hdescription, -, hkept, hchoose⟩ :=
    @reopened_of_pull now t remote fields hne
  have hedit : (∃ why, (t.pull now remote fields).2 = .error why) ↔
      ∃ why, reopened.updateTicketManual now (t.pullRequest remote fields) = .error why := by
    rw [pull, hreopened]
    dsimp only
    cases reopened.updateTicketManual now (t.pullRequest remote fields) with
    | error why => exact ⟨fun _ => ⟨why, rfl⟩, fun _ => ⟨why, rfl⟩⟩
    | ok pulled =>
      constructor
      · rintro ⟨why, h⟩
        cases h
      · rintro ⟨why, h⟩
        cases h
  have hcontent : reopened.ContentRefused (t.pullRequest remote fields).title
      (t.pullRequest remote fields).description ↔ t.ContentRefused
      (t.pullRequest remote fields).title (t.pullRequest remote fields).description := by
    rw [ContentRefused, ContentRefused, hdescription]
  rw [hedit, updateTicketManual_error_iff, hcontent, contentRefused_pullRequest, PullRefused,
    or_assoc]
  refine or_congr_right (or_congr_right ?_)
  show (∃ state, pullTarget t.columns remote fields = some state ∧ _) ∨
    pullTarget t.columns remote fields = none ∧ _ ↔ _
  constructor
  · rintro (⟨state, hsome, -, hcannot⟩ | ⟨hnone, hbroken⟩)
    · exact absurd (hchoose state hsome) hcannot
    · rw [hkept hnone] at hbroken
      refine ⟨fun hmem => ?_, hbroken⟩
      have htarget := pullTarget_some hmem (hne hmem)
      rw [hnone] at htarget
      cases htarget
  · rintro ⟨hmem, hbroken⟩
    have hnone : pullTarget t.columns remote fields = none := pullTarget_none hmem
    rw [hkept hnone]
    exact .inr ⟨hnone, hbroken⟩

theorem pull_error_columns
    (h : t.PullRefused remote fields) : (t.pull now remote fields).1.columns =
      if t.throughBacklog remote fields then { t.columns with state := .backlog }
      else t.columns := by
  obtain ⟨reopened, hreopened, htitle, hdescription, hstate, -, -⟩ :=
    @reopened_of_pull now t remote fields hne
  obtain ⟨why, hwhy⟩ := (@pull_error_iff now t remote fields hne).mpr h
  rw [pull, hreopened] at hwhy ⊢
  dsimp only at hwhy ⊢
  cases hedit : reopened.updateTicketManual now (t.pullRequest remote fields) with
  | ok pulled =>
    rw [hedit] at hwhy
    cases hwhy
  | error why =>
    show reopened.columns = _
    rw [columns, htitle, hdescription, hstate]
    split <;> rfl

theorem ne_backlog_of_throughBacklog
    (h : t.throughBacklog remote fields = true) : t.row.state = .wontDo := by
  rw [throughBacklog] at h
  cases htarget : pullTarget t.columns remote fields with
  | none =>
    rw [htarget] at h
    cases h
  | some state =>
    have hmem : .closure ∈ fields := by
      by_contra hno
      rw [pullTarget_none hno] at htarget
      cases htarget
    rw [htarget] at h
    obtain ⟨-, hcan | ⟨hstate, -⟩⟩ := pullTarget_choosable (hne hmem) htarget
    · exact absurd hcan (of_decide_eq_true h)
    · exact hstate

end

end LinkedTicket

theorem call_error_iff {p : Pushed} {answer : GhAnswer} {f : GithubIssue → GithubIssue} :
    (p.call answer f fields).error ≠ none ↔ p.error ≠ none ∨ answer ≠ .ok := by
  rw [Pushed.call.eq_def]
  by_cases herror : p.error.isSome = true
  · rw [if_pos herror]
    have hne : p.error ≠ none := isSome_iff_ne_none.mp herror
    exact iff_of_true hne (.inl hne)
  · have hnone : p.error = none := not_isSome_iff_eq_none.mp herror
    rw [if_neg herror]
    cases answer with
    | ok => exact iff_of_false (not_not.mpr rfl) fun h => h.elim (absurd hnone) (absurd rfl)
    | failed detail applied =>
      cases applied with
      | true | false => exact iff_of_true (some_ne_none _) (.inr GhAnswer.noConfusion)

/-- A call the push of some fields makes is not answered. -/
def PushFails (ours remote : IssueSnapshot) (fields : List SyncField) (gh : GhAnswers) : Prop :=
  (.title ∈ fields ∨ .body ∈ fields) ∧ gh.edit ≠ .ok ∨ .closure ∈ fields ∧
      ((remote.closure ≠ .opened ∧ ours.closure ≠ .opened) ∧ gh.reopen ≠ .ok ∨ gh.close ≠ .ok)

theorem push_error_iff :
    (push ours remote fields issue gh).error ≠ none ↔ PushFails ours remote fields gh := by
  have htext : (pushText ours fields issue gh).error ≠ none ↔
      (.title ∈ fields ∨ .body ∈ fields) ∧ gh.edit ≠ .ok := by
    rw [pushText]
    split
    · rename_i hmem
      rw [call_error_iff, and_iff_right hmem]
      exact or_iff_right (not_not.mpr rfl)
    · rename_i hmem
      exact iff_of_false (not_not.mpr rfl) fun h => hmem h.1
  rw [push, PushFails]
  by_cases hclosure : .closure ∈ fields
  · rw [if_pos hclosure, call_error_iff, and_iff_right hclosure, ← or_assoc, ← htext]
    refine or_congr_left ?_
    by_cases hboth : remote.closure ≠ .opened ∧ ours.closure ≠ .opened
    · rw [if_pos hboth, call_error_iff, and_iff_right hboth]
      rfl
    · rw [if_neg hboth]
      exact (or_iff_left fun h => hboth h.1).symm
  · rw [if_neg hclosure]
    exact htext.trans (or_iff_left fun h => hclosure h.1).symm

/-! ## The sync of one link -/

namespace LinkedTicket

theorem applyPlan_refused (issue : GithubIssue) (link : GithubIssueLink) (ours : IssueSnapshot)
    (gh : GhAnswers) {plan : SyncField → FieldOutcome} {why : EditFailure}
    (hsome : planned plan .pull ≠ [])
    (h : (t.pull now remote (planned plan .pull)).2 = .error why) :
    let left := t.applyPlan now issue link ours remote plan gh
    left.ticket = (t.pull now remote (planned plan .pull)).1 ∧ left.link = link ∧
      left.ending = .raised why := by
  rw [applyPlan, if_pos hsome]
  generalize t.pull now remote (planned plan .pull) = p at h ⊢
  obtain ⟨t', r⟩ := p
  obtain rfl : r = .error why := h
  exact ⟨rfl, rfl, rfl⟩

theorem applyPlan_pulled (issue : GithubIssue) (link : GithubIssueLink) (ours : IssueSnapshot)
    (gh : GhAnswers) (plan : SyncField → FieldOutcome) (h : (if planned plan .pull ≠ [] then
      t.pull now remote (planned plan .pull) else (t, .ok ())) = (t', .ok ())) :
    let left := t.applyPlan now issue link ours remote plan gh
    let pushed := push ours remote (planned plan .push) issue gh
    left.ticket = t' ∧ left.issue = pushed.issue ∧
      ((∃ detail result, pushed.error = some detail ∧ left.ending = .failed result ∧
          left.link = { recordBase link remote (planned plan .pull ++ planned plan .converged) with
            lastError := detail }) ∨
        pushed.error = none ∧ ∃ result, left.ending = .completed result) := by
  rw [applyPlan, push_if, h]
  generalize push ours remote (planned plan .push) issue gh = pushed
  obtain ⟨i, landed, error⟩ := pushed
  cases error with
  | some detail => exact ⟨rfl, rfl, .inl ⟨detail, _, rfl, rfl, rfl⟩⟩
  | none => exact ⟨rfl, rfl, .inr ⟨rfl, _, rfl⟩⟩

end LinkedTicket

namespace Turn

variable {turn : Turn}

/-- The plan of the sync, where the issue is fetched. -/
def plan (turn : Turn) (policy : ConflictPolicy) : SyncField → FieldOutcome :=
  turn.ticket.plan turn.link turn.issue policy

def Refused (turn : Turn) (policy : ConflictPolicy) : Prop :=
  turn.fetch = .ok () ∧ planned (turn.plan policy) .pull ≠ [] ∧
    turn.ticket.PullRefused (issueSnapshot turn.issue) (planned (turn.plan policy) .pull)

/-- The sync comes to its push, and a call of it fails. -/
def Unpushed (turn : Turn) (policy : ConflictPolicy) : Prop :=
  turn.fetch = .ok () ∧ ¬ turn.Refused policy ∧
    PushFails (ticketSnapshot turn.ticket.columns) (issueSnapshot turn.issue)
      (planned (turn.plan policy) .push) turn.gh

theorem plan_closure (h : turn.plan policy .closure = .pull) :
    closureForState turn.ticket.row.state ≠ (issueSnapshot turn.issue).closure :=
  LinkedTicket.plan_closure h

theorem pull_closure (h : .closure ∈ planned (turn.plan policy) .pull) :
    closureForState turn.ticket.row.state ≠ (issueSnapshot turn.issue).closure :=
  plan_closure (mem_planned.mp h)

theorem sync_unfetched {detail : String} (h : turn.fetch = .error detail) : turn.sync policy =
      { ticket := turn.ticket, issue := turn.issue
        link := { turn.link with lastError := detail }
        ending := .failed { error := detail } } := by
  rw [sync, fetched, h]
  rfl

theorem sync_fetched (h : turn.fetch = .ok ()) : turn.sync policy =
    turn.ticket.applyPlan turn.now turn.issue turn.link (ticketSnapshot turn.ticket.columns)
      (issueSnapshot turn.issue) (turn.plan policy) turn.gh := by
  rw [sync, fetched, h]
  rfl

theorem sync_refused (h : turn.Refused policy) :
    (turn.sync policy).ticket = (turn.ticket.pull turn.now (issueSnapshot turn.issue)
        (planned (turn.plan policy) .pull)).1 ∧
      (turn.sync policy).link = turn.link ∧ ∃ why, (turn.sync policy).ending = .raised why := by
  obtain ⟨hfetch, hsome, hrefused⟩ := h
  obtain ⟨why, hwhy⟩ := (@LinkedTicket.pull_error_iff turn.now _ _ _ pull_closure).mpr hrefused
  obtain ⟨hticket, hlink, hending⟩ := LinkedTicket.applyPlan_refused turn.issue turn.link
    (ticketSnapshot turn.ticket.columns) turn.gh hsome hwhy
  rw [← sync_fetched hfetch] at hticket hlink hending
  exact ⟨hticket, hlink, why, hending⟩

theorem sync_pulled (hfetch : turn.fetch = .ok ()) (h : ¬ turn.Refused policy) :
    turn.ticket.PulledBy (turn.sync policy).ticket turn.issue (turn.plan policy) ∧
      (turn.sync policy).issue = (push (ticketSnapshot turn.ticket.columns)
        (issueSnapshot turn.issue) (planned (turn.plan policy) .push) turn.issue turn.gh).issue ∧
      ((turn.Unpushed policy ∧ (∃ result, (turn.sync policy).ending = .failed result) ∧
          ∃ detail, (turn.sync policy).link =
            { recordBase turn.link (issueSnapshot turn.issue)
                (planned (turn.plan policy) .pull ++ planned (turn.plan policy) .converged) with
              lastError := detail }) ∨
        ¬ turn.Unpushed policy ∧ ∃ result, (turn.sync policy).ending = .completed result) := by
  obtain ⟨t', ht'⟩ : ∃ t', (if planned (turn.plan policy) .pull ≠ [] then
      turn.ticket.pull turn.now (issueSnapshot turn.issue) (planned (turn.plan policy) .pull)
      else (turn.ticket, .ok ())) = (t', .ok ()) := by
    by_cases hsome : planned (turn.plan policy) .pull ≠ []
    · rw [if_pos hsome]
      have hgoes : ¬ ∃ why, (turn.ticket.pull turn.now (issueSnapshot turn.issue)
          (planned (turn.plan policy) .pull)).2 = .error why := fun hraised =>
        h ⟨hfetch, hsome, (pull_error_iff pull_closure).mp hraised⟩
      generalize turn.ticket.pull turn.now (issueSnapshot turn.issue)
        (planned (turn.plan policy) .pull) = p at hgoes ⊢
      obtain ⟨t', r⟩ := p
      cases r with
      | ok _ => exact ⟨t', rfl⟩
      | error why => exact absurd ⟨why, rfl⟩ hgoes
    · rw [if_neg hsome]
      exact ⟨turn.ticket, rfl⟩
  obtain ⟨hticket, hissue, hending⟩ := applyPlan_pulled turn.issue turn.link
    (ticketSnapshot turn.ticket.columns) turn.gh (turn.plan policy) ht'
  rw [← sync_fetched hfetch] at hticket hissue hending
  refine ⟨?_, hissue, ?_⟩
  · rw [hticket]
    exact pulledBy_of_pull ht'
  · rcases hending with ⟨detail, result, herror, hfailed, hlink⟩ | ⟨hnone, hcompleted⟩
    · have herror : (push (ticketSnapshot turn.ticket.columns) (issueSnapshot turn.issue)
          (planned (turn.plan policy) .push) turn.issue turn.gh).error ≠ none := by
        rw [herror]
        exact some_ne_none detail
      exact .inl ⟨⟨hfetch, h, push_error_iff.mp herror⟩, ⟨result, hfailed⟩, detail, hlink⟩
    · refine .inr ⟨fun hunpushed => ?_, hcompleted⟩
      obtain ⟨-, -, hfails⟩ := hunpushed
      exact push_error_iff.mpr hfails hnone

theorem raised_iff : (∃ why, (turn.sync policy).ending = .raised why) ↔ turn.Refused policy := by
  constructor
  · rintro ⟨why, hwhy⟩
    by_contra h
    cases hfetch : turn.fetch with
    | error detail =>
      rw [sync_unfetched hfetch] at hwhy
      cases hwhy
    | ok _ =>
      obtain ⟨-, -, hending⟩ := sync_pulled hfetch h
      rcases hending with ⟨-, ⟨result, hresult⟩, -⟩ | ⟨-, result, hresult⟩
      · rw [hwhy] at hresult
        cases hresult
      · rw [hwhy] at hresult
        cases hresult
  · intro h
    exact (sync_refused h).2.2

/-- A failed sync leaves the ticket of a refused pull as it was, and a base it has moved on
    both sides. -/
structure Kept (turn : Turn) (left : Left) : Prop where
  refused : (∃ why, left.ending = .raised why) → left.ticket.columns = turn.ticket.columns
  base : (∀ result, left.ending ≠ .completed result) → ∀ field,
    fieldValue (baseSnapshot left.link) field = fieldValue (baseSnapshot turn.link) field ∨
      fieldValue (ticketSnapshot left.ticket.columns) field =
          fieldValue (baseSnapshot left.link) field ∧
        fieldValue (issueSnapshot left.issue) field = fieldValue (baseSnapshot left.link) field

/-- What a link has to be like for a failure to be harmless: a pull that is refused does not
    go through the backlog, and one before a push that fails has texts that stay and does not
    close a ticket whose closure converged. -/
structure Safe (turn : Turn) (policy : ConflictPolicy) : Prop where
  refused : turn.Refused policy → turn.ticket.throughBacklog (issueSnapshot turn.issue)
    (planned (turn.plan policy) .pull) = false
  pulls : turn.Unpushed policy → ∀ field, turn.plan policy field = .pull →
    Canonical (fieldValue (issueSnapshot turn.issue) field)
  closure : turn.Unpushed policy → turn.plan policy .closure = .converged →
    planned (turn.plan policy) .pull ≠ [] → turn.ticket.finishes = false

theorem remote_kept {plan : SyncField → FieldOutcome} (h : plan field ≠ .push) :
    fieldValue (issueSnapshot (push ours remote (planned plan .push) issue gh).issue) field =
      fieldValue (issueSnapshot issue) field := by
  have hno : field ∉ (push ours remote (planned plan .push) issue gh).landed :=
    fun hmem => h (mem_planned.mp (push_landed hmem))
  have hkept := @push_kept issue ours remote field (planned plan .push) gh hno
  cases field with
  | title =>
    show canonicalText (some _) = canonicalText (some _)
    rw [some.inj hkept]
  | body =>
    show canonicalText _ = canonicalText _
    rw [show (push ours remote (planned plan .push) issue gh).issue.body = issue.body from hkept]
  | closure => exact some.inj hkept

theorem base_of_unpushed {detail : String} {plan : SyncField → FieldOutcome} :
    fieldValue (baseSnapshot { recordBase link remote (planned plan .pull ++
        planned plan .converged) with lastError := detail }) field =
      if plan field = .pull ∨ plan field = .converged then fieldValue remote field
      else fieldValue (baseSnapshot link) field := by
  cases field with
  | title | body => simp only [baseSnapshot, recordBase, fieldValue, mem_planned, mem_append]
  | closure =>
    simp only [baseSnapshot, recordBase, fieldValue, mem_planned, mem_append]
    split_ifs <;> rfl

theorem refused_columns (h : turn.Refused policy) : (turn.sync policy).ticket.columns =
    if turn.ticket.throughBacklog (issueSnapshot turn.issue) (planned (turn.plan policy) .pull) then
      { turn.ticket.columns with state := .backlog }
    else turn.ticket.columns := by
  rw [(sync_refused h).1]
  exact pull_error_columns pull_closure h.2.2

theorem refused_kept_iff (h : turn.Refused policy) :
    (turn.sync policy).ticket.columns = turn.ticket.columns ↔
      turn.ticket.throughBacklog (issueSnapshot turn.issue)
        (planned (turn.plan policy) .pull) = false := by
  rw [refused_columns h]
  constructor
  · intro heq
    by_contra hthrough
    rw [Bool.not_eq_false] at hthrough
    rw [if_pos hthrough] at heq
    have hstate : TicketState.backlog = turn.ticket.row.state := congrArg Ticket.state heq
    rw [ne_backlog_of_throughBacklog pull_closure hthrough] at hstate
    cases hstate
  · intro hthrough
    rw [hthrough]
    rfl

/-- The base of one field behind a push that failed is unmoved or on both sides exactly when
    what was pulled stays, and a closure that converged was not closed behind it. -/
theorem unpushed_base_iff (h : turn.Unpushed policy) (field : SyncField) :
    (fieldValue (baseSnapshot (turn.sync policy).link) field =
          fieldValue (baseSnapshot turn.link) field ∨
        fieldValue (ticketSnapshot (turn.sync policy).ticket.columns) field =
            fieldValue (baseSnapshot (turn.sync policy).link) field ∧
          fieldValue (issueSnapshot (turn.sync policy).issue) field =
            fieldValue (baseSnapshot (turn.sync policy).link) field) ↔
      (turn.plan policy field = .pull → Canonical (fieldValue (issueSnapshot turn.issue) field)) ∧
      (turn.plan policy field = .converged → field = .closure →
        planned (turn.plan policy) .pull ≠ [] → turn.ticket.finishes = false) := by
  obtain ⟨hpulled, hissue, hending⟩ := sync_pulled h.1 h.2.1
  obtain ⟨-, -, detail, hlink⟩ := hending.resolve_right fun hno => hno.1 h
  have hours := hpulled.ours_after plan_closure field
  have hremote : turn.plan policy field ≠ .push → fieldValue (issueSnapshot
      (turn.sync policy).issue) field = fieldValue (issueSnapshot turn.issue) field := by
    intro hno
    rw [hissue]
    exact remote_kept hno
  have hmoved : turn.plan policy field = .pull ∨ turn.plan policy field = .converged →
      fieldValue (issueSnapshot turn.issue) field ≠ fieldValue (baseSnapshot turn.link) field :=
    planSync_moved
  rw [hlink, base_of_unpushed, hours]
  cases hplan : turn.plan policy field with
  | pull =>
    rw [hplan] at hremote hmoved
    rw [if_pos (.inl rfl), if_pos rfl, hremote FieldOutcome.noConfusion,
      or_iff_right (hmoved (.inl rfl)), and_iff_left rfl]
    exact ⟨fun h => ⟨fun _ => h, nofun⟩, fun h => h.1 rfl⟩
  | converged =>
    rw [hplan] at hremote hmoved
    have hagree : fieldValue (ticketSnapshot turn.ticket.columns) field =
        fieldValue (issueSnapshot turn.issue) field := planSync_agree_iff.mpr (.inr hplan)
    rw [if_pos (.inr rfl), if_neg (by decide), hremote FieldOutcome.noConfusion,
      or_iff_right (hmoved (.inr rfl)), and_iff_left rfl]
    by_cases hcloses : field = .closure ∧ planned (turn.plan policy) .pull ≠ [] ∧
        turn.ticket.finishes
    · -- the closure both sides had is that of an open ticket, and the ticket is done now
      obtain ⟨rfl, hsome, hfin⟩ := hcloses
      rw [if_pos ⟨rfl, hsome, hfin⟩, ← hagree]
      have hopen : fieldValue (ticketSnapshot turn.ticket.columns) .closure =
          IssueClosure.opened.value := congrArg IssueClosure.value (finishes_open hfin)
      rw [hopen]
      refine iff_of_false (by decide) fun h => ?_
      rw [h.2 rfl rfl hsome] at hfin
      cases hfin
    · rw [if_neg hcloses]
      refine iff_of_true hagree ⟨nofun, fun _ hfield hsome => ?_⟩
      by_contra hfin
      exact hcloses ⟨hfield, hsome, Bool.not_eq_false _ ▸ hfin⟩
  | _ =>
    rw [if_neg (by decide)]
    exact iff_of_true (.inl rfl) ⟨nofun, nofun⟩

/-- **A failure of one link is harmless exactly when the link is safe.** -/
theorem kept_iff : turn.Kept (turn.sync policy) ↔ turn.Safe policy := by
  constructor
  · rintro ⟨hrefused, hbase⟩
    have hfails : turn.Unpushed policy →
        ∀ result, (turn.sync policy).ending ≠ .completed result := by
      intro hunpushed result hresult
      obtain ⟨-, -, hending⟩ := sync_pulled hunpushed.1 hunpushed.2.1
      obtain ⟨-, ⟨failed, hfailed⟩, -⟩ := hending.resolve_right fun hno => hno.1 hunpushed
      rw [hresult] at hfailed
      cases hfailed
    refine ⟨fun h => ?_, fun h field => ?_, fun h hplan => ?_⟩
    · exact (refused_kept_iff h).mp (hrefused (raised_iff.mpr h))
    · exact ((unpushed_base_iff h field).mp (hbase (hfails h) field)).1
    · exact ((unpushed_base_iff h .closure).mp (hbase (hfails h) .closure)).2 hplan rfl
  · rintro ⟨hrefused, hpulls, hclosure⟩
    refine ⟨fun hraised => ?_, fun hfailed field => ?_⟩
    · have h := raised_iff.mp hraised
      exact (refused_kept_iff h).mpr (hrefused h)
    · cases hfetch : turn.fetch with
      | error detail =>
        rw [sync_unfetched hfetch]
        exact .inl rfl
      | ok _ =>
        by_cases h : turn.Refused policy
        · rw [(sync_refused h).2.1]
          exact .inl rfl
        · obtain ⟨-, -, hending⟩ := sync_pulled hfetch h
          rcases hending with ⟨hunpushed, -⟩ | ⟨-, result, hresult⟩
          · refine (unpushed_base_iff hunpushed field).mpr ⟨hpulls hunpushed field, ?_⟩
            rintro hplan rfl
            exact hclosure hunpushed hplan
          · exact absurd hresult (hfailed result)

end Turn

theorem syncWorkspace_through {turn : Turn} {rest : List Turn} (h : ¬ turn.Refused policy) :
    syncWorkspace policy (turn :: rest) = turn.sync policy :: syncWorkspace policy rest := by
  rw [syncWorkspace]
  cases hending : (turn.sync policy).ending with
  | raised why => exact absurd (Turn.raised_iff.mp ⟨why, hending⟩) h
  | failed result | completed result => rfl

theorem syncWorkspace_stops {turn : Turn} {rest : List Turn} (h : turn.Refused policy) :
    syncWorkspace policy (turn :: rest) = [turn.sync policy] := by
  obtain ⟨why, hending⟩ := Turn.raised_iff.mpr h
  rw [syncWorkspace]
  rw [hending]

def AllButLastPulled (policy : ConflictPolicy) (turns : List Turn) : Prop :=
  ∀ turn ∈ turns.dropLast, ¬ turn.Refused policy

/-- **Every link is attempted exactly when no link but the last is refused.** -/
theorem syncWorkspace_complete_iff (policy : ConflictPolicy) (turns : List Turn) :
    (syncWorkspace policy turns).length = turns.length ↔ AllButLastPulled policy turns := by
  have hlast : ∀ turns : List Turn, turns.dropLast = [] → AllButLastPulled policy turns := by
    intro turns hnil turn hturn
    rw [hnil] at hturn
    cases hturn
  induction turns with
  | nil => exact iff_of_true rfl (hlast [] rfl)
  | cons turn rest ih =>
    by_cases h : turn.Refused policy
    · rw [syncWorkspace_stops h]
      cases rest with
      | nil => exact iff_of_true rfl (hlast [turn] rfl)
      | cons next rest =>
        refine iff_of_false (fun hlength => ?_) fun hpulled => ?_
        · rw [length_singleton, length_cons, length_cons] at hlength
          omega
        · exact hpulled turn mem_cons_self h
    · rw [syncWorkspace_through h, length_cons, length_cons, Nat.add_right_cancel_iff]
      refine ih.trans ?_
      cases rest with
      | nil => exact iff_of_true (hlast [] rfl) (hlast [turn] rfl)
      | cons next rest =>
        show (∀ turn ∈ (next :: rest).dropLast, _) ↔ ∀ t ∈ turn :: (next :: rest).dropLast, _
        rw [forall_mem_cons, and_iff_right h]

theorem syncWorkspace_complete {turns : List Turn} (h : AllButLastPulled policy turns) :
    syncWorkspace policy turns = turns.map (·.sync policy) := by
  induction turns with
  | nil => rfl
  | cons turn rest ih =>
    cases rest with
    | nil =>
      by_cases hrefused : turn.Refused policy
      · exact syncWorkspace_stops hrefused
      · exact syncWorkspace_through hrefused
    | cons next rest =>
      have hhere : ¬ turn.Refused policy := h turn mem_cons_self
      rw [syncWorkspace_through hhere, ih fun t ht => h t (mem_cons_of_mem _ ht)]
      rfl

/-- A workspace sync is coherent: it attempts every link, and what failed of them leaves
    ticket, issue and base so. -/
def Coherent (policy : ConflictPolicy) (turns : List Turn) : Prop :=
  List.Forall₂ Turn.Kept turns (syncWorkspace policy turns)

/-- **When a workspace sync is coherent.** Whatever fails of its fetches, its pushes and its pulls,
    every link is attempted and none is left incoherent exactly when no link but the last has its
    pull refused, and every link is safe. -/
theorem workspace_sync_coherent_iff (policy : ConflictPolicy) (turns : List Turn) :
    Coherent policy turns ↔ AllButLastPulled policy turns ∧ ∀ turn ∈ turns, turn.Safe policy := by
  constructor
  · intro h
    have hall : AllButLastPulled policy turns :=
      (syncWorkspace_complete_iff policy turns).mp h.length_eq.symm
    rw [Coherent, syncWorkspace_complete hall, forall₂_map_right_iff] at h
    exact ⟨hall, fun turn hturn => Turn.kept_iff.mp (forall₂_same.mp h turn hturn)⟩
  · rintro ⟨hall, hsafe⟩
    rw [Coherent, syncWorkspace_complete hall, forall₂_map_right_iff]
    exact forall₂_same.mpr fun turn hturn => Turn.kept_iff.mpr (hsafe turn hturn)

/-! ## A body the ticket refuses -/

theorem replaceCrLf_eq_self {s : List Char} (h : '\r' ∉ s) : replaceCrLf s = s := by
  induction s using replaceCrLf.induct with
  | case1 | case2 c => rfl
  | case3 c d rest hcr ih => exact absurd (hcr.1 ▸ mem_cons_self) h
  | case4 c d rest hcr ih =>
    rw [replaceCrLf, if_neg hcr, ih fun hmem => h (mem_cons_of_mem _ hmem)]

theorem canonical_of_plain {s : List Char} (h : ∀ c ∈ s, c ≠ '\r' ∧ Text.isSpace c = false) :
    Canonical (String.ofList s) := by
  show String.ofList (Text.strip Text.isSpace (replaceCrLf (String.ofList s).toList)) = _
  rw [String.toList_ofList, replaceCrLf_eq_self fun hmem => (h _ hmem).1 rfl,
    Text.strip_eq_self fun c hc => (h c hc).2]

theorem LinkedTicket.state_columns (t : LinkedTicket) : t.row.state = t.columns.state := rfl

/-- A ticket given up, whose issue somebody has completed and described. -/
def refusedTurn (body : String) : Turn where
  now := 0
  ticket := { title := "Widgets wobble", description := "", row := { state := .wontDo } }
  issue := { title := "Widgets wobble", body := some body, closure := .completed }
  link := { syncedTitle := "Widgets wobble", syncedBody := "", syncedClosure := .notPlanned }

def quietTurn : Turn where
  now := 1
  ticket := { title := "Gears grind", description := "" }
  issue := { title := "Gears grind", body := none, closure := .opened }
  link := { syncedTitle := "Gears grind", syncedBody := "", syncedClosure := .opened }

section Long

variable {body : String} (hcanonical : Canonical body) (hlong : maxDescriptionChars < body.length)

include hcanonical hlong

theorem refusedTurn_plan : (refusedTurn body).plan .report .body = .pull ∧
    (refusedTurn body).plan .report .closure = .pull := by
  have hplan : (refusedTurn body).plan .report = planSync ⟨"Widgets wobble", "", .notPlanned⟩
      ⟨canonicalText (some "Widgets wobble"), canonicalText (some ""), .notPlanned⟩
      ⟨canonicalText (some "Widgets wobble"), canonicalText (some body), .completed⟩ .report := by
    rfl
  rw [hplan, hcanonical]
  refine ⟨planSync_pull (by decide) ?_, planSync_pull rfl ?_⟩
  · show body ≠ ""
    rintro rfl
    cases hlong
  · show IssueClosure.completed.value ≠ IssueClosure.notPlanned.value
    decide

theorem refusedTurn_refused : (refusedTurn body).Refused .report := by
  obtain ⟨hbody, -⟩ := refusedTurn_plan hcanonical hlong
  have hmem : .body ∈ planned ((refusedTurn body).plan .report) .pull := mem_planned.mpr hbody
  refine ⟨rfl, ne_nil_of_mem hmem, .inr (.inl ⟨hmem, ?_⟩)⟩
  show wouldExceed 0 (canonicalText (some body)).length maxDescriptionChars = true
  rw [hcanonical, wouldExceed]
  exact decide_eq_true ⟨Nat.zero_le _, hlong⟩

theorem refusedTurn_backlog : ((refusedTurn body).sync .report).ticket.row.state = .backlog := by
  obtain ⟨-, hclosure⟩ := refusedTurn_plan hcanonical hlong
  have hthrough : (refusedTurn body).ticket.throughBacklog (issueSnapshot (refusedTurn body).issue)
      (planned ((refusedTurn body).plan .report) .pull) = true := by
    have htarget : pullTarget (refusedTurn body).ticket.columns
        (issueSnapshot (refusedTurn body).issue) (planned ((refusedTurn body).plan .report) .pull) =
        some (stateForClosure .completed) := by
      rw [pullTarget_some (mem_planned.mpr hclosure) (Turn.plan_closure hclosure)]
      rfl
    rw [throughBacklog, htarget]
    rfl
  have hcolumns := (Turn.refused_columns (refusedTurn_refused hcanonical hlong)).trans
    (if_pos hthrough)
  rw [state_columns, hcolumns]

end Long

def bodyOf (length : Nat) : String := String.ofList (List.replicate length 'a')

theorem canonical_bodyOf (n : Nat) : Canonical (bodyOf n) := by
  refine canonical_of_plain fun c hc => ?_
  rw [eq_of_mem_replicate hc]
  decide

theorem length_bodyOf (n : Nat) : (bodyOf n).length = n := by
  rw [bodyOf, String.length_ofList, length_replicate]

theorem refused_of_long {n : Nat} (h : maxDescriptionChars < n) :
    (syncWorkspace .report [refusedTurn (bodyOf n), quietTurn]).map (·.ticket.row.state) =
        [.backlog] ∧
      ¬ Coherent .report [refusedTurn (bodyOf n), quietTurn] := by
  have hlong : maxDescriptionChars < (bodyOf n).length := by
    rw [length_bodyOf]
    exact h
  have hstops := @syncWorkspace_stops .report (refusedTurn (bodyOf n)) [quietTurn]
    (refusedTurn_refused (canonical_bodyOf n) hlong)
  rw [hstops, map_singleton, refusedTurn_backlog (canonical_bodyOf n) hlong]
  refine ⟨rfl, fun hcoherent => ?_⟩
  have hlength := hcoherent.length_eq
  rw [hstops, length_cons, length_singleton, length_singleton] at hlength
  omega

/-- A body of one character more than a description may grow to: the ticket is back in the
    backlog though its pull was refused, and the second link is not attempted. -/
theorem refused_pull_hides_the_next : (refusedTurn (bodyOf 15001)).ticket.row.state = .wontDo ∧
      (syncWorkspace .report [refusedTurn (bodyOf 15001), quietTurn]).map (·.ticket.row.state) =
        [.backlog] ∧
      ¬ Coherent .report [refusedTurn (bodyOf 15001), quietTurn] :=
  ⟨rfl, refused_of_long (by rw [maxDescriptionChars]; omega)⟩

end Loregarden.IssueSync

