import Loregarden.IssueSyncEditModel
import Loregarden.IssueSyncProofs
import Loregarden.WorkflowStateProofs

/-! # What a sync leaves for the next

    A second sync reads both sides again, through `canonical_text`. It finds nothing to do
    unless that function would change once more a text the first sync wrote, or unless the
    pull, being an edit by hand, let the workflow close the ticket.

    * `LinkedTicket.updateTicketManual_ok`, `LinkedTicket.pull_ok`: what an edit and a pull
      leave;
    * `PulledBy.ours_after`, `Through.base_after`, `Through.remote_after`: what the next
      sync reads;
    * `LinkedTicket.second_sync_changes_nothing_iff`: when it changes nothing. -/

namespace Loregarden.IssueSync

open List IssueClosure
open Except hiding map_id

open Lanes (TicketState)
open Stages (StageStatus StageMap WorkflowStageDef deriveTicketState)
open WorkflowState (Time settle reconcile_ok reconcile_error parseStageMap deriveWorkflow)

variable {now now' : Time} {t t' : LinkedTicket} {issue copy : GithubIssue}
  {link : GithubIssueLink} {base ours remote : IssueSnapshot} {field : SyncField}
  {fields : List SyncField} {gh gh' : GhAnswers} {request : UpdateTicketRequest}
  {why : EditFailure} {policy : ConflictPolicy}

theorem deriveTicketState_ne_wontDo (m : StageMap) (stages : List WorkflowStageDef)
    (issues : String) (status : StageStatus) :
    deriveTicketState m stages issues status ≠ .wontDo := by
  rw [deriveTicketState]
  split_ifs <;> exact TicketState.noConfusion

theorem closure_settle {owns : Bool} {row : WorkflowState.Ticket} {target : TicketState}
    (htarget : target ≠ .wontDo) :
    closureForState (settle owns now row target).1.state =
      if owns ∧ ¬ row.stateLocked ∧ row.state ∈ [TicketState.backlog, .inProgress, .blocked] ∧
          target = .done then .completed
      else closureForState row.state := by
  obtain ⟨key, status, issues, state, locked, revision, by', resolved⟩ := row
  cases owns with
  | false => rfl
  | true =>
    cases locked with
    | true => cases state <;> cases target <;> rfl
    | false =>
      cases target with
      | wontDo => exact absurd rfl htarget
      | _ => cases state <;> rfl

/-! ## One edit -/

namespace LinkedTicket

theorem operatorEdits_ok (h : t.applyOperatorEdits request = .ok t') :
    t'.title = (request.title.map stripped).getD t.title ∧
      t'.description = request.description.getD t.description ∧
      t'.row.state = t.row.state ∧ t'.finishes = t.finishes := by
  rw [applyOperatorEdits, applyContentEdits] at h
  split at h
  · cases h
  · split at h
    · cases h
    · obtain rfl := ok.inj h
      refine ⟨rfl, rfl, ?_, ?_⟩
      · dsimp only
        split <;> rfl
      · -- the revision and who wrote last decide nothing about the workflow
        dsimp only
        split_ifs <;> rfl

theorem stateEdit_some {state : TicketState} (h : t.applyStateEdit now (some state) = .ok t') :
    t'.title = t.title ∧ t'.description = t.description ∧ t'.row.state = state ∧
      t'.row.stateLocked = true := by
  rw [applyStateEdit] at h
  split at h
  · rename_i hstate
    obtain rfl := ok.inj h
    exact ⟨rfl, rfl, hstate, rfl⟩
  · rename_i hstate
    split at h
    · cases h
    · obtain rfl := ok.inj h
      rw [WorkflowState.write, if_neg hstate]
      exact ⟨rfl, rfl, rfl, rfl⟩

theorem stageEdits_locked (h : t.row.stateLocked = true) : t.applyManualStageEdits now = .ok t := by
  rw [applyManualStageEdits]
  split
  · rfl
  · exact if_pos (.inr h)

theorem stageEdits_ok (h : t.applyManualStageEdits now = .ok t') :
    t'.title = t.title ∧ t'.description = t.description ∧ closureForState t'.row.state =
        if t.finishes then .completed else closureForState t.row.state := by
  rw [applyManualStageEdits] at h
  rw [finishes]
  split at h
  · obtain rfl := ok.inj h
    exact ⟨rfl, rfl, rfl⟩
  · rename_i workflow hsome
    split at h
    · rename_i hkept
      obtain rfl := ok.inj h
      refine ⟨rfl, rfl, (if_neg fun hfin => ?_).symm⟩
      obtain ⟨hstages, hlocked, -⟩ := of_decide_eq_true hfin
      exact hkept.elim hstages hlocked
    · rename_i hkept
      rw [not_or] at hkept
      cases hparse : parseStageMap workflow with
      | error reason =>
        rw [reconcile_error hparse] at h
        cases h
      | ok m =>
        rw [reconcile_ok hparse] at h
        obtain rfl := ok.inj h
        refine ⟨rfl, rfl, ?_⟩
        have hderive : (deriveWorkflow t.row workflow t.stages).toOption.any
            (·.ticketState = .done) = decide (deriveTicketState m t.stages t.row.blockingIssues
              (WorkflowState.cursorStage t.row.workflowStageKey m t.stages).2 = .done) := by
          rw [deriveWorkflow, hparse]
          rfl
        show closureForState (settle _ now (t.row.at _) _).1.state = _
        rw [closure_settle (deriveTicketState_ne_wontDo _ _ _ _)]
        refine if_congr ?_ rfl rfl
        rw [decide_eq_true_iff, decide_eq_true_iff]
        rw [hderive, decide_eq_true_iff]
        constructor
        · rintro ⟨howns, hlocked, hopen, hdone⟩
          exact ⟨hkept.1, hlocked, howns, hopen, hdone⟩
        · rintro ⟨-, hlocked, howns, hopen, hdone⟩
          exact ⟨howns, hlocked, hopen, hdone⟩

structure Edited (t t' : LinkedTicket) (request : UpdateTicketRequest) : Prop where
  title : t'.title = (request.title.map stripped).getD t.title
  description : t'.description = request.description.getD t.description
  chosen : ∀ state, request.state = some state → t'.row.state = state
  derived : request.state = none → closureForState t'.row.state =
    if t.finishes then .completed else closureForState t.row.state

theorem updateTicketManual_ok (h : t.updateTicketManual now request = .ok t') :
    t.Edited t' request := by
  rw [updateTicketManual] at h
  cases hcontent : t.applyOperatorEdits request with
  | error reason =>
    rw [hcontent] at h
    cases h
  | ok edited =>
    rw [hcontent] at h
    obtain ⟨htitle, hdescription, hstate, hfinishes⟩ := operatorEdits_ok hcontent
    cases hmove : edited.applyStateEdit now request.state with
    | error reason =>
      simp only [Except.mapError, bind, Except.bind, hmove] at h
      cases h
    | ok moved =>
      simp only [Except.mapError, bind, Except.bind, hmove] at h
      cases hstages : moved.applyManualStageEdits now with
      | error reason =>
        rw [hstages] at h
        cases h
      | ok settled =>
        rw [hstages] at h
        obtain rfl := Except.ok.inj h
        cases hreq : request.state with
        | none =>
          rw [hreq, applyStateEdit] at hmove
          obtain rfl := ok.inj hmove
          obtain ⟨ht, hd, hc⟩ := stageEdits_ok hstages
          rw [hfinishes, hstate] at hc
          refine ⟨ht.trans htitle, hd.trans hdescription, fun state hsome => ?_, fun _ => hc⟩
          rw [hreq] at hsome
          cases hsome
        | some state =>
          rw [hreq] at hmove
          obtain ⟨ht, hd, hs, hlocked⟩ := stateEdit_some hmove
          -- a state that is named is pinned, and the workflow is not asked
          rw [stageEdits_locked hlocked] at hstages
          obtain rfl := ok.inj hstages
          refine ⟨ht.trans htitle, hd.trans hdescription, fun s hreq' => ?_, fun hnone => ?_⟩
          · rw [hreq] at hreq'
            rw [hs, Option.some.inj hreq']
          · rw [hreq] at hnone
            cases hnone

structure Pulled (t t' : LinkedTicket) (remote : IssueSnapshot) (fields : List SyncField) :
    Prop where
  title : t'.title = if .title ∈ fields then stripped remote.title else t.title
  description : t'.description = if .body ∈ fields then remote.body else t.description
  chosen : ∀ state, pullTarget t.columns remote fields = some state → t'.row.state = state
  derived : pullTarget t.columns remote fields = none → closureForState t'.row.state =
    if t.finishes then .completed else closureForState t.row.state

theorem pull_ok (h : (t.pull now remote fields).2 = .ok ()) :
    t.Pulled (t.pull now remote fields).1 remote fields := by
  rw [pull] at h ⊢
  split at h
  · cases h
  · rename_i reopened hreopened
    -- the way through the backlog leaves the texts, and is taken for a state that is named
    have hback : reopened.title = t.title ∧ reopened.description = t.description ∧
        (pullTarget t.columns remote fields = none → reopened = t) := by
      split at hreopened
      · rename_i hthrough
        obtain ⟨htitle, hdescription, -, -⟩ := updateTicketManual_ok hreopened
        refine ⟨htitle, hdescription, fun hnone => ?_⟩
        rw [throughBacklog, hnone] at hthrough
        cases hthrough
      · obtain rfl := ok.inj hreopened
        exact ⟨rfl, rfl, fun _ => rfl⟩
    split at h
    · cases h
    · rename_i pulled hpulled
      obtain ⟨htitle, hdescription, hchosen, hderived⟩ := updateTicketManual_ok hpulled
      obtain ⟨hback_title, hback_description, hback⟩ := hback
      refine ⟨?_, ?_, hchosen, fun hnone => ?_⟩
      · rw [← hback_title]
        refine htitle.trans ?_
        rw [pullRequest]
        split <;> rfl
      · rw [← hback_description]
        refine hdescription.trans ?_
        rw [pullRequest]
        dsimp only
        split <;> rfl
      · have hkept := hderived hnone
        rw [hback hnone] at hkept
        exact hkept

end LinkedTicket

theorem call_none {p : Pushed} {answer : GhAnswer} {f : GithubIssue → GithubIssue}
    (h : (p.call answer f fields).error = none) :
    p.error = none ∧ (p.call answer f fields).issue = f p.issue := by
  rw [Pushed.call.eq_def] at h ⊢
  split at h
  · rename_i herror
    rw [h] at herror
    cases herror
  · rename_i herror
    rw [if_neg herror]
    refine ⟨Option.not_isSome_iff_eq_none.mp herror, ?_⟩
    split at h
    · rfl
    · cases h
    · cases h

theorem setIssueClosure_eq {closure : IssueClosure}
    (h : closure = .opened ∨ issue.closure = .opened) :
    setIssueClosure issue closure = { issue with closure := closure } := if_pos h

theorem push_none (hclosure : issue.closure = remote.closure)
    (h : (push ours remote fields issue gh).error = none) :
    (push ours remote fields issue gh).issue =
      { title := if .title ∈ fields then ours.title else issue.title
        body := if .body ∈ fields then some ours.body else issue.body
        closure := if .closure ∈ fields then ours.closure else issue.closure } := by
  have htext : ∀ text : Pushed, text = (if .title ∈ fields ∨ .body ∈ fields then
      ({ issue := issue } : Pushed).call gh.edit
        (editIssue · (if .title ∈ fields then some ours.title else none)
          (if .body ∈ fields then some ours.body else none)) (fields.filter (· ≠ .closure))
      else { issue := issue }) → text.error = none → text.issue =
      { title := if .title ∈ fields then ours.title else issue.title
        body := if .body ∈ fields then some ours.body else issue.body
        closure := issue.closure } := by
    rintro text rfl hnone
    split at hnone
    · rename_i hsome
      rw [if_pos hsome, (call_none hnone).2, editIssue]
      split_ifs <;> rfl
    · rename_i hno
      rw [not_or] at hno
      rw [if_neg (not_or.mpr hno), if_neg hno.1, if_neg hno.2]
  rw [push] at h ⊢
  split at h
  · rename_i hmem
    rw [if_pos hmem]
    obtain ⟨hbefore, hissue⟩ := call_none h
    rw [hissue]
    split at hbefore
    · rename_i hclosed
      obtain ⟨herror, hreopened⟩ := call_none hbefore
      rw [if_pos hclosed, hreopened, htext _ rfl herror, if_pos hmem,
        setIssueClosure_eq (.inl rfl), setIssueClosure_eq (.inr rfl)]
    · rename_i hopen
      -- one of the two sides is open, and the issue is as the sync read it
      have hone : ours.closure = .opened ∨ issue.closure = .opened := by
        rw [hclosure]
        by_contra hneither
        rw [not_or] at hneither
        exact hopen hneither.symm
      rw [if_neg hopen, htext _ rfl hbefore, if_pos hmem]
      exact setIssueClosure_eq hone
  · rename_i hmem
    rw [if_neg hmem, htext _ rfl h, if_neg hmem]

namespace LinkedTicket

/-- The ticket behind the pull of a plan, if it has one. -/
structure PulledBy (t t' : LinkedTicket) (issue : GithubIssue)
    (plan : SyncField → FieldOutcome) : Prop where
  kept : planned plan .pull = [] → t' = t
  pulled : planned plan .pull ≠ [] → t.Pulled t' (issueSnapshot issue) (planned plan .pull)

structure Through (t : LinkedTicket) (issue : GithubIssue) (link : GithubIssueLink)
    (plan : SyncField → FieldOutcome) (left : Left) : Prop where
  pulled : t.PulledBy left.ticket issue plan
  advanced : left.link = { recordBase (recordBase link (issueSnapshot issue)
      (planned plan .pull ++ planned plan .converged))
      (ticketSnapshot t.columns) (planned plan .push) with lastError := "" }
  written : left.issue =
    { title := if .title ∈ planned plan .push then (ticketSnapshot t.columns).title
        else issue.title
      body := if .body ∈ planned plan .push then some (ticketSnapshot t.columns).body
        else issue.body
      closure := if .closure ∈ planned plan .push then (ticketSnapshot t.columns).closure
        else issue.closure }

theorem pulledBy_of_pull {plan : SyncField → FieldOutcome}
    (h : (if planned plan .pull ≠ [] then t.pull now (issueSnapshot issue) (planned plan .pull)
      else (t, .ok ())) = (t', .ok ())) : t.PulledBy t' issue plan where
  kept hnil := by
    rw [if_neg (not_not.mpr hnil)] at h
    exact (Prod.mk.inj h).1.symm
  pulled hsome := by
    rw [if_pos hsome] at h
    have hp : t.Pulled (t.pull now (issueSnapshot issue) (planned plan .pull)).1
        (issueSnapshot issue) (planned plan .pull) := pull_ok (congrArg Prod.snd h)
    rw [h] at hp
    exact hp

theorem syncLink_through {first : LinkSyncResult}
    (h : (t.syncLink now issue link (.ok issue) policy gh).ending = .completed first) :
    t.Through issue link (t.plan link issue policy)
        (t.syncLink now issue link (.ok issue) policy gh) ∧
      first = { pulled := planned (t.plan link issue policy) .pull
                pushed := planned (t.plan link issue policy) .push
                conflicts := conflictsOf (baseSnapshot link) (ticketSnapshot t.columns)
                  (issueSnapshot issue) (t.plan link issue policy) } := by
  rw [syncLink] at h ⊢
  generalize t.plan link issue policy = plan at h ⊢
  rw [applyPlan, push_if] at h ⊢
  dsimp only at h ⊢
  split at h
  · cases h
  · rename_i pulled hpulled
    split at h
    · cases h
    · rename_i hnone
      exact ⟨⟨pulledBy_of_pull hpulled, rfl, push_none rfl hnone⟩, (Ending.completed.inj h).symm⟩

end LinkedTicket

/-! ## What the next sync reads -/

/-- A text is as `canonical_text` would leave it. -/
def Canonical (value : String) : Prop := canonicalText (some value) = value

theorem canonical_closure (closure : IssueClosure) : Canonical closure.value := by
  cases closure <;> (unfold Canonical; decide)

theorem stripped_canonicalText (value : Option String) :
    stripped (canonicalText value) = canonicalText value := by
  rw [stripped, canonicalText, String.toList_ofList, Text.strip_strip]

theorem finishes_open (h : t.finishes = true) : closureForState t.row.state = .opened := by
  rw [LinkedTicket.finishes] at h
  split at h
  · cases h
  · obtain ⟨-, -, -, hopen, -⟩ := of_decide_eq_true h
    simp only [mem_cons, not_mem_nil, or_false] at hopen
    rcases hopen with hstate | hstate | hstate <;> (rw [hstate]; rfl)

theorem closureForState_stateForClosure (closure : IssueClosure) :
    closureForState (stateForClosure closure) = closure := by
  cases closure <;> rfl

theorem pullTarget_none (h : .closure ∉ fields) : pullTarget t.columns remote fields = none :=
  if_pos h

theorem pullTarget_some (hmem : .closure ∈ fields)
    (hne : closureForState t.row.state ≠ remote.closure) :
    pullTarget t.columns remote fields = some (stateForClosure remote.closure) := by
  rw [pullTarget, if_neg (not_not.mpr hmem), if_neg]
  rintro ⟨hopened, hstate⟩
  rw [hopened] at hne
  have hstate : t.row.state ∉ [TicketState.done, .wontDo] := hstate
  cases hrow : t.row.state with
  | done | wontDo => exact hstate (by rw [hrow]; decide)
  | _ => exact hne (by rw [hrow]; rfl)

namespace LinkedTicket

section After

variable {plan : SyncField → FieldOutcome} {left : Left}

theorem Through.base_after (h : t.Through issue link plan left) (field : SyncField) :
    fieldValue (baseSnapshot left.link) field =
      if plan field = .push then fieldValue (ticketSnapshot t.columns) field
      else if plan field = .pull ∨ plan field = .converged then
        fieldValue (issueSnapshot issue) field
      else fieldValue (baseSnapshot link) field := by
  rw [h.advanced]
  cases field with
  | title | body => simp only [baseSnapshot, recordBase, fieldValue, mem_planned, mem_append]
  | closure =>
    simp only [baseSnapshot, recordBase, fieldValue, mem_planned, mem_append]
    split_ifs <;> rfl

theorem Through.remote_after (h : t.Through issue link plan left) (field : SyncField) :
    fieldValue (issueSnapshot left.issue) field =
      if plan field = .push then
        canonicalText (some (fieldValue (ticketSnapshot t.columns) field))
      else fieldValue (issueSnapshot issue) field := by
  rw [h.written]
  cases field with
  | title | body =>
    simp only [issueSnapshot, fieldValue, mem_planned]
    split_ifs <;> rfl
  | closure =>
    simp only [issueSnapshot, fieldValue, mem_planned]
    rw [canonical_closure]
    split_ifs <;> rfl

theorem PulledBy.ours_after (h : t.PulledBy t' issue plan) (hpull : plan .closure = .pull →
      (ticketSnapshot t.columns).closure ≠ (issueSnapshot issue).closure) (field : SyncField) :
    fieldValue (ticketSnapshot t'.columns) field =
      if plan field = .pull then canonicalText (some (fieldValue (issueSnapshot issue) field))
      else if field = .closure ∧ planned plan .pull ≠ [] ∧ t.finishes then
        completed.value
      else fieldValue (ticketSnapshot t.columns) field := by
  by_cases hnil : planned plan .pull = []
  · have hno : plan field ≠ .pull := by
      intro hp
      have hmem : field ∈ planned plan .pull := mem_planned.mpr hp
      rw [hnil] at hmem
      cases hmem
    rw [h.kept hnil, if_neg hno, if_neg fun hc => hc.2.1 hnil]
  · obtain ⟨htitle, hdescription, hchosen, hderived⟩ := h.pulled hnil
    cases field with
    | title =>
      show canonicalText (some t'.title) = _
      have hno : ¬ (SyncField.title = .closure ∧ planned plan .pull ≠ [] ∧ t.finishes) :=
        fun hc => SyncField.noConfusion hc.1
      rw [htitle, if_neg hno]
      by_cases hp : plan .title = .pull
      · rw [if_pos (mem_planned.mpr hp), if_pos hp]
        show canonicalText (some (stripped (canonicalText _))) = _
        rw [stripped_canonicalText]
        rfl
      · rw [if_neg (mem_planned.not.mpr hp), if_neg hp]
        rfl
    | body =>
      show canonicalText (some t'.description) = _
      have hno : ¬ (SyncField.body = .closure ∧ planned plan .pull ≠ [] ∧ t.finishes) :=
        fun hc => SyncField.noConfusion hc.1
      rw [hdescription, if_neg hno]
      by_cases hp : plan .body = .pull
      · rw [if_pos (mem_planned.mpr hp), if_pos hp]
        rfl
      · rw [if_neg (mem_planned.not.mpr hp), if_neg hp]
        rfl
    | closure =>
      show (closureForState t'.row.state).value = _
      by_cases hclosure : plan .closure = .pull
      · have htarget := pullTarget_some (mem_planned.mpr hclosure) (hpull hclosure)
        rw [if_pos hclosure, hchosen _ htarget, closureForState_stateForClosure]
        exact (canonical_closure _).symm
      · have htarget : pullTarget t.columns (issueSnapshot issue) (planned plan .pull) = none :=
          pullTarget_none fun hmem => hclosure (mem_planned.mp hmem)
        rw [if_neg hclosure, hderived htarget]
        by_cases hfin : t.finishes = true
        · rw [if_pos hfin, if_pos ⟨rfl, hnil, hfin⟩]
        · rw [if_neg hfin, if_neg fun hc => hfin hc.2.2]
          rfl

end After

end LinkedTicket

/-! ## The plan of the next sync -/

theorem planSync_of_ne (h : mergeField (fieldValue base field) (fieldValue ours field)
      (fieldValue remote field) ≠ .conflict) :
    planSync base ours remote policy field =
      mergeField (fieldValue base field) (fieldValue ours field) (fieldValue remote field) :=
  if_pos h

theorem planSync_agreed (h : fieldValue ours field = fieldValue remote field)
    (hbase : fieldValue ours field = fieldValue base field) :
    planSync base ours remote policy field = .unchanged := by
  have hmerge : mergeField (fieldValue base field) (fieldValue ours field)
      (fieldValue remote field) = .unchanged := by
    rw [mergeField, if_pos h, if_pos hbase]
  rw [planSync_of_ne (by rw [hmerge]; decide), hmerge]

theorem planSync_push (h : fieldValue ours field ≠ fieldValue remote field)
    (hbase : fieldValue remote field = fieldValue base field) :
    planSync base ours remote policy field = .push := by
  have hmerge := mergeField_push_iff.mpr ⟨h, hbase⟩
  rw [planSync_of_ne (by rw [hmerge]; decide), hmerge]

theorem planSync_pull (h : fieldValue ours field = fieldValue base field)
    (hbase : fieldValue remote field ≠ fieldValue base field) :
    planSync base ours remote policy field = .pull := by
  have hmerge := mergeField_pull_iff.mpr ⟨h, hbase⟩
  rw [planSync_of_ne (by rw [hmerge]; decide), hmerge]

theorem planSync_agree_iff : fieldValue ours field = fieldValue remote field ↔
    planSync base ours remote policy field = .unchanged ∨
      planSync base ours remote policy field = .converged := by
  rw [planSync, resolveConflict.eq_def, mergeField]
  cases policy <;> split_ifs <;> simp_all

theorem planSync_unchanged (h : planSync base ours remote policy field = .unchanged) :
    fieldValue ours field = fieldValue base field := by
  rw [planSync, resolveConflict.eq_def, mergeField] at h
  cases policy <;> split_ifs at h <;> simp_all

theorem planSync_moved (h : planSync base ours remote policy field = .pull ∨
    planSync base ours remote policy field = .converged) :
    fieldValue remote field ≠ fieldValue base field := by
  rw [planSync, resolveConflict.eq_def, mergeField] at h
  cases policy <;> split_ifs at h <;> simp_all

theorem planSync_congr {base' ours' remote' : IssueSnapshot}
    (hbase : fieldValue base' field = fieldValue base field)
    (hours : fieldValue ours' field = fieldValue ours field)
    (hremote : fieldValue remote' field = fieldValue remote field) :
    planSync base' ours' remote' policy field = planSync base ours remote policy field := by
  rw [planSync, planSync, hbase, hours, hremote]

theorem mem_conflictsOf {plan : SyncField → FieldOutcome} :
    field ∈ (conflictsOf base ours remote plan).map (·.field) ↔ plan field = .conflict := by
  rw [conflictsOf, map_map]
  show field ∈ (planFields.filter _).map id ↔ _
  rw [map_id, mem_filter, and_iff_right mem_planFields, decide_eq_true_iff]

theorem conflictsOf_congr {base' ours' remote' : IssueSnapshot}
    {plan plan' : SyncField → FieldOutcome}
    (hplan : ∀ field, plan' field = .conflict ↔ plan field = .conflict)
    (hvalues : ∀ field, plan field = .conflict → fieldValue base' field = fieldValue base field ∧
      fieldValue ours' field = fieldValue ours field ∧
      fieldValue remote' field = fieldValue remote field) :
    conflictsOf base' ours' remote' plan' = conflictsOf base ours remote plan := by
  have hfilter : planFields.filter (plan' · = .conflict) = planFields.filter (plan · = .conflict) :=
    filter_congr fun field _ => decide_eq_decide.mpr (hplan field)
  rw [conflictsOf, conflictsOf, hfilter]
  refine map_congr_left fun field hfield => ?_
  obtain ⟨hb, ho, hr⟩ := hvalues field (of_decide_eq_true (mem_filter.mp hfield).2)
  rw [hb, ho, hr]

/-- Behind a sync that closed its ticket itself, the closure is pushed or pulled, or is no
    conflict any more. -/
theorem closing_unsettles (b r : IssueClosure) (policy : ConflictPolicy) :
    let before := resolveConflict (mergeField b.value opened.value r.value) policy
    let after := resolveConflict (mergeField
      (if before = .push then opened.value
        else if before = .pull ∨ before = .converged then r.value else b.value)
      completed.value
      (if before = .push then canonicalText (some opened.value) else r.value)) policy
    before ≠ .pull → after = .pull ∨ after = .push ∨ before = .conflict ∧ after ≠ .conflict := by
  cases b <;> cases r <;> cases policy <;> decide

/-- The next sync of the link, from the issue as it is. -/
def Left.again (left : Left) (now : Time) (policy : ConflictPolicy) (gh : GhAnswers) : Left :=
  left.ticket.syncLink now left.issue left.link (.ok left.issue) policy gh

namespace LinkedTicket

/-- A sync that pushes nothing, pulls nothing and reports these conflicts. -/
def Settled (conflicts : List SyncConflict) (left : Left) : Prop :=
  ∃ result, left.ending = .completed result ∧ result.pulled = [] ∧ result.pushed = [] ∧
    result.conflicts = conflicts

theorem settled_iff {conflicts : List SyncConflict} :
    Settled conflicts (t.syncLink now issue link (.ok issue) policy gh) ↔
      (∀ field, t.plan link issue policy field ≠ .pull) ∧
      (∀ field, t.plan link issue policy field ≠ .push) ∧
      conflictsOf (baseSnapshot link) (ticketSnapshot t.columns) (issueSnapshot issue)
        (t.plan link issue policy) = conflicts := by
  have hnil : ∀ outcome, planned (t.plan link issue policy) outcome = [] ↔
      ∀ field, t.plan link issue policy field ≠ outcome := by
    intro outcome
    rw [eq_nil_iff_forall_not_mem]
    exact forall_congr' fun field => mem_planned.not
  constructor
  · rintro ⟨result, hresult, hpulled, hpushed, hconflicts⟩
    obtain ⟨-, heq⟩ := syncLink_through hresult
    subst heq
    dsimp only at hpulled hpushed hconflicts
    exact ⟨(hnil .pull).mp hpulled, (hnil .push).mp hpushed, hconflicts⟩
  · rintro ⟨hpulls, hpushes, hconflicts⟩
    refine ⟨{ pulled := [], pushed := [], conflicts := conflicts }, ?_, rfl, rfl, rfl⟩
    have hpulls := (hnil .pull).mpr hpulls
    have hpushes := (hnil .push).mpr hpushes
    rw [syncLink]
    generalize t.plan link issue policy = plan at hpulls hpushes hconflicts ⊢
    rw [applyPlan, hpulls, hpushes, if_neg (not_not.mpr rfl), if_neg (not_not.mpr rfl)]
    dsimp only
    rw [hconflicts]

/-- What a sync has to find for the next to find nothing: every text it pulls or pushes is
    as `canonical_text` would leave it again, and where it pulls texts only the workflow has
    not finished the ticket behind them. -/
structure Steady (t : LinkedTicket) (issue : GithubIssue) (link : GithubIssueLink)
    (policy : ConflictPolicy) : Prop where
  pulls : ∀ field, t.plan link issue policy field = .pull →
    Canonical (fieldValue (issueSnapshot issue) field)
  pushes : ∀ field, t.plan link issue policy field = .push →
    Canonical (fieldValue (ticketSnapshot t.columns) field)
  closure : planned (t.plan link issue policy) .pull ≠ [] → t.finishes →
    t.plan link issue policy .closure = .pull

variable {left : Left}

theorem plan_ne (field : SyncField) (h : t.plan link issue policy field ≠ .unchanged)
    (h' : t.plan link issue policy field ≠ .converged) :
    fieldValue (ticketSnapshot t.columns) field ≠ fieldValue (issueSnapshot issue) field :=
  fun heq => (planSync_agree_iff.mp heq).elim h h'

theorem plan_closure (h : t.plan link issue policy .closure = .pull) :
    (ticketSnapshot t.columns).closure ≠ (issueSnapshot issue).closure := fun heq =>
  plan_ne .closure (by rw [h]; decide) (by rw [h]; decide) (congrArg value heq)

section

variable (h : t.Through issue link (t.plan link issue policy) left)
include h

theorem Through.settles (steady : t.Steady issue link policy) (field : SyncField) :
    t.plan link issue policy field ≠ .conflict ∧
        left.ticket.plan left.link left.issue policy field = .unchanged ∨
      t.plan link issue policy field = .conflict ∧
        left.ticket.plan left.link left.issue policy field = .conflict ∧
        fieldValue (baseSnapshot left.link) field = fieldValue (baseSnapshot link) field ∧
        fieldValue (ticketSnapshot left.ticket.columns) field =
          fieldValue (ticketSnapshot t.columns) field ∧
        fieldValue (issueSnapshot left.issue) field = fieldValue (issueSnapshot issue) field := by
  have hb := h.base_after field
  have ho := h.pulled.ours_after plan_closure field
  have hr := h.remote_after field
  have hkept : t.plan link issue policy field ≠ .pull →
      ¬ (field = .closure ∧ planned (t.plan link issue policy) .pull ≠ [] ∧ t.finishes) := by
    rintro hno ⟨rfl, hsome, hfin⟩
    exact hno (steady.closure hsome hfin)
  cases hplan : t.plan link issue policy field with
  | pull =>
    rw [hplan] at hb ho hr
    refine .inl ⟨by decide, planSync_agreed ?_ ?_⟩
    · rw [ho, hr, if_pos rfl, if_neg (by decide)]
      exact steady.pulls field hplan
    · rw [ho, hb, if_pos rfl, if_neg (by decide), if_pos (by decide)]
      exact steady.pulls field hplan
  | push =>
    rw [if_neg (hkept (by rw [hplan]; decide)), hplan] at ho
    rw [hplan] at hb hr
    refine .inl ⟨by decide, planSync_agreed ?_ ?_⟩
    · rw [ho, hr, if_pos rfl, if_neg (by decide)]
      exact (steady.pushes field hplan).symm
    · rw [ho, hb, if_pos rfl, if_neg (by decide)]
  | unchanged =>
    rw [if_neg (hkept (by rw [hplan]; decide)), hplan] at ho
    rw [hplan] at hb hr
    refine .inl ⟨by decide, planSync_agreed ?_ ?_⟩
    · rw [ho, hr, if_neg (by decide), if_neg (by decide)]
      exact planSync_agree_iff.mpr (.inl hplan)
    · rw [ho, hb, if_neg (by decide), if_neg (by decide), if_neg (by decide)]
      exact planSync_unchanged hplan
  | converged =>
    rw [if_neg (hkept (by rw [hplan]; decide)), hplan] at ho
    rw [hplan] at hb hr
    have hagree : fieldValue (ticketSnapshot t.columns) field =
        fieldValue (issueSnapshot issue) field := planSync_agree_iff.mpr (.inr hplan)
    refine .inl ⟨by decide, planSync_agreed ?_ ?_⟩
    · rw [ho, hr, if_neg (by decide), if_neg (by decide)]
      exact hagree
    · rw [ho, hb, if_neg (by decide), if_neg (by decide), if_pos (by decide)]
      exact hagree
  | conflict =>
    rw [if_neg (hkept (by rw [hplan]; decide)), hplan] at ho
    rw [hplan] at hb hr
    rw [if_neg (by decide), if_neg (by decide)] at hb
    rw [if_neg (by decide)] at ho hr
    exact .inr ⟨rfl, (planSync_congr hb ho hr).trans hplan, hb, ho, hr⟩

/-- A text that is not as `canonical_text` would leave it comes back from the other side. -/
theorem Through.unsettled_text (field : SyncField) (hsync : t.plan link issue policy field = .pull ∧
        ¬ Canonical (fieldValue (issueSnapshot issue) field) ∨
      t.plan link issue policy field = .push ∧
        ¬ Canonical (fieldValue (ticketSnapshot t.columns) field)) :
    left.ticket.plan left.link left.issue policy field = .push ∨
      left.ticket.plan left.link left.issue policy field = .pull := by
  have hfield : field ≠ .closure := by
    rintro rfl
    exact hsync.elim (fun hp => hp.2 (canonical_closure _)) fun hp => hp.2 (canonical_closure _)
  have hb := h.base_after field
  have ho := h.pulled.ours_after plan_closure field
  have hr := h.remote_after field
  rw [if_neg (c := field = .closure ∧ _) fun hc => hfield hc.1] at ho
  rcases hsync with ⟨hplan, hcanonical⟩ | ⟨hplan, hcanonical⟩
  · rw [hplan] at hb ho hr
    rw [if_neg (by decide), if_pos (by decide)] at hb
    rw [if_pos rfl] at ho
    rw [if_neg (by decide)] at hr
    refine .inl (planSync_push ?_ (hr.trans hb.symm))
    rw [ho, hr]
    exact hcanonical
  · rw [hplan] at hb ho hr
    rw [if_pos rfl] at hb hr
    rw [if_neg (by decide)] at ho
    refine .inr (planSync_pull (ho.trans hb.symm) ?_)
    rw [hr, hb]
    exact hcanonical

theorem Through.unsettled_closure (hsome : planned (t.plan link issue policy) .pull ≠ [])
    (hfin : t.finishes = true) (hclosure : t.plan link issue policy .closure ≠ .pull) :
    left.ticket.plan left.link left.issue policy .closure = .pull ∨
      left.ticket.plan left.link left.issue policy .closure = .push ∨
      t.plan link issue policy .closure = .conflict ∧
        left.ticket.plan left.link left.issue policy .closure ≠ .conflict := by
  have hb := h.base_after .closure
  have ho := h.pulled.ours_after (fun hp => absurd hp hclosure) .closure
  have hr := h.remote_after .closure
  have hours : fieldValue (ticketSnapshot t.columns) .closure = opened.value :=
    congrArg value (finishes_open hfin)
  rw [if_neg hclosure, if_pos ⟨rfl, hsome, hfin⟩] at ho
  have hafter : left.ticket.plan left.link left.issue policy .closure =
      resolveConflict (mergeField (fieldValue (baseSnapshot left.link) .closure)
        (fieldValue (ticketSnapshot left.ticket.columns) .closure)
        (fieldValue (issueSnapshot left.issue) .closure)) policy := rfl
  have hbefore : t.plan link issue policy .closure =
      resolveConflict (mergeField (baseSnapshot link).closure.value opened.value
        (issueSnapshot issue).closure.value) policy := by
    rw [← hours]
    rfl
  rw [hafter, ho, hb, hr, hours]
  rw [hbefore] at hclosure ⊢
  exact closing_unsettles (baseSnapshot link).closure (issueSnapshot issue).closure policy hclosure

end

/-- **When a second sync changes nothing.** A sync is through; its successor, which fetches the
    issue, pushes nothing, pulls nothing and reports the same conflicts exactly when the first found
    its texts steady. -/
theorem second_sync_changes_nothing_iff (now now' : Time) (t : LinkedTicket) (issue : GithubIssue)
    (link : GithubIssueLink) (policy : ConflictPolicy) (gh gh' : GhAnswers) (first : LinkSyncResult)
    (h : (t.syncLink now issue link (.ok issue) policy gh).ending = .completed first) :
    let left := t.syncLink now issue link (.ok issue) policy gh
    Settled first.conflicts (left.again now' policy gh') ↔ t.Steady issue link policy := by
  intro left
  obtain ⟨through, hfirst⟩ := syncLink_through h
  subst hfirst
  rw [Left.again, settled_iff]
  dsimp only
  constructor
  · rintro ⟨hpulls, hpushes, hconflicts⟩
    have hno : ∀ field, ¬ (left.ticket.plan left.link left.issue policy field = .push ∨
        left.ticket.plan left.link left.issue policy field = .pull) :=
      fun field hmoved => hmoved.elim (hpushes field) (hpulls field)
    refine ⟨fun field hp => ?_, fun field hp => ?_, fun hsome hfin => ?_⟩
    · by_contra hcanonical
      exact hno field (through.unsettled_text field (.inl ⟨hp, hcanonical⟩))
    · by_contra hcanonical
      exact hno field (through.unsettled_text field (.inr ⟨hp, hcanonical⟩))
    · by_contra hclosure
      rcases through.unsettled_closure hsome hfin hclosure with hp | hp | ⟨hwas, hnot⟩
      · exact hpulls .closure hp
      · exact hpushes .closure hp
      · -- the conflicts are the same, so the closure is in one still
        have hmem : SyncField.closure ∈ (conflictsOf (baseSnapshot left.link)
            (ticketSnapshot left.ticket.columns) (issueSnapshot left.issue)
            (left.ticket.plan left.link left.issue policy)).map (·.field) := by
          rw [hconflicts]
          exact mem_conflictsOf.mpr hwas
        exact hnot (mem_conflictsOf.mp hmem)
  · intro steady
    have hsettles := through.settles steady
    refine ⟨fun field hp => ?_, fun field hp => ?_, conflictsOf_congr (fun field => ?_) ?_⟩
    · rcases hsettles field with ⟨-, hrest⟩ | ⟨-, hrest, -⟩ <;>
        (rw [hrest] at hp; cases hp)
    · rcases hsettles field with ⟨-, hrest⟩ | ⟨-, hrest, -⟩ <;>
        (rw [hrest] at hp; cases hp)
    · rcases hsettles field with ⟨hnot, hrest⟩ | ⟨hwas, hrest, -⟩
      · rw [hrest]
        refine ⟨fun hc => ?_, fun hc => absurd hc hnot⟩
        cases hc
      · exact ⟨fun _ => hwas, fun _ => hrest⟩
    · intro field hwas
      rcases hsettles field with ⟨hnot, -⟩ | ⟨-, -, hvalues⟩
      · exact absurd hwas hnot
      · exact hvalues

def plainIssue : GithubIssue where
  title := "Widgets wobble"
  body := some "one\r\ntwo\r\nthree"
  closure := .opened

def plainLink : GithubIssueLink where
  syncedTitle := "Widgets wobble"
  syncedBody := "one\ntwo"
  syncedClosure := .opened

def plainTicket : LinkedTicket where
  title := "Widgets wobble"
  description := "one\ntwo"

/-- A body saved with the line endings of GitHub's editor is pulled, and stays. -/
theorem plain_body_settles :
    Settled [] ((plainTicket.syncLink 0 plainIssue plainLink (.ok plainIssue) .report {}).again
      1 .report {}) := by
  refine (second_sync_changes_nothing_iff 0 1 plainTicket plainIssue plainLink .report {} {}
    { pulled := [.body] } (by decide +kernel)).mpr ⟨fun field _ => ?_, fun field hp => ?_, ?_⟩
  · cases field with
    | closure => exact canonical_closure _
    | title | body => unfold Canonical; decide +kernel
  · cases field with
    | closure => exact canonical_closure _
    | title | body => unfold Canonical; decide +kernel
  · intro _ hfin
    cases hfin

/-- A body with a line that ends in two carriage returns and a line feed. -/
def strayIssue : GithubIssue where
  title := "Widgets wobble"
  body := some "one\r\r\ntwo"
  closure := .opened

/-- The body pulled by the first sync is pushed back by the second, and nobody has edited. -/
theorem stray_return_is_pushed_back :
    let left := plainTicket.syncLink 0 strayIssue plainLink (.ok strayIssue) .report {}
    left.ending = .completed { pulled := [.body] } ∧
      (left.again 1 .report {}).ending = .completed { pushed := [.body] } ∧
      ¬ Settled [] (left.again 1 .report {}) := by
  intro left
  have hfirst : left.ending = .completed { pulled := [.body] } := by decide +kernel
  have hsecond : (left.again 1 .report {}).ending = .completed { pushed := [.body] } := by
    decide +kernel
  refine ⟨hfirst, hsecond, ?_⟩
  rintro ⟨result, hresult, -, hpushed, -⟩
  rw [hsecond] at hresult
  obtain rfl := Ending.completed.inj hresult
  cases hpushed

end LinkedTicket

end Loregarden.IssueSync

