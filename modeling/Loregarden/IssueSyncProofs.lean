import Loregarden.IssueSyncModel

/-! # What a sync overwrites

    A sync writes a side when the merge finds that only the other one moved. Against
    the ticket, which it reads live, the merge is never wrong; against the issue it is
    right only as far as the copy it reads is.

    * `syncLink_landed`, `syncLink_pulls`, `syncLink_kept`: what one sync writes;
    * `Pass.truthful_of_current`, `Pass.current_of_truthful`: when it overwrites nothing
      unseen;
    * `syncs_overwrite_seen`: every history. -/

namespace Loregarden.IssueSync

open List

open Lanes (TicketState)

variable {ticket : Ticket} {issue copy : GithubIssue} {link : GithubIssueLink}
  {base ours remote : IssueSnapshot} {field : SyncField} {fields : List SyncField}
  {gh : GhAnswers} {outcome : FieldOutcome}
variable {edited : Ticket} {p : Pushed} {f : GithubIssue → GithubIssue}

theorem mergeField_push_iff {base ours remote : String} :
    mergeField base ours remote = .push ↔ ours ≠ remote ∧ remote = base := by
  rw [mergeField]
  split_ifs <;> simp_all

theorem mergeField_pull_iff {base ours remote : String} :
    mergeField base ours remote = .pull ↔ ours = base ∧ remote ≠ base := by
  rw [mergeField]
  split_ifs <;> simp_all [eq_comm]

theorem mergeField_conflict_iff {base ours remote : String} :
    mergeField base ours remote = .conflict ↔ ours ≠ base ∧ remote ≠ base ∧ ours ≠ remote := by
  rw [mergeField]
  split_ifs <;> simp_all

theorem planSync_report : planSync base ours remote .report field =
    mergeField (fieldValue base field) (fieldValue ours field) (fieldValue remote field) := by
  rw [planSync, resolveConflict]
  split
  · rfl
  · rename_i h
    exact (not_not.mp h).symm

theorem mem_planned {plan : SyncField → FieldOutcome} :
    field ∈ planned plan outcome ↔ plan field = outcome := by
  rw [planned, mem_filter, decide_eq_true_iff, and_iff_right]
  cases field <;> decide

theorem mem_planFields : field ∈ planFields := by cases field <;> decide

def ticketField (ticket : Ticket) : SyncField → String
  | .title => ticket.title
  | .body => ticket.description
  | .closure => ticket.state.value

def issueField (issue : GithubIssue) : SyncField → Option String
  | .title => some issue.title
  | .body => issue.body
  | .closure => some issue.closure.value

theorem choose_kept {target : TicketState} (h : choose ticket target = .ok edited) :
    edited.title = ticket.title ∧ edited.description = ticket.description := by
  rw [choose] at h
  split at h
  · rw [← Except.ok.inj h]
    exact ⟨rfl, rfl⟩
  · split at h
    · cases h
    · rw [← Except.ok.inj h]
      exact ⟨rfl, rfl⟩

theorem applyContentEdits_kept {request : UpdateTicketRequest}
    (h : applyContentEdits ticket request = .ok edited) :
    (request.title = none → edited.title = ticket.title) ∧
      (request.description = none → edited.description = ticket.description) ∧
      edited.state = ticket.state := by
  rw [applyContentEdits] at h
  split at h
  · cases h
  · split at h
    · cases h
    · rw [← Except.ok.inj h]
      exact ⟨fun hnone => by rw [hnone]; rfl, fun hnone => by rw [hnone]; rfl, rfl⟩

theorem updateTicketManual_kept {request : UpdateTicketRequest}
    (h : updateTicketManual ticket request = .ok edited) :
    (request.title = none → edited.title = ticket.title) ∧
      (request.description = none → edited.description = ticket.description) ∧
      (request.state = none → edited.state = ticket.state) := by
  rw [updateTicketManual] at h
  cases hcontent : applyContentEdits ticket request with
  | error reason =>
    rw [hcontent] at h
    cases h
  | ok content =>
    rw [hcontent] at h
    obtain ⟨htitle, hdescription, hstate⟩ := applyContentEdits_kept hcontent
    cases hreq : request.state with
    | none =>
      simp only [hreq] at h
      obtain rfl := Except.ok.inj h
      exact ⟨htitle, hdescription, fun _ => hstate⟩
    | some state =>
      simp only [hreq] at h
      obtain ⟨ht, hd⟩ := choose_kept h
      exact ⟨fun hnone => ht.trans (htitle hnone), fun hnone => hd.trans (hdescription hnone),
        fun hnone => by cases hnone⟩

theorem pull_kept (h : field ∉ fields) :
    ticketField (pull ticket remote fields).1 field = ticketField ticket field := by
  have htarget : .closure ∉ fields → pullTarget ticket remote fields = none := by
    intro hc
    rw [pullTarget, if_pos hc]
  -- the way through the backlog moves the state only, and only for a pulled closure
  have hreopened : ∀ reopened, (if (pullTarget ticket remote fields).any fun state =>
        ¬ canChoose ticket.state state then
      updateTicketManual ticket { state := some .backlog } else .ok ticket) = .ok reopened →
      ticketField reopened field = ticketField ticket field := by
    intro reopened hr
    split at hr
    · rename_i hany
      obtain ⟨ht, hd, -⟩ := updateTicketManual_kept hr
      cases field with
      | title => exact ht rfl
      | body => exact hd rfl
      | closure =>
        rw [htarget h] at hany
        cases hany
    · rw [← Except.ok.inj hr]
  rw [pull]
  dsimp only
  split
  · rfl
  · rename_i reopened hr
    split
    · exact hreopened _ hr
    · rename_i pulled hp
      rw [← hreopened _ hr]
      obtain ⟨ht, hd, hs⟩ := updateTicketManual_kept hp
      cases field with
      | title => exact ht (if_neg h)
      | body => exact hd (if_neg h)
      | closure => exact congrArg TicketState.value (hs (htarget h))

theorem call_kept {answer : GhAnswer}
    (hf : field ∉ fields → issueField (f p.issue) field = issueField p.issue field)
    (h : field ∉ (p.call answer f fields).landed) : field ∉ p.landed ∧
      issueField (p.call answer f fields).issue field = issueField p.issue field := by
  rw [Pushed.call.eq_def] at h ⊢
  split at h
  · rename_i herror
    rw [if_pos herror]
    exact ⟨h, rfl⟩
  · rename_i herror
    rw [if_neg herror]
    cases answer with
    | ok =>
      rw [mem_append, not_or] at h
      exact ⟨h.1, hf h.2⟩
    | failed detail applied =>
      cases applied with
      | true =>
        rw [mem_append, not_or] at h
        exact ⟨h.1, hf h.2⟩
      | false => exact ⟨h, rfl⟩

theorem call_landed {answer : GhAnswer}
    (h : field ∈ (p.call answer f fields).landed) : field ∈ p.landed ∨ field ∈ fields := by
  rw [Pushed.call.eq_def] at h
  split at h
  · exact .inl h
  · split at h
    · exact mem_append.mp h
    · exact mem_append.mp h
    · exact .inl h

theorem setIssueClosure_kept {closure : IssueClosure} (h : field ≠ .closure) :
    issueField (setIssueClosure issue closure) field = issueField issue field := by
  rw [setIssueClosure]
  split
  · cases field with
    | title | body => rfl
    | closure => exact absurd rfl h
  · rfl

/-- The part of a push that edits the texts. -/
def pushText (ours : IssueSnapshot) (fields : List SyncField) (issue : GithubIssue)
    (gh : GhAnswers) : Pushed :=
  if .title ∈ fields ∨ .body ∈ fields then
    ({ issue := issue } : Pushed).call gh.edit
      (editIssue · (if .title ∈ fields then some ours.title else none)
        (if .body ∈ fields then some ours.body else none)) (fields.filter (· ≠ .closure))
  else { issue := issue }

theorem push_kept (h : field ∉ (push ours remote fields issue gh).landed) :
    issueField (push ours remote fields issue gh).issue field = issueField issue field := by
  have hedit : field ∉ fields.filter (· ≠ .closure) →
      issueField (editIssue issue (if .title ∈ fields then some ours.title else none)
        (if .body ∈ fields then some ours.body else none)) field = issueField issue field := by
    intro hf
    rw [mem_filter, not_and, decide_eq_true_iff, not_not] at hf
    cases field with
    | title | body => rw [if_neg fun hm => SyncField.noConfusion (hf hm)]; rfl
    | closure => rfl
  have htext : field ∉ (pushText ours fields issue gh).landed →
      issueField (pushText ours fields issue gh).issue field = issueField issue field := by
    rw [pushText]
    split
    · exact fun h => (call_kept hedit h).2
    · exact fun _ => rfl
  have hset : ∀ (i : GithubIssue) (closure : IssueClosure), field ∉ [SyncField.closure] →
      issueField (setIssueClosure i closure) field = issueField i field :=
    fun i closure hf => setIssueClosure_kept fun hc => hf (mem_singleton.mpr hc)
  rw [push] at h ⊢
  split at h
  · rename_i hc
    rw [if_pos hc]
    obtain ⟨h, hkept⟩ := call_kept (hset _ _) h
    refine hkept.trans ?_
    split at h
    · rename_i hr
      rw [if_pos hr]
      obtain ⟨h, hkept⟩ := call_kept (hset _ _) h
      exact hkept.trans (htext h)
    · rename_i hr
      rw [if_neg hr]
      exact htext h
  · rename_i hc
    rw [if_neg hc]
    exact htext h

theorem push_landed (h : field ∈ (push ours remote fields issue gh).landed) : field ∈ fields := by
  have htext : field ∈ (pushText ours fields issue gh).landed → field ∈ fields := by
    intro h
    rw [pushText] at h
    split at h
    · rcases call_landed h with h | h
      · cases h
      · exact mem_of_mem_filter h
    · cases h
  rw [push] at h
  split at h
  · rename_i hc
    have hclosure : field ∈ [SyncField.closure] → field ∈ fields := by
      intro hm
      rw [mem_singleton.mp hm]
      exact hc
    rcases call_landed h with h | h
    · split at h
      · rcases call_landed h with h | h
        · exact htext h
        · exact hclosure h
      · exact htext h
    · exact hclosure h
  · exact htext h

theorem call_ok (h : p.error = none) :
    (p.call .ok f fields).landed = p.landed ++ fields ∧ (p.call .ok f fields).error = none := by
  rw [Pushed.call.eq_def, h]
  exact ⟨rfl, rfl⟩

theorem push_ok (h : field ∈ fields) : field ∈ (push ours remote fields issue {}).landed := by
  have htext : (pushText ours fields issue {}).error = none ∧
      (field ≠ .closure → field ∈ (pushText ours fields issue {}).landed) := by
    rw [pushText]
    split
    · obtain ⟨hlanded, herror⟩ := call_ok (p := { issue := issue }) rfl
      refine ⟨herror, fun hne => ?_⟩
      exact mem_append_right _ (mem_filter.mpr ⟨h, decide_eq_true hne⟩)
    · rename_i hnone
      refine ⟨rfl, fun hne => absurd ?_ hnone⟩
      cases field with
      | title => exact .inl h
      | body => exact .inr h
      | closure => exact absurd rfl hne
  obtain ⟨herror, hlanded⟩ := htext
  rw [push]
  split
  · -- the closure is written last, over what the text left
    have hlast : ∀ reopened : Pushed, reopened.error = none →
        (field ≠ .closure → field ∈ reopened.landed) →
        field ∈ (reopened.call .ok (setIssueClosure · ours.closure) [.closure]).landed := by
      intro reopened he hl
      rw [(call_ok he).1]
      by_cases hf : field = .closure
      · exact mem_append_right _ (mem_singleton.mpr hf)
      · exact mem_append_left _ (hl hf)
    split
    · refine hlast _ (call_ok herror).2 fun hne => ?_
      show field ∈ ((pushText ours fields issue {}).call .ok _ _).landed
      rw [(call_ok herror).1]
      exact mem_append_left _ (hlanded hne)
    · exact hlast _ herror hlanded
  · rename_i hc
    exact hlanded fun hf => hc (hf ▸ h)

/-! ## One sync -/

section Plan

variable {plan : SyncField → FieldOutcome}

theorem pull_nil : pull ticket remote [] = (ticket, .ok ()) := rfl

theorem push_if (fields : List SyncField) : (if fields ≠ [] then push ours remote fields issue gh
    else { issue := issue }) = push ours remote fields issue gh := by
  split
  · rfl
  · rename_i hnil
    rw [not_not.mp hnil]
    rfl

theorem applyPlan_refused {reason : EditError}
    (h : (pull ticket remote (planned plan .pull)).2 = .error reason) :
    applyPlan ticket issue link base ours remote plan gh =
      { ticket := (pull ticket remote (planned plan .pull)).1, issue := issue, link := link
        pulls := planned plan .pull, landed := [], result := .error reason } := by
  have hne : planned plan .pull ≠ [] := fun hnil => by
    rw [hnil, pull_nil] at h
    cases h
  rw [applyPlan, if_pos hne]
  generalize pull ticket remote (planned plan .pull) = p at h
  obtain ⟨t, r⟩ := p
  obtain rfl : r = .error reason := h
  rfl

theorem applyPlan_through (issue : GithubIssue) (link : GithubIssueLink) (base : IssueSnapshot)
    (gh : GhAnswers) (h : (pull ticket remote (planned plan .pull)).2 = .ok ()) :
    let left := applyPlan ticket issue link base ours remote plan gh
    let pushed := push ours remote (planned plan .push) issue gh
    left.ticket = (pull ticket remote (planned plan .pull)).1 ∧ left.issue = pushed.issue ∧
      left.pulls = planned plan .pull ∧ left.landed = pushed.landed ∧
      ∃ result, left.result = .ok result ∧ result.conflicts =
        (planFields.filter (plan · = .conflict)).map fun field =>
          { field := field, base := fieldValue base field, ours := fieldValue ours field
            remote := fieldValue remote field } := by
  have hpull : (if planned plan .pull ≠ [] then pull ticket remote (planned plan .pull)
      else (ticket, .ok ())) = pull ticket remote (planned plan .pull) := by
    split
    · rfl
    · rename_i hnil
      rw [not_not.mp hnil, pull_nil]
  rw [applyPlan, hpull, push_if]
  generalize pull ticket remote (planned plan .pull) = p at h
  generalize push ours remote (planned plan .push) issue gh = q
  obtain ⟨t, r⟩ := p
  obtain rfl : r = .ok () := h
  obtain ⟨i, landed, error⟩ := q
  cases error with
  | none | some detail => exact ⟨rfl, rfl, rfl, rfl, _, rfl, rfl⟩

end Plan

namespace Pass

/-- Both sides of a field have moved since the base, and apart. -/
def BothChanged (p : Pass) (field : SyncField) : Prop :=
  fieldValue (ticketSnapshot p.ticket) field ≠ fieldValue (baseSnapshot p.link) field ∧
    fieldValue (issueSnapshot p.issue) field ≠ fieldValue (baseSnapshot p.link) field ∧
    fieldValue (ticketSnapshot p.ticket) field ≠ fieldValue (issueSnapshot p.issue) field

/-- A sync overwrites only what the link has as the base, and reports what both sides changed. -/
structure Truthful (p : Pass) : Prop where
  ticket_frame : ∀ field, field ∉ p.left.pulls →
    ticketField p.left.ticket field = ticketField p.ticket field
  issue_frame : ∀ field, field ∉ p.left.landed →
    issueField p.left.issue field = issueField p.issue field
  pulls_over_base : ∀ field ∈ p.left.pulls,
    fieldValue (ticketSnapshot p.ticket) field = fieldValue (baseSnapshot p.link) field
  pushes_over_base : ∀ field ∈ p.left.landed,
    fieldValue (issueSnapshot p.issue) field = fieldValue (baseSnapshot p.link) field
  reports : ∀ field, p.BothChanged field → field ∉ p.left.pulls ∧ field ∉ p.left.landed ∧
    ∃ result, p.left.result = .ok result ∧ field ∈ result.conflicts.map (·.field)

def plan (p : Pass) : SyncField → FieldOutcome :=
  planSync (baseSnapshot p.link) (ticketSnapshot p.ticket) (issueSnapshot p.copy) .report

def pulls (p : Pass) : List SyncField := planned p.plan .pull

def pushes (p : Pass) : List SyncField := planned p.plan .push

/-- The ticket refuses the edit a sync would pull into it. -/
def PullRefused (p : Pass) : Prop :=
  ∃ reason, (pull p.ticket (issueSnapshot p.copy) p.pulls).2 = .error reason

/-- The copy a sync reads is current where it matters: a field the ticket changed and the
    copy shows unchanged is unchanged on the issue, and one both sides changed shows so;
    and where one is, the ticket refuses no pull. -/
def Current (p : Pass) : Prop :=
  (¬ p.PullRefused → ∀ field,
    fieldValue (ticketSnapshot p.ticket) field ≠ fieldValue (baseSnapshot p.link) field →
    fieldValue (issueSnapshot p.copy) field = fieldValue (baseSnapshot p.link) field →
    fieldValue (issueSnapshot p.issue) field = fieldValue (baseSnapshot p.link) field) ∧
  ∀ field, p.BothChanged field → ¬ p.PullRefused ∧
    fieldValue (issueSnapshot p.copy) field ≠ fieldValue (baseSnapshot p.link) field ∧
    fieldValue (issueSnapshot p.copy) field ≠ fieldValue (ticketSnapshot p.ticket) field

/-- The sync left what `sync_link` leaves. -/
def Made (p : Pass) : Prop := p.left = syncLink p.ticket p.issue p.link p.copy .report p.gh

variable {p : Pass}

section

variable (made : p.Made)
include made

theorem Made.eq : p.left =
    applyPlan p.ticket p.issue p.link (baseSnapshot p.link) (ticketSnapshot p.ticket)
      (issueSnapshot p.copy) p.plan p.gh := made

theorem Made.refused {reason : EditError}
    (h : (pull p.ticket (issueSnapshot p.copy) p.pulls).2 = .error reason) :
    p.left = { ticket := (pull p.ticket (issueSnapshot p.copy) p.pulls).1, issue := p.issue
               link := p.link, pulls := p.pulls, landed := [], result := .error reason } := by
  rw [Pass.pulls] at h ⊢
  rw [made.eq, applyPlan_refused h]

theorem Made.through (h : ¬ p.PullRefused) :
    let pushed := push (ticketSnapshot p.ticket) (issueSnapshot p.copy) p.pushes p.issue p.gh
    p.left.ticket = (pull p.ticket (issueSnapshot p.copy) p.pulls).1 ∧
      p.left.issue = pushed.issue ∧ p.left.pulls = p.pulls ∧ p.left.landed = pushed.landed ∧
      ∃ result, p.left.result = .ok result ∧
        ∀ field, field ∈ result.conflicts.map (·.field) ↔ p.plan field = .conflict := by
  have hok : (pull p.ticket (issueSnapshot p.copy) p.pulls).2 = .ok () := by
    cases hp : (pull p.ticket (issueSnapshot p.copy) p.pulls).2 with
    | error reason => exact absurd ⟨reason, hp⟩ h
    | ok _ => rfl
  rw [Pass.pulls] at hok
  obtain ⟨hticket, hissue, hpulls, hlanded, result, hresult, hconflicts⟩ :=
    applyPlan_through p.issue p.link (baseSnapshot p.link) p.gh hok
  rw [← made.eq] at hticket hissue hpulls hlanded hresult
  refine ⟨hticket, hissue, hpulls, hlanded, result, hresult, fun field => ?_⟩
  rw [hconflicts, map_map]
  show field ∈ (planFields.filter _).map id ↔ _
  rw [map_id, mem_filter, and_iff_right mem_planFields, decide_eq_true_iff]

omit made in
theorem plan_pull_iff : p.plan field = .pull ↔
    fieldValue (ticketSnapshot p.ticket) field = fieldValue (baseSnapshot p.link) field ∧
      fieldValue (issueSnapshot p.copy) field ≠ fieldValue (baseSnapshot p.link) field := by
  rw [plan, planSync_report, mergeField_pull_iff]

omit made in
theorem plan_push_iff : p.plan field = .push ↔
    fieldValue (ticketSnapshot p.ticket) field ≠ fieldValue (baseSnapshot p.link) field ∧
      fieldValue (issueSnapshot p.copy) field = fieldValue (baseSnapshot p.link) field := by
  rw [plan, planSync_report, mergeField_push_iff]
  constructor
  · rintro ⟨hne, hr⟩
    rw [hr] at hne
    exact ⟨hne, hr⟩
  · rintro ⟨hne, hr⟩
    rw [← hr] at hne
    exact ⟨hne, hr⟩

omit made in
theorem plan_conflict_iff : p.plan field = .conflict ↔
    fieldValue (ticketSnapshot p.ticket) field ≠ fieldValue (baseSnapshot p.link) field ∧
      fieldValue (issueSnapshot p.copy) field ≠ fieldValue (baseSnapshot p.link) field ∧
      fieldValue (issueSnapshot p.copy) field ≠ fieldValue (ticketSnapshot p.ticket) field := by
  rw [plan, planSync_report, mergeField_conflict_iff]
  exact and_congr_right fun _ => and_congr_right fun _ => ne_comm

theorem Made.ticket_frame (h : field ∉ p.pulls) :
    ticketField p.left.ticket field = ticketField p.ticket field := by
  by_cases hrefused : p.PullRefused
  · obtain ⟨reason, hreason⟩ := hrefused
    rw [made.refused hreason]
    dsimp only
    exact pull_kept h
  · rw [(made.through hrefused).1]
    exact pull_kept h

theorem Made.left_pulls : p.left.pulls = p.pulls := by
  by_cases hrefused : p.PullRefused
  · obtain ⟨reason, hreason⟩ := hrefused
    rw [made.refused hreason]
  · exact (made.through hrefused).2.2.1

theorem Made.issue_frame (h : field ∉ p.left.landed) :
    issueField p.left.issue field = issueField p.issue field := by
  by_cases hrefused : p.PullRefused
  · obtain ⟨reason, hreason⟩ := hrefused
    rw [made.refused hreason]
  · obtain ⟨-, hissue, -, hlanded, -⟩ := made.through hrefused
    rw [hlanded] at h
    rw [hissue]
    exact push_kept h

theorem Made.landed (h : field ∈ p.left.landed) : ¬ p.PullRefused ∧ p.plan field = .push := by
  by_cases hrefused : p.PullRefused
  · obtain ⟨reason, hreason⟩ := hrefused
    rw [made.refused hreason] at h
    cases h
  · rw [(made.through hrefused).2.2.2.1] at h
    exact ⟨hrefused, mem_planned.mp (push_landed h)⟩

/-- **A sync with a current copy overwrites nothing unseen.** -/
theorem Made.truthful (current : p.Current) : p.Truthful where
  ticket_frame _ h := made.ticket_frame (made.left_pulls ▸ h)
  issue_frame _ h := made.issue_frame h
  pulls_over_base field h := by
    rw [made.left_pulls] at h
    exact (plan_pull_iff.mp (mem_planned.mp h)).1
  pushes_over_base field h := by
    obtain ⟨hrefused, hpush⟩ := made.landed h
    obtain ⟨hours, hcopy⟩ := plan_push_iff.mp hpush
    exact current.1 hrefused field hours hcopy
  reports field h := by
    obtain ⟨hrefused, hbase, hours⟩ := current.2 field h
    have hconflict : p.plan field = .conflict := plan_conflict_iff.mpr ⟨h.1, hbase, hours⟩
    refine ⟨fun hpull => ?_, fun hland => ?_, ?_⟩
    · rw [made.left_pulls, pulls, mem_planned, hconflict] at hpull
      cases hpull
    · have hpush := (made.landed hland).2
      rw [hconflict] at hpush
      cases hpush
    · obtain ⟨-, -, -, -, result, hresult, hconflicts⟩ := made.through hrefused
      exact ⟨result, hresult, (hconflicts field).mpr hconflict⟩

/-- Where every call to `gh` answers, a sync overwrites nothing unseen only with a current copy. -/
theorem Made.current (hgh : p.gh = {}) (truthful : p.Truthful) : p.Current := by
  refine ⟨fun hrefused field hours hcopy => ?_, fun field h => ?_⟩
  · refine truthful.pushes_over_base field ?_
    rw [(made.through hrefused).2.2.2.1, hgh]
    exact push_ok (mem_planned.mpr (plan_push_iff.mpr ⟨hours, hcopy⟩))
  · obtain ⟨-, -, result, hresult, hmem⟩ := truthful.reports field h
    have hrefused : ¬ p.PullRefused := by
      rintro ⟨reason, hreason⟩
      rw [made.refused hreason] at hresult
      cases hresult
    obtain ⟨-, -, -, -, result', hresult', hconflicts⟩ := made.through hrefused
    obtain rfl : result = result' := Except.ok.inj (hresult.symm.trans hresult')
    exact ⟨hrefused, (plan_conflict_iff.mp ((hconflicts field).mp hmem)).2⟩

end

theorem current_of_fetch (hcopy : p.copy = p.issue)
    (hrefused : p.PullRefused → ∀ field, ¬ p.BothChanged field) : p.Current := by
  refine ⟨fun _ field _ h => hcopy ▸ h, fun field h => ?_⟩
  rw [hcopy]
  exact ⟨fun hr => hrefused hr field h, h.2.1, h.2.2.symm⟩

end Pass

/-- Every sync of a history left what `sync_link` leaves. -/
theorem World.step_made {w : World} (h : ∀ p ∈ w.passes, p.Made) (e : Event) :
    ∀ p ∈ (w.step e).passes, p.Made := by
  have hsync : ∀ (copy : GithubIssue) (gh : GhAnswers), ∀ p ∈ (w.sync copy gh).passes, p.Made := by
    intro copy gh p hp
    rcases mem_append.mp hp with hp | hp
    · exact h p hp
    · rw [mem_singleton.mp hp, Pass.Made]
  cases e with
  | fetch gh => exact hsync _ _
  | deliver index gh =>
    rw [World.step]
    cases w.deliveries[index]? with
    | none => exact h
    | some copy => exact hsync _ _
  | _ => exact h

theorem World.run_made {w : World} (h : ∀ p ∈ w.passes, p.Made) (events : List Event) :
    ∀ p ∈ (w.run events).passes, p.Made := by
  induction events generalizing w with
  | nil => exact h
  | cons e events ih => exact ih (World.step_made h e)

/-- **When syncs overwrite nothing unseen.** In a history in which every sync reads a copy that is
    current where it matters, every sync writes a side only over the base and reports what both
    sides changed; and a sync whose calls are answered does so exactly then. A sync that fetches the
    issue reads such a copy. -/
theorem syncs_overwrite_seen (ticket : Ticket) (issue : GithubIssue) (link : GithubIssueLink)
    (events : List Event) :
    let w := World.run { ticket := ticket, issue := issue, link := link } events
    ((∀ p ∈ w.passes, p.Current) → ∀ p ∈ w.passes, p.Truthful) ∧
      (∀ p ∈ w.passes, p.gh = {} → (p.Truthful ↔ p.Current)) ∧
      ∀ p ∈ w.passes, p.copy = p.issue → (p.PullRefused → ∀ field, ¬ p.BothChanged field) →
        p.Current := by
  have made := World.run_made (w := { ticket := ticket, issue := issue, link := link })
    (fun _ h => by cases h) events
  refine ⟨fun h p hp => (made p hp).truthful (h p hp), fun p hp hgh => ?_, fun p _ => ?_⟩
  · exact ⟨fun h => (made p hp).current hgh h, fun h => (made p hp).truthful h⟩
  · exact Pass.current_of_fetch

/-- The issue and the ticket agree on its title; a delivery is emitted; both titles are
    edited; the delivery arrives. -/
def lateDelivery : List Event :=
  [.emit, .editIssue { title := "Widgets wobble at speed", body := none, closure := .opened },
   .editTicket { title := "Widgets fall over", description := "", state := .backlog },
   .deliver 0 {}]

def lateWorld : World where
  ticket := { title := "Widgets wobble", description := "", state := .backlog }
  issue := { title := "Widgets wobble", body := none, closure := .opened }
  link := { syncedTitle := "Widgets wobble", syncedBody := "", syncedClosure := .opened }

/-- The title edited on GitHub is overwritten: it is not the base, and no conflict is reported. -/
theorem late_delivery_overwrites :
    let w := lateWorld.run lateDelivery
    w.issue.title = "Widgets fall over" ∧ w.passes.map (·.issue.title) = ["Widgets wobble at speed"] ∧
      w.passes.map (·.link.syncedTitle) = ["Widgets wobble"] ∧
      w.passes.map (fun p => p.left.result.toOption.map (·.conflicts)) = [some []] ∧
      ¬ ∀ p ∈ w.passes, p.Truthful := by
  have hrun : (lateWorld.run lateDelivery).issue.title = "Widgets fall over" ∧
      (lateWorld.run lateDelivery).passes.map (·.issue.title) = ["Widgets wobble at speed"] ∧
      (lateWorld.run lateDelivery).passes.map (·.link.syncedTitle) = ["Widgets wobble"] ∧
      (lateWorld.run lateDelivery).passes.map
        (fun p => p.left.result.toOption.map (·.conflicts)) = [some []] ∧
      (lateWorld.run lateDelivery).passes.all (fun p =>
        SyncField.title ∈ p.left.landed ∧
          fieldValue (issueSnapshot p.issue) .title ≠ fieldValue (baseSnapshot p.link) .title) := by
    decide +kernel
  obtain ⟨hissue, hlive, hbase, hconflicts, hall⟩ := hrun
  refine ⟨hissue, hlive, hbase, hconflicts, fun h => ?_⟩
  obtain ⟨p, hp⟩ : ∃ p, p ∈ (lateWorld.run lateDelivery).passes := by
    rcases hlist : (lateWorld.run lateDelivery).passes with _ | ⟨p, rest⟩
    · rw [hlist] at hlive
      cases hlive
    · exact ⟨p, mem_cons_self⟩
  obtain ⟨hland, hne⟩ := of_decide_eq_true (all_eq_true.mp hall p hp)
  exact hne ((h p hp).pushes_over_base .title hland)

end Loregarden.IssueSync
