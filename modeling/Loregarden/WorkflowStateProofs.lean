import Mathlib.Data.List.Find
import Loregarden.StageGroupProofs
import Loregarden.WorkflowStateModel

/-! # Reconciling a workflow

    The rows that a reconcile writes are read back as the map and the notes it wrote them from,
    and the cursor that it chooses is chosen again. So a second pass writes nothing, and the
    views agree before it and after it.

    * `reconcile_idempotent`: two passes are one, and the read-only views are the built ones;
    * `nothing_left_finishes`: where no stage is left to run the ticket is done. -/

namespace Loregarden.WorkflowState

open List

open Lanes (TicketState)
open Stages (StageStatus StageMap WorkflowStageDef ordered deriveTicketState emptiedGroups
  mem_ordered)
open Subtree (nextExecutableStage)

variable {stages : List WorkflowStageDef} {m m' : StageMap} {notes : String → String}
  {key workflowStageKey : String} {w : World} {now now' : Time} {ownsState : Bool}

/-- Two maps have the same status for each stage of the template. -/
def Agree (stages : List WorkflowStageDef) (m m' : StageMap) : Prop :=
  ∀ stage ∈ stages, m stage.key = m' stage.key

theorem Agree.find? (h : Agree stages m m') (status : StageStatus) :
    ((ordered stages).map (·.key)).find? (m · = status) =
      ((ordered stages).map (·.key)).find? (m' · = status) := by
  refine List.find?_congr fun key hkey => ?_
  obtain ⟨stage, hstage, rfl⟩ := mem_map.mp hkey
  rw [h stage (mem_ordered.mp hstage)]

theorem Agree.cursorStage (h : Agree stages m m') :
    cursorStage workflowStageKey m stages = cursorStage workflowStageKey m' stages := by
  have hkey : ∀ key ∈ (ordered stages).map (·.key), m key = m' key := by
    intro key hkey
    obtain ⟨stage, hstage, rfl⟩ := mem_map.mp hkey
    exact h stage (mem_ordered.mp hstage)
  rw [WorkflowState.cursorStage, WorkflowState.cursorStage]
  simp only [h.find?]
  split
  · rfl
  · split
    · rename_i hcursor
      rw [hkey _ hcursor.2]
    · split
      · rfl
      · cases hlast : ((ordered stages).map (·.key)).getLast? with
        | none => rfl
        | some last =>
          rw [Option.getD_some, hkey last (mem_of_getLast? hlast)]

theorem Agree.deriveTicketState (h : Agree stages m m') {issues : String} {status : StageStatus} :
    deriveTicketState m stages issues status = deriveTicketState m' stages issues status := by
  have hstatuses : stages.map (fun stage => m stage.key) = stages.map fun stage => m' stage.key :=
    map_congr_left h
  have hrequired : ((ordered stages).filter fun stage => ¬ stage.optional).all
        (fun stage => m stage.key ∈ [StageStatus.done, .wontDo]) =
      ((ordered stages).filter fun stage => ¬ stage.optional).all
        fun stage => m' stage.key ∈ [StageStatus.done, .wontDo] := by
    rw [Bool.eq_iff_iff, all_eq_true, all_eq_true]
    refine forall₂_congr fun stage hstage => ?_
    rw [h stage (mem_ordered.mp (mem_of_mem_filter hstage))]
  have hgroups : emptiedGroups stages m = [] ↔ emptiedGroups stages m' = [] :=
    Stages.emptiedGroups_congr fun stage hstage => by rw [h stage hstage]
  rw [Stages.deriveTicketState, Stages.deriveTicketState]
  simp only [hstatuses, hrequired, hgroups]

theorem stageStatus_value (status : StageStatus) :
    stageStatus (statusValue status) = .ok status := by
  cases status <;> rfl

theorem readRows_map (l : List WorkflowStageDef) :
    readRows (l.map fun stage => ⟨stage.key, statusValue (m stage.key), notes stage.key⟩) =
      .ok (l.map fun stage => (stage.key, m stage.key)) := by
  induction l with
  | nil => rfl
  | cons stage l ih =>
    rw [map_cons, readRows, stageStatus_value, ih]
    rfl

theorem statusOf_map {l : List WorkflowStageDef} {stage : WorkflowStageDef} (h : stage ∈ l) :
    statusOf (l.map fun stage => (stage.key, m stage.key)) stage.key = m stage.key := by
  rw [statusOf]
  cases hfind : (l.map fun stage => (stage.key, m stage.key)).reverse.find? (·.1 = stage.key) with
  | none =>
    have hmem : (stage.key, m stage.key) ∈ (l.map fun stage => (stage.key, m stage.key)).reverse :=
      mem_reverse.mpr (mem_map_of_mem h)
    exact absurd (List.find?_eq_none.mp hfind _ hmem) (by simp)
  | some named =>
    have hkey : named.1 = stage.key := by simpa using List.find?_some hfind
    obtain ⟨other, -, rfl⟩ := mem_map.mp (mem_reverse.mp (mem_of_find?_eq_some hfind))
    exact congrArg m hkey

theorem parseStageMap_serialize (current : String) :
    ∃ m', parseStageMap ⟨current, serializeStageMap m stages notes⟩ = .ok m' ∧
      Agree stages m' m := by
  refine ⟨_, congrArg (Except.map statusOf) (readRows_map (ordered stages)), ?_⟩
  intro stage hstage
  exact statusOf_map (mem_ordered.mpr hstage)

theorem parseStageNotes_serialize (current : String) {stage : WorkflowStageDef}
    (h : stage ∈ stages) :
    parseStageNotes ⟨current, serializeStageMap m stages notes⟩ stage.key = notes stage.key := by
  rw [parseStageNotes, serializeStageMap]
  cases hfind : ((ordered stages).map fun stage =>
      (⟨stage.key, statusValue (m stage.key), notes stage.key⟩ : StageRow)).reverse.find?
        fun row => row.key = stage.key ∧ row.note ≠ "" with
  | none =>
    have hmem := mem_reverse.mpr (mem_map_of_mem (f := fun stage =>
      (⟨stage.key, statusValue (m stage.key), notes stage.key⟩ : StageRow)) (mem_ordered.mpr h))
    have hnone := List.find?_eq_none.mp hfind _ hmem
    rw [decide_eq_true_iff, not_and, not_not] at hnone
    exact (hnone rfl).symm
  | some row =>
    have hkey : row.key = stage.key ∧ row.note ≠ "" := by simpa using List.find?_some hfind
    obtain ⟨other, -, rfl⟩ := mem_map.mp (mem_reverse.mp (mem_of_find?_eq_some hfind))
    exact congrArg notes hkey.1

/-- **A cursor that is chosen is chosen again.** -/
theorem cursorStage_idem : cursorStage (cursorStage workflowStageKey m stages).1 m stages =
    cursorStage workflowStageKey m stages := by
  rw [cursorStage, cursorStage]
  split
  · rfl
  · by_cases hkept : workflowStageKey ≠ "" ∧ workflowStageKey ∈ (ordered stages).map (·.key)
    · rw [if_pos hkept]
      exact if_pos hkept
    · rw [if_neg hkept]
      cases hnext : ((ordered stages).map (·.key)).find? (m · = .pending) with
      | some key =>
        dsimp only
        split
        · have hpending : m key = .pending := by simpa using List.find?_some hnext
          rw [hpending]
        · rfl
      | none =>
        dsimp only
        split
        · rename_i hlast
          rw [if_pos hlast.1]
        · rfl

/-- What a reconcile makes of a ticket whose cursor it has moved, and whether it wrote. -/
def settle (ownsState : Bool) (now : Time) (ticket : Ticket) (target : TicketState) :
    Ticket × Bool :=
  if ownsState ∧ ¬ (ticket.state = .done ∧ target ≠ .done) then derive now ticket target "workflow"
  else (ticket, false)

theorem settle_frame (ticket : Ticket) (target : TicketState) :
    (settle ownsState now ticket target).1.workflowStageKey = ticket.workflowStageKey ∧
      (settle ownsState now ticket target).1.workflowStageStatus = ticket.workflowStageStatus ∧
      (settle ownsState now ticket target).1.blockingIssues = ticket.blockingIssues := by
  rw [settle, derive, write]
  split
  · split
    · exact ⟨rfl, rfl, rfl⟩
    · split
      · exact ⟨rfl, rfl, rfl⟩
      · exact ⟨rfl, rfl, rfl⟩
  · exact ⟨rfl, rfl, rfl⟩

theorem settle_of_state {ticket : Ticket} {target : TicketState} (h : ticket.state = target) :
    settle ownsState now ticket target = (ticket, false) := by
  rw [settle, derive, write, if_pos h]
  split
  · split
    · rfl
    · rfl
  · rfl

theorem settle_idem (ticket : Ticket) (target : TicketState) :
    settle ownsState now' (settle ownsState now ticket target).1 target =
      ((settle ownsState now ticket target).1, false) := by
  by_cases hwrites : ownsState ∧ ¬ (ticket.state = .done ∧ target ≠ .done)
  · by_cases hguard : ticket.stateLocked ∨ ticket.state ∈ [TicketState.wontDo, .parked]
    · have hkept : ∀ now, settle ownsState now ticket target = (ticket, false) := by
        intro now
        rw [settle, if_pos hwrites, derive, if_pos hguard]
      rw [hkept now, hkept now']
    · have hstate : (settle ownsState now ticket target).1.state = target := by
        rw [settle, if_pos hwrites, derive, if_neg hguard, write]
        split
        · assumption
        · rfl
      exact settle_of_state hstate
  · have hkept : ∀ now, settle ownsState now ticket target = (ticket, false) := by
      intro now
      exact if_neg hwrites
    rw [hkept now, hkept now']

/-! ## Two passes -/

def Ticket.at (ticket : Ticket) (current : String × StageStatus) : Ticket :=
  { ticket with workflowStageKey := current.1, workflowStageStatus := current.2 }

theorem Ticket.at_self (ticket : Ticket) {current : String × StageStatus}
    (hkey : ticket.workflowStageKey = current.1)
    (hstatus : ticket.workflowStageStatus = current.2) :
    ticket.at current = ticket := by
  rw [Ticket.at, ← hkey, ← hstatus]

/-- What a reconcile leaves, of rows that parse to a map. -/
def reconciled (stages : List WorkflowStageDef) (ownsState : Bool) (now : Time) (w : World)
    (m : StageMap) : World :=
  let current := cursorStage w.ticket.workflowStageKey m stages
  let settled := settle ownsState now (w.ticket.at current)
    (deriveTicketState m stages w.ticket.blockingIssues current.2)
  { ticket := settled.1
    workflow := ⟨current.1, serializeStageMap m stages (parseStageNotes w.workflow)⟩
    session := if settled.2 then w.session.map (· ++ [⟨settled.1.state, "workflow"⟩])
      else w.session }

theorem reconcile_ok (h : parseStageMap w.workflow = .ok m) :
    reconcileWorkflowState stages ownsState now w = .ok (reconciled stages ownsState now w m) := by
  rw [reconcileWorkflowState, deriveWorkflow, h]
  rfl

theorem reconcile_error {reason : String} (h : parseStageMap w.workflow = .error reason) :
    reconcileWorkflowState stages ownsState now w = .error reason := by
  rw [reconcileWorkflowState, deriveWorkflow, h]
  rfl

section

variable {notes' : String → String} (h : Agree stages m m')
  (hnotes : ∀ stage ∈ stages, notes stage.key = notes' stage.key)
include h hnotes

theorem Agree.serialize :
    serializeStageMap m stages notes = serializeStageMap m' stages notes' := by
  refine map_congr_left fun stage hstage => ?_
  rw [h stage (mem_ordered.mp hstage), hnotes stage (mem_ordered.mp hstage)]

theorem Agree.views :
    viewsFrom m stages notes = viewsFrom m' stages notes' := by
  refine map_congr_left fun stage hstage => ?_
  rw [h stage (mem_ordered.mp hstage), hnotes stage (mem_ordered.mp hstage)]

end

theorem reconciled_again (hm' : Agree stages m' m)
    (hparse : parseStageMap (reconciled stages ownsState now w m).workflow = .ok m') :
    reconcileWorkflowState stages ownsState now' (reconciled stages ownsState now w m) =
      .ok (reconciled stages ownsState now w m) := by
  rw [reconcile_ok hparse]
  refine congrArg Except.ok ?_
  let current := cursorStage w.ticket.workflowStageKey m stages
  let target := deriveTicketState m stages w.ticket.blockingIssues current.2
  let settled := settle ownsState now (w.ticket.at current) target
  obtain ⟨hkey, hstatus, hissues⟩ := @settle_frame now ownsState (w.ticket.at current) target
  have hcursor : cursorStage settled.1.workflowStageKey m' stages = current := by
    rw [hm'.cursorStage, hkey]
    exact cursorStage_idem
  have htarget : deriveTicketState m' stages settled.1.blockingIssues current.2 = target := by
    rw [hm'.deriveTicketState, hissues]
    rfl
  have hat : settled.1.at current = settled.1 := settled.1.at_self hkey hstatus
  show reconciled stages ownsState now' ⟨settled.1, ⟨current.1, serializeStageMap m stages _⟩, _⟩ m'
    = ⟨settled.1, ⟨current.1, serializeStageMap m stages _⟩, _⟩
  rw [reconciled]
  dsimp only
  rw [hcursor, htarget, hat, settle_idem]
  rw [hm'.serialize fun stage hstage => parseStageNotes_serialize current.1 hstage]
  rfl

/-- **Reconciling twice is reconciling once, and the read-only views before it are the views that
    are built behind it.** -/
theorem reconcile_idempotent (stages : List WorkflowStageDef) (ownsState : Bool)
    (now now' : Time) (w : World) :
    (reconcileWorkflowState stages ownsState now w).bind
        (reconcileWorkflowState stages ownsState now') =
      reconcileWorkflowState stages ownsState now w ∧
    stageViewsReadonly stages w = (reconcileWorkflowState stages ownsState now w).bind fun w' =>
        (buildStageViews stages ownsState now' w').map (·.1) := by
  cases hparse : parseStageMap w.workflow with
  | error reason =>
    rw [reconcile_error hparse, stageViewsReadonly, deriveWorkflow, hparse]
    exact ⟨rfl, rfl⟩
  | ok m =>
    obtain ⟨m', hparse', hm'⟩ := @parseStageMap_serialize stages m
      (parseStageNotes w.workflow) (cursorStage w.ticket.workflowStageKey m stages).1
    have hagain : reconcileWorkflowState stages ownsState now'
        (reconciled stages ownsState now w m) = .ok (reconciled stages ownsState now w m) :=
      reconciled_again hm' hparse'
    rw [reconcile_ok hparse]
    refine ⟨hagain, ?_⟩
    rw [stageViewsReadonly, deriveWorkflow, hparse]
    show Except.ok (viewsFrom m stages _) = Except.map _ (buildStageViews _ _ _ _)
    rw [buildStageViews, hagain]
    show _ = Except.map _ ((parseStageMap _).bind _)
    rw [show parseStageMap (reconciled stages ownsState now w m).workflow = .ok m' from hparse']
    refine congrArg Except.ok (Agree.views (fun stage hstage => (hm' stage hstage).symm) ?_)
    intro stage hstage
    exact (parseStageNotes_serialize _ hstage).symm

/-! ## What is left to run -/

def Resolved (m : StageMap) (stage : WorkflowStageDef) : Prop :=
  m stage.key = .done ∨ m stage.key = .wontDo

theorem find?_key_some {status : StageStatus}
    (h : ((ordered stages).map (·.key)).find? (m · = status) = some key) :
    ∃ before stage after, ordered stages = before ++ stage :: after ∧ stage.key = key ∧
      m key = status ∧ ∀ s ∈ before, m s.key ≠ status := by
  obtain ⟨hstatus, before, after, hsplit, hbefore⟩ := List.find?_eq_some_iff_append.mp h
  obtain ⟨before, rest, hordered, rfl, hrest⟩ := map_eq_append_iff.mp hsplit
  obtain ⟨stage, after, rfl, hkey, -⟩ := map_eq_cons_iff.mp hrest
  refine ⟨before, stage, after, hordered, hkey, by simpa using hstatus, ?_⟩
  intro s hs
  have hnot := hbefore s.key (mem_map_of_mem hs)
  simpa using hnot

theorem find?_key_none {status : StageStatus} :
    ((ordered stages).map (·.key)).find? (m · = status) = none ↔
      ∀ stage ∈ stages, m stage.key ≠ status := by
  rw [List.find?_eq_none]
  constructor
  · intro h stage hstage
    simpa using h stage.key (mem_map_of_mem (mem_ordered.mpr hstage))
  · intro h key hkey
    obtain ⟨stage, hstage, rfl⟩ := mem_map.mp hkey
    simpa using h stage (mem_ordered.mp hstage)

/-- What the picker picks is not resolved, and only what is under way goes before a pending
    stage. -/
theorem nextExecutableStage_some (h : nextExecutableStage stages m = some key) :
    ∃ before stage after, ordered stages = before ++ stage :: after ∧ stage.key = key ∧
      ¬ Resolved m stage ∧
      ((∃ s ∈ before, m s.key = .pending) → m key = .running ∨ m key = .awaiting) := by
  rw [nextExecutableStage] at h
  split at h
  · rename_i running hrunning
    cases h
    obtain ⟨before, stage, after, hordered, hkey, hstatus, -⟩ := find?_key_some hrunning
    refine ⟨before, stage, after, hordered, hkey, ?_, fun _ => .inl hstatus⟩
    rw [Resolved, hkey, hstatus]
    rintro (h | h) <;> cases h
  · split at h
    · rename_i awaiting hawaiting
      cases h
      obtain ⟨before, stage, after, hordered, hkey, hstatus, -⟩ := find?_key_some hawaiting
      refine ⟨before, stage, after, hordered, hkey, ?_, fun _ => .inr hstatus⟩
      rw [Resolved, hkey, hstatus]
      rintro (h | h) <;> cases h
    · split at h
      · cases h
      · obtain ⟨before, stage, after, hordered, hkey, hstatus, hbefore⟩ := find?_key_some h
        refine ⟨before, stage, after, hordered, hkey, ?_, ?_⟩
        · rw [Resolved, hkey, hstatus]
          rintro (h | h) <;> cases h
        · rintro ⟨s, hs, hpending⟩
          exact absurd hpending (hbefore s hs)

theorem nextExecutableStage_none (hblocked : ∀ stage ∈ stages, m stage.key ≠ .blocked) :
    nextExecutableStage stages m = none ↔ ∀ stage ∈ stages, Resolved m stage := by
  constructor
  · intro h stage hstage
    rw [nextExecutableStage] at h
    split at h
    · cases h
    · rename_i hrunning
      split at h
      · cases h
      · rename_i hawaiting
        split at h
        · rename_i hany
          obtain ⟨key, hkey, hstatus⟩ := any_eq_true.mp hany
          obtain ⟨blocked, hmem, rfl⟩ := mem_map.mp hkey
          exact absurd (of_decide_eq_true hstatus) (hblocked blocked (mem_ordered.mp hmem))
        · have hrunning := find?_key_none.mp hrunning stage hstage
          have hawaiting := find?_key_none.mp hawaiting stage hstage
          have hpending := find?_key_none.mp h stage hstage
          have hblocked := hblocked stage hstage
          rw [Resolved]
          cases hstatus : m stage.key with
          | pending => exact absurd hstatus hpending
          | running => exact absurd hstatus hrunning
          | blocked => exact absurd hstatus hblocked
          | awaiting => exact absurd hstatus hawaiting
          | done => exact .inl rfl
          | wontDo => exact .inr rfl
  · intro h
    cases hnext : nextExecutableStage stages m with
    | none => rfl
    | some key =>
      obtain ⟨before, stage, after, hordered, -, hleft, -⟩ := nextExecutableStage_some hnext
      have hmem : stage ∈ ordered stages := by
        rw [hordered]
        exact mem_append_right _ mem_cons_self
      exact absurd (h stage (mem_ordered.mp hmem)) hleft

theorem cursorStage_of_resolved (h : ∀ stage ∈ stages, Resolved m stage) :
    (cursorStage workflowStageKey m stages).2 ∉ [StageStatus.blocked, .running, .awaiting] := by
  have hnone : ∀ status, status ≠ .done → status ≠ .wontDo →
      ((ordered stages).map (·.key)).find? (m · = status) = none := by
    intro status hdone hwont
    refine find?_key_none.mpr fun stage hstage heq => ?_
    rcases h stage hstage with h | h
    · exact hdone (heq.symm.trans h)
    · exact hwont (heq.symm.trans h)
  have hkeys : ∀ key ∈ (ordered stages).map (·.key),
      m key ∉ [StageStatus.blocked, .running, .awaiting] := by
    intro key hkey
    obtain ⟨stage, hstage, rfl⟩ := mem_map.mp hkey
    rcases h stage (mem_ordered.mp hstage) with h | h
    · rw [h]
      decide
    · rw [h]
      decide
  rw [cursorStage]
  simp only [List.findSome?_cons, List.findSome?_nil, hnone .running (by decide) (by decide),
    hnone .awaiting (by decide) (by decide), hnone .blocked (by decide) (by decide),
    hnone .pending (by decide) (by decide), Option.map_none]
  split
  · rename_i hcursor
    exact hkeys _ hcursor.2
  · dsimp only
    split
    · rename_i hlast
      cases hend : ((ordered stages).map (·.key)).getLast? with
      | none =>
        rw [hend] at hlast
        exact absurd rfl hlast
      | some last => exact hkeys last (mem_of_getLast? hend)
    · decide

theorem deriveTicketState_done {issues : String} {status : StageStatus}
    (hrequired : ∃ stage ∈ stages, stage.optional = false)
    (hgroups : emptiedGroups stages m = []) (h : ∀ stage ∈ stages, Resolved m stage)
    (hstatus : status ∉ [StageStatus.blocked, .running, .awaiting]) :
    deriveTicketState m stages issues status = .done := by
  have hblocked : ¬ (stages.map fun stage => m stage.key).any (· = .blocked) = true := by
    intro hany
    obtain ⟨status, hmem, hblocked⟩ := any_eq_true.mp hany
    obtain ⟨stage, hstage, rfl⟩ := mem_map.mp hmem
    have hblocked := of_decide_eq_true hblocked
    rcases h stage hstage with h | h
    · cases h.symm.trans hblocked
    · cases h.symm.trans hblocked
  have hsome : (ordered stages).filter (fun stage => ¬ stage.optional) ≠ [] := by
    obtain ⟨stage, hstage, hneeded⟩ := hrequired
    refine ne_nil_of_mem (mem_filter.mpr ⟨mem_ordered.mpr hstage, ?_⟩)
    simp [hneeded]
  have hall : ((ordered stages).filter fun stage => ¬ stage.optional).all
      (fun stage => m stage.key ∈ [StageStatus.done, .wontDo]) = true := by
    refine all_eq_true.mpr fun stage hstage => decide_eq_true ?_
    rcases h stage (mem_ordered.mp (mem_of_mem_filter hstage)) with h | h
    · rw [h]
      decide
    · rw [h]
      decide
  rw [Stages.deriveTicketState, if_neg hblocked, if_neg fun hcond => hstatus hcond.2,
    if_pos ⟨hsome, hall, hgroups⟩]

/-- **Where nothing is left to run the ticket is done**, whatever blocks it and wherever its cursor
    is, and what is picked to run comes before what is pending. -/
theorem nothing_left_finishes (stages : List WorkflowStageDef) (m : StageMap)
    (hrequired : ∃ stage ∈ stages, stage.optional = false) :
    ((∀ stage ∈ stages, m stage.key ≠ .blocked) → emptiedGroups stages m = [] →
      (nextExecutableStage stages m = none ↔ ∀ stage ∈ stages, Resolved m stage) ∧
      ((∀ stage ∈ stages, Resolved m stage) → ∀ issues workflowStageKey,
        deriveTicketState m stages issues (cursorStage workflowStageKey m stages).2 = .done)) ∧
    ∀ key, nextExecutableStage stages m = some key →
      ∃ before stage after, ordered stages = before ++ stage :: after ∧ stage.key = key ∧
        ¬ Resolved m stage ∧
        ((∃ s ∈ before, m s.key = .pending) → m key = .running ∨ m key = .awaiting) := by
  constructor
  · intro hblocked hgroups
    refine ⟨nextExecutableStage_none hblocked, fun h issues workflowStageKey => ?_⟩
    exact deriveTicketState_done hrequired hgroups h (cursorStage_of_resolved h)
  · intro key h
    exact nextExecutableStage_some h

/-- A required stage that is done, and an optional one that is pruned. -/
def prunedStages : List WorkflowStageDef :=
  [{ key := "build", order := 1 }, { key := "polish", order := 2, optional := true }]

def prunedMap : StageMap := fun key => if key = "build" then .done else .wontDo

theorem nothing_left_finishes_pruned : deriveTicketState prunedMap prunedStages "a note"
      (cursorStage "polish" prunedMap prunedStages).2 = .done := by
  have hresolved : ∀ stage ∈ prunedStages, Resolved prunedMap stage := by
    intro stage hstage
    rw [Resolved]
    revert stage
    decide
  exact ((nothing_left_finishes prunedStages prunedMap ⟨_, mem_cons_self, rfl⟩).1
    (by decide) (by decide)).2 hresolved "a note" "polish"

end Loregarden.WorkflowState
