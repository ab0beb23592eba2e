import Loregarden.FanoutModel

/-! # What a fan-out that is not promoted puts back

The group records the cursor, the stage's status, the stage map and the agent pin, and the map it
records reads as the one the ticket had (`parse_serialize`). A launch that stops at a worktree, and
a decline, restore all four and settle the group, and what was removable of an attempt is gone
(`unpromoted_put_back`). -/

namespace Loregarden.Fanout

open Text List Option Bool Prod
open Stages (StageStatus WorkflowStageDef)

variable {env : Env} {db db' : Db} {key : StageKey}
variable {stages : List WorkflowStageDef} {workflow : Workflow} {a : Attempt} {g n i : Nat}
  {group : Group}

theorem byKey_eq_some {rows : List StageRow} {status : StageStatus}
    (hmem : ∃ r ∈ rows, r.key = key) (hall : ∀ r ∈ rows, r.key = key → r.status = status) :
    byKey rows key = some status := by
  obtain ⟨r, hr, hkey⟩ := hmem
  rw [byKey]
  cases hfind : rows.reverse.find? (·.key = key) with
  | none =>
    exact absurd (decide_eq_true hkey)
      (List.find?_eq_none.mp hfind r (mem_reverse.mpr hr))
  | some x =>
    have hx : x ∈ rows := mem_reverse.mp (mem_of_find?_eq_some hfind)
    have hxkey : x.key = key := by simpa using List.find?_some hfind
    rw [map_some, hall x hx hxkey]

theorem mem_serialize {stageMap : StageMap} {notes : StageKey → String}
    {r : StageRow} : r ∈ serializeStageMap stageMap stages notes ↔
      ∃ s ∈ stages, stageMap s.key = some r.status ∧ r.key = s.key ∧ r.note = notes s.key := by
  rw [serializeStageMap, mem_filterMap]
  constructor
  · rintro ⟨s, hs, hrow⟩
    obtain ⟨status, hstatus, rfl⟩ := map_eq_some_iff.mp hrow
    exact ⟨s, (mem_insertionSort _).mp hs, hstatus, rfl, rfl⟩
  · rintro ⟨s, hs, hstatus, hkey, hnote⟩
    refine ⟨s, (mem_insertionSort _).mpr hs, map_eq_some_iff.mpr ⟨r.status, hstatus, ?_⟩⟩
    obtain ⟨rkey, rstatus, rnote⟩ := r
    rw [show rkey = s.key from hkey, show rnote = notes s.key from hnote]

/-- **What is written of a map reads as the map**, at every stage it was written for. -/
theorem parse_serialize {stageMap : StageMap} {status : StageStatus} (notes : StageKey → String)
    (hkey : key ∈ stages.map (·.key)) (hstatus : stageMap key = some status)
    {read : List WorkflowStageDef} (hread : key ∈ read.map (·.key)) :
    parseStageMap (serializeStageMap stageMap stages notes) read key = some status := by
  have hrow : byKey (serializeStageMap stageMap stages notes) key = some status := by
    obtain ⟨s, hs, rfl⟩ := mem_map.mp hkey
    refine byKey_eq_some ⟨⟨s.key, status, notes s.key⟩, ?_, rfl⟩ ?_
    · exact mem_serialize.mpr ⟨s, hs, hstatus, rfl, rfl⟩
    · intro r hr hrkey
      obtain ⟨s', -, hstatus', hkey', -⟩ := mem_serialize.mp hr
      rw [← hkey', hrkey, hstatus] at hstatus'
      exact (some.inj hstatus').symm
  rw [parseStageMap, if_pos hread, hrow]
  rfl

theorem mem_template_of_stages (h : key ∈ env.stages.map (·.key)) :
    key ∈ env.template.map (·.key) := by
  obtain ⟨s, hs, rfl⟩ := mem_map.mp h
  exact mem_map_of_mem (mem_filter.mp hs).1

theorem parse_recorded (env : Env) (rows : List StageRow) (notes : StageKey → String) :
    parseStageMap (serializeStageMap (parseStageMap rows env.template) env.template notes)
      env.stages = parseStageMap rows env.stages := by
  funext key
  by_cases hkey : key ∈ env.stages.map (·.key)
  · rw [parse_serialize notes (mem_template_of_stages hkey) (if_pos (mem_template_of_stages hkey))
      hkey, parseStageMap, if_pos hkey]
  · rw [parseStageMap, if_neg hkey, parseStageMap, if_neg hkey]

theorem parse_setStageStatus {ticket : Ticket}
    (hkey : key ∈ stages.map (·.key)) (status : StageStatus) :
    parseStageMap (setStageStatus ticket workflow stages key status).2.rows stages key
      = some status := by
  refine parse_serialize _ hkey ?_ hkey
  dsimp only
  refine parse_serialize _ hkey ?_ hkey
  show (if key = key then some status else _) = some status
  exact if_pos rfl

/-! ## What is discarded -/

/-- The checkout of an attempt that could be removed is gone, and its branch with it if git
    deletes it. -/
def Cleared (env : Env) (db : Db) (a : Attempt) : Prop :=
  ∀ w, a.worktree = some w → env.retires w = true →
    (∀ t, db.worktrees[w]? = some t → t.onDisk = false) ∧
      (a.branch ≠ "" → env.deletes a.branch = true → a.branch ∉ db.branches)

theorem cleared_discardAttempt (env : Env) (db : Db) (a : Attempt) :
    Cleared env (discardAttempt env db a) a := by
  intro w hw hretires
  constructor
  · intro t ht
    have hmodify : (discardAttempt env db a).worktrees
        = db.worktrees.modify w fun t => { t with onDisk := false } := by
      rw [discardAttempt, hw]
      exact if_pos hretires
    rw [hmodify, List.getElem?_modify] at ht
    obtain ⟨t', -, rfl⟩ := map_eq_some_iff.mp ht
    rw [if_pos rfl]
  · intro hbranch hdeletes
    have hfilter : (discardAttempt env db a).branches
        = db.branches.filter fun b => b ≠ a.branch := by
      rw [discardAttempt, hw]
      exact if_pos ⟨hbranch, hretires, hdeletes⟩
    rw [hfilter]
    intro hmem
    exact absurd rfl (of_decide_eq_true (mem_filter.mp hmem).2)

theorem Cleared.discard (h : Cleared env db a) (b : Attempt) :
    Cleared env (discardAttempt env db b) a := by
  intro w hw hretires
  obtain ⟨hdisk, hbranch⟩ := h w hw hretires
  constructor
  · intro t ht
    have hcases : (discardAttempt env db b).worktrees = db.worktrees ∨ ∃ v,
        (discardAttempt env db b).worktrees
          = db.worktrees.modify v fun t => { t with onDisk := false } := by
      rw [discardAttempt]
      cases b.worktree with
      | none => exact .inl rfl
      | some v =>
        by_cases hv : env.retires v = true
        · exact .inr ⟨v, if_pos hv⟩
        · exact .inl (if_neg hv)
    rcases hcases with heq | ⟨v, heq⟩
    · rw [heq] at ht
      exact hdisk t ht
    · rw [heq, List.getElem?_modify] at ht
      obtain ⟨t', ht', rfl⟩ := map_eq_some_iff.mp ht
      by_cases hvw : v = w
      · rw [if_pos hvw]
      · rw [if_neg hvw]
        exact hdisk t' ht'
  · intro hne hdeletes hmem
    refine hbranch hne hdeletes ?_
    obtain ⟨c, _, heq⟩ : ∃ (c : Prop) (_ : Decidable c), (discardAttempt env db b).branches
        = if c then db.branches.filter fun x => x ≠ b.branch else db.branches := ⟨_, _, rfl⟩
    rw [heq] at hmem
    split at hmem
    · exact (mem_filter.mp hmem).1
    · exact hmem

/-- An attempt has the row of another, but for its status. -/
def SameRow (a b : Attempt) : Prop :=
  a.group = b.group ∧ a.index = b.index ∧ a.run = b.run ∧ a.worktree = b.worktree ∧
    a.branch = b.branch

theorem Cleared.congr {b : Attempt} (h : Cleared env db b) (hrow : SameRow a b) :
    Cleared env db a := by
  intro w hw hretires
  obtain ⟨-, -, -, hworktree, hbranch⟩ := hrow
  rw [hbranch]
  exact h w (hworktree ▸ hw) hretires

theorem discardAttempt_rows {b : Attempt} (h : a ∈ (discardAttempt env db b).attempts) :
    ∃ a' ∈ db.attempts, SameRow a a' := by
  obtain ⟨a', ha', rfl⟩ := mem_map.mp h
  refine ⟨a', ha', ?_⟩
  split
  · exact ⟨rfl, rfl, rfl, rfl, rfl⟩
  · exact ⟨rfl, rfl, rfl, rfl, rfl⟩

theorem foldl_discard (attempts : List Attempt) :
    (∀ a ∈ attempts, Cleared env (attempts.foldl (discardAttempt env) db) a) ∧
      (∀ a, Cleared env db a → Cleared env (attempts.foldl (discardAttempt env) db) a) ∧
      ∀ a ∈ (attempts.foldl (discardAttempt env) db).attempts,
        ∃ a' ∈ db.attempts, SameRow a a' := by
  induction attempts generalizing db with
  | nil =>
    exact ⟨forall_mem_nil _, fun a h => h, fun a ha => ⟨a, ha, rfl, rfl, rfl, rfl, rfl⟩⟩
  | cons b attempts ih =>
    obtain ⟨hdone, hkeeps, hrows⟩ := @ih (discardAttempt env db b)
    refine ⟨?_, fun a ha => hkeeps a (ha.discard b), ?_⟩
    · intro a ha
      rcases mem_cons.mp ha with rfl | ha
      · exact hkeeps a (cleared_discardAttempt env db a)
      · exact hdone a ha
    · intro a ha
      obtain ⟨a₁, ha₁, h₁⟩ := hrows a ha
      obtain ⟨a₂, ha₂, h₂⟩ := discardAttempt_rows ha₁
      exact ⟨a₂, ha₂, h₁.1.trans h₂.1, h₁.2.1.trans h₂.2.1, h₁.2.2.1.trans h₂.2.2.1,
        h₁.2.2.2.1.trans h₂.2.2.2.1, h₁.2.2.2.2.trans h₂.2.2.2.2⟩

/-- **Every attempt of a group that is discarded is cleared.** -/
theorem cleared_discardAttempts (hworkspace : env.hasWorkspace = true)
    (ha : a ∈ (discardAttempts env db g).attempts) (hgroup : a.group = g) :
    Cleared env (discardAttempts env db g) a := by
  rw [discardAttempts, if_pos hworkspace] at ha ⊢
  obtain ⟨hdone, -, hrows⟩ := @foldl_discard env db (db.attemptsOf g)
  obtain ⟨a', ha', hrow⟩ := hrows a ha
  refine (hdone a' ?_).congr hrow
  exact mem_filter.mpr ⟨ha', decide_eq_true (hrow.1 ▸ hgroup)⟩

/-- What a fan-out that is not promoted puts back of the ticket, and leaves of its group `g`. -/
structure PutBack (env : Env) (g : Nat) (before after : Db) : Prop where
  cursor : after.ticket.cursor = before.ticket.cursor
  cursorStatus : after.ticket.cursorStatus = before.ticket.cursorStatus
  nextAgent : after.ticket.nextAgent = before.ticket.nextAgent
  stageMap : (after.workflow.map fun w => parseStageMap w.rows env.stages)
    = before.workflow.map fun w => parseStageMap w.rows env.stages
  settled : hasOpenGroup after = false
  cleared : ∀ a ∈ after.attempts, a.group = g → Cleared env after a

theorem discardAttempts_keeps (env : Env) (db : Db) (g : Nat) :
    (discardAttempts env db g).groups = db.groups ∧
      (discardAttempts env db g).workflow = db.workflow ∧
      (discardAttempts env db g).charges = db.charges ∧
      (discardAttempts env db g).runs = db.runs := by
  have hfold : ∀ (attempts : List Attempt) (db : Db),
      (attempts.foldl (discardAttempt env) db).groups = db.groups ∧
        (attempts.foldl (discardAttempt env) db).workflow = db.workflow ∧
        (attempts.foldl (discardAttempt env) db).charges = db.charges ∧
        (attempts.foldl (discardAttempt env) db).runs = db.runs := by
    intro attempts
    induction attempts with
    | nil => exact fun db => ⟨rfl, rfl, rfl, rfl⟩
    | cons a attempts ih => exact fun db => ih (discardAttempt env db a)
  rw [discardAttempts]
  split
  · exact hfold _ db
  · exact ⟨rfl, rfl, rfl, rfl⟩

/-- What is recorded of the ticket by the group that `create_group` makes. -/
theorem createGroup_spec (h : createGroup env db key n = some group) :
    ∃ workflow, db.workflow = some workflow ∧
      group.stage = String.ofList (strip isSpace key.toList) ∧
      group.outcome = .pending ∧ group.preCursor = db.ticket.cursor ∧
      group.preCursorStatus = db.ticket.cursorStatus ∧ group.preNextAgent = db.ticket.nextAgent ∧
      parseStageMap group.preRows env.stages = parseStageMap workflow.rows env.stages := by
  obtain ⟨workflow, hworkflow, hsome⟩ := bind_eq_some_iff.mp h
  dsimp only at hsome
  split at hsome
  · cases hsome
  · cases hsome
    exact ⟨workflow, hworkflow, rfl, rfl, rfl, rfl, rfl, parse_recorded env workflow.rows _⟩

theorem modify_last {α : Type} (l : List α) (x : α) (f : α → α) :
    (l ++ [x]).modify l.length f = l ++ [f x] := by
  induction l with
  | nil => rfl
  | cons y l ih =>
    show y :: (l ++ [x]).modify l.length f = _
    rw [ih]
    rfl

theorem putBack_of_settle {before : Db} {outcome : Outcome} {status : GroupStatus}
    (hworkspace : env.hasWorkspace = true) (hclosed : hasOpenGroup before = false)
    (hgroup : createGroup env before key n = some group)
    (hgroups : db.groups = before.groups ++ [group]) (hflow : db.workflow ≠ none)
    (houtcome : outcome ≠ .pending) :
    PutBack env before.groups.length before
      (settleGroup (restorePreFanoutState (discardAttempts env db before.groups.length) group)
        before.groups.length outcome status) := by
  obtain ⟨workflow, hworkflow, -, -, hcursor, hstatus, hagent, hmap⟩ := createGroup_spec hgroup
  obtain ⟨hkeepsGroups, hkeepsFlow, -, -⟩ := discardAttempts_keeps env db before.groups.length
  refine ⟨hcursor, hstatus, hagent, ?_, ?_, ?_⟩
  · show ((discardAttempts env db before.groups.length).workflow.map fun _ => _).map _ = _
    rw [hkeepsFlow, hworkflow]
    obtain ⟨w, hw⟩ := ne_none_iff_exists'.mp hflow
    rw [hw]
    exact congrArg some hmap
  · show ((discardAttempts env db before.groups.length).groups.modify before.groups.length _).any _
      = false
    rw [hkeepsGroups, hgroups, modify_last, any_append,
      show before.groups.any _ = false from hclosed]
    simp [houtcome]
  · intro a ha hag
    exact cleared_discardAttempts hworkspace ha hag

/-! ## The loop of a launch -/

theorem startRun_keeps (env : Env) (db : Db) (key : StageKey) (workflow : Workflow) (i : Nat) :
    (startRun env db key workflow i).groups = db.groups ∧
      (startRun env db key workflow i).attempts = db.attempts ∧
      (startRun env db key workflow i).runs =
        db.runs ++ [{ stage := key, agent := env.agent i }] := by
  have hprepare : ∀ stageMap, (prepareStageStart db key stageMap).groups = db.groups ∧
      (prepareStageStart db key stageMap).attempts = db.attempts ∧
      (prepareStageStart db key stageMap).runs = db.runs := by
    intro stageMap
    rw [prepareStageStart]
    split <;> exact ⟨rfl, rfl, rfl⟩
  obtain ⟨hgroups, hattempts, hruns⟩ := hprepare (parseStageMap workflow.rows env.stages)
  rw [startRun]
  dsimp only
  split <;> exact ⟨hgroups, hattempts,
    congrArg (fun runs => runs ++ [({ stage := key, agent := env.agent i } : Run)]) hruns⟩

def plan (db : Db) (g i : Nat) : Db :=
  { db with attempts := db.attempts ++ [{ group := g, index := i }] }

/-- **The rule of the loop**: what one prepared attempt keeps holds behind all of them, and a
    launch that finds no worktree stops where it held. -/
theorem prepareEach_rule {P : Nat → Db → Prop}
    (hstep : ∀ i db workflow, P i db → db.workflow = some workflow →
      P (i + 1) (linkAttempt env (startRun env (plan db g i) key workflow i) g i))
    {left : Nat} {result : Option Launched} (h : P i db)
    (heq : prepareEach env key g group left i db = (result, db')) :
    (result = none → P (i + left) db') ∧
      ∀ j, result = some (.noWorktree j) → ∃ stopped workflow, P j stopped ∧
        stopped.workflow = some workflow ∧
        db' = abortLaunch env (startRun env (plan stopped g j) key workflow j) g group := by
  induction left generalizing i db with
  | zero =>
    cases heq
    exact ⟨fun _ => h, fun j hj => (nomatch hj)⟩
  | succ left ih =>
    rw [prepareEach] at heq
    split at heq
    · cases heq
      exact ⟨fun hj => (nomatch hj), fun j hj => (nomatch hj)⟩
    · rename_i workflow hworkflow
      split at heq
      · cases heq
        exact ⟨fun hj => (nomatch hj), fun j hj => (nomatch hj)⟩
      · split at heq
        · obtain ⟨hnone, hstop⟩ := ih (hstep i db workflow h hworkflow) heq
          refine ⟨fun hresult => ?_, hstop⟩
          rw [show i + (left + 1) = i + 1 + left by omega]
          exact hnone hresult
        · cases heq
          refine ⟨fun hj => (nomatch hj), fun j hj => ?_⟩
          cases hj
          exact ⟨db, workflow, h, hworkflow, rfl⟩

theorem prepareEach_stopped {left : Nat} {result : Launched}
    (h : prepareEach env key g group left i db = (some result, db')) (done : Nat) :
    result ≠ .finished done := by
  induction left generalizing i db with
  | zero => cases h
  | succ left ih =>
    rw [prepareEach] at h
    split at h
    · cases h
      nofun
    · split at h
      · cases h
        nofun
      · split at h
        · exact ih h
        · cases h
          nofun

/-- What the loop keeps: the group is there, the workflow too, and each run it opened is the run
    of an attempt of the group. -/
structure Launching (base : Db) (g i : Nat) (db : Db) : Prop where
  groups : db.groups = base.groups
  workflow : db.workflow ≠ none
  runs : db.runs.length = base.runs.length + i
  owned : ∀ j < i, ∃ a ∈ db.attemptsOf g, a.index = j ∧ a.run = some (base.runs.length + j)

theorem startRun_workflow (env : Env) (db : Db) (key : StageKey) (workflow : Workflow) (i : Nat) :
    (startRun env db key workflow i).workflow ≠ none := by
  exact nofun

theorem attempts_linkAttempt (env : Env) (db : Db) (key : StageKey) (workflow : Workflow)
    (g i : Nat) :
    ∃ f : Attempt → Attempt, (∀ a, (f a).run = some (db.runs.length) ∧ (f a).group = a.group ∧
        (f a).index = a.index) ∧
      (linkAttempt env (startRun env (plan db g i) key workflow i) g i).attempts
        = (db.attempts ++ [({ group := g, index := i } : Attempt)]).map fun a =>
          if a.group = g ∧ a.index = i then f a else a := by
  obtain ⟨-, hattempts, hruns⟩ := startRun_keeps env (plan db g i) key workflow i
  refine ⟨linkedAttempt env (startRun env (plan db g i) key workflow i) i,
    fun a => ⟨?_, rfl, rfl⟩, congrArg (List.map _) hattempts⟩
  show some ((startRun env (plan db g i) key workflow i).runs.length - 1) = _
  rw [hruns, length_append, length_singleton]
  rfl

theorem Launching.step {base : Db} (h : Launching base g i db) (workflow : Workflow) :
    Launching base g (i + 1)
      (linkAttempt env (startRun env (plan db g i) key workflow i) g i) := by
  obtain ⟨hgroups, -, hruns⟩ := startRun_keeps env (plan db g i) key workflow i
  obtain ⟨f, hf, hattempts⟩ := attempts_linkAttempt env db key workflow g i
  refine ⟨hgroups.trans h.groups, startRun_workflow env _ key workflow i, ?_, ?_⟩
  · show ((startRun env (plan db g i) key workflow i).runs.modify _ _).length = _
    rw [length_modify, hruns, length_append, length_singleton]
    show db.runs.length + 1 = _
    rw [h.runs]
    omega
  · intro j hj
    by_cases hlast : j = i
    · subst hlast
      refine ⟨f { group := g, index := j }, ?_, (hf _).2.2, ?_⟩
      · refine mem_filter.mpr ⟨?_, decide_eq_true (hf _).2.1⟩
        rw [hattempts]
        refine mem_map.mpr ⟨{ group := g, index := j }, ?_, if_pos ⟨rfl, rfl⟩⟩
        exact mem_append_right _ (mem_singleton_self _)
      · rw [(hf _).1, h.runs]
    · obtain ⟨a, ha, hindex, hrun⟩ := h.owned j (by omega)
      refine ⟨a, ?_, hindex, hrun⟩
      refine mem_filter.mpr ⟨?_, (mem_filter.mp ha).2⟩
      rw [hattempts]
      refine mem_map.mpr ⟨a, mem_append_left _ (mem_filter.mp ha).1, if_neg ?_⟩
      rintro ⟨-, hlink⟩
      exact hlast (hindex.symm.trans hlink)

theorem runAttempt_runs (env : Env) (db : Db) (a : Attempt) :
    (runAttempt env db a).runs.length = db.runs.length ∧
      (∀ (j : Nat) (r : Run), (runAttempt env db a).runs[j]? = some r → r.status = .running →
        a.run ≠ some j ∧ ∃ r', db.runs[j]? = some r' ∧ r'.status = .running) := by
  rw [runAttempt]
  cases ha : a.run with
  | none => exact ⟨rfl, fun j r hr hrunning => ⟨nofun, r, hr, hrunning⟩⟩
  | some run =>
    refine ⟨length_modify .., fun j r hr hrunning => ?_⟩
    have hmod : (db.runs.modify run fun r =>
        { r with status := if env.passes a.index then .succeeded else .failed })[j]? = some r := hr
    rw [List.getElem?_modify, Option.map_eq_map] at hmod
    obtain ⟨r', hr', rfl⟩ := map_eq_some_iff.mp hmod
    by_cases hj : run = j
    · rw [if_pos hj] at hrunning
      split at hrunning <;> cases hrunning
    · rw [if_neg hj] at hrunning
      exact ⟨fun heq => hj (some.inj heq), r', hr', hrunning⟩

theorem foldl_runAttempt (attempts : List Attempt) {j : Nat} {r : Run}
    (hr : (attempts.foldl (runAttempt env) db).runs[j]? = some r) (hrunning : r.status = .running) :
    (∀ a ∈ attempts, a.run ≠ some j) ∧ ∃ r', db.runs[j]? = some r' ∧ r'.status = .running := by
  induction attempts generalizing db with
  | nil => exact ⟨forall_mem_nil _, r, hr, hrunning⟩
  | cons a attempts ih =>
    obtain ⟨hnone, r₁, hr₁, hrunning₁⟩ := @ih (runAttempt env db a) hr
    obtain ⟨ha, r', hr', hrunning'⟩ := (runAttempt_runs env db a).2 j r₁ hr₁ hrunning₁
    exact ⟨forall_mem_cons.mpr ⟨ha, hnone⟩, r', hr', hrunning'⟩

/-- What keeps a start from being charged again: the stage is running under an unsettled
    fan-out, and its breaker has not blocked it. -/
structure Charging (env : Env) (key : StageKey) (charges : Nat) (db : Db) : Prop where
  charges : db.charges key = charges
  unblocked : db.retryBlock key = false
  opened : ∃ g ∈ db.groups, g.stage = key ∧ g.outcome = .pending
  running : ∀ workflow, db.workflow = some workflow →
    parseStageMap workflow.rows env.stages key = some .running

theorem prepareStageStart_charges (hblock : db.retryBlock key = false) (stageMap : StageMap) :
    (prepareStageStart db key stageMap).charges key = db.charges key ∧
      (prepareStageStart db key stageMap).retryBlock key = false := by
  rw [prepareStageStart]
  split
  · have hclear : stageStartClearsBudget db key stageMap = false := by
      rw [stageStartClearsBudget, hblock, Bool.and_false]
    rw [hclear]
    constructor
    · show (if false = true ∧ key = key then 0 else db.charges key) = db.charges key
      exact if_neg (by simp)
    · show (if key = key then false else db.retryBlock key) = false
      exact if_pos rfl
  · exact ⟨rfl, hblock⟩

theorem Charging.step (h : Charging env key n db) (hworkflow : db.workflow = some workflow) :
    Charging env key n (linkAttempt env (startRun env (plan db g i) key workflow i) g i) := by
  have hrunning := h.running workflow hworkflow
  have hopen : dispatchPassOpen (plan db g i) key true = true := by
    obtain ⟨group, hgroup, hstage, houtcome⟩ := h.opened
    rw [dispatchPassOpen, Bool.true_and, Bool.or_eq_true]
    right
    exact any_eq_true.mpr ⟨group, hgroup, decide_eq_true ⟨hstage, houtcome⟩⟩
  obtain ⟨hcharges, hblock⟩ := @prepareStageStart_charges (plan db g i) key h.unblocked
    (parseStageMap workflow.rows env.stages)
  have hstart : (startRun env (plan db g i) key workflow i).charges key = n ∧
      (startRun env (plan db g i) key workflow i).retryBlock key = false ∧
      (startRun env (plan db g i) key workflow i).workflow = some workflow := by
    rw [startRun]
    simp only [hrunning, hopen, decide_true, Bool.not_true, Bool.false_and, Bool.false_eq_true,
      if_false, if_true]
    exact ⟨hcharges.trans h.charges, hblock, trivial⟩
  obtain ⟨hgroups, -, -⟩ := startRun_keeps env (plan db g i) key workflow i
  refine ⟨hstart.1, hstart.2.1, ?_, fun workflow' hworkflow' => ?_⟩
  · show ∃ group ∈ (startRun env (plan db g i) key workflow i).groups, _
    rw [hgroups]
    exact h.opened
  · have hsame : some workflow = some workflow' := hstart.2.2.symm.trans hworkflow'
    exact some.inj hsame ▸ hrunning

/-! ## A launch that is not promoted -/

theorem foldl_runAttempt_keeps (env : Env) (attempts : List Attempt) (db : Db) :
    (attempts.foldl (runAttempt env) db).groups = db.groups ∧
      (attempts.foldl (runAttempt env) db).workflow = db.workflow ∧
      (attempts.foldl (runAttempt env) db).charges = db.charges ∧
      (attempts.foldl (runAttempt env) db).runs.length = db.runs.length := by
  induction attempts generalizing db with
  | nil => exact ⟨rfl, rfl, rfl, rfl⟩
  | cons a attempts ih =>
    obtain ⟨hgroups, hflow, hcharges, hruns⟩ := ih (runAttempt env db a)
    have hkeeps : (runAttempt env db a).groups = db.groups ∧
        (runAttempt env db a).workflow = db.workflow ∧
        (runAttempt env db a).charges = db.charges := by
      rw [runAttempt]
      cases a.run with
      | none | some run => exact ⟨rfl, rfl, rfl⟩
    exact ⟨hgroups.trans hkeeps.1, hflow.trans hkeeps.2.1, hcharges.trans hkeeps.2.2,
      hruns.trans (runAttempt_runs env db a).1⟩

/-- The state behind a launch's checks, from which its loop starts. -/
structure Launch (env : Env) (db : Db) (key : StageKey) (n : Nat) (group : Group) (start : Db) :
    Prop where
  hasWorkspace : env.hasWorkspace = true
  closed : hasOpenGroup db = false
  created : createGroup env db key n = some group
  groups : start.groups = db.groups ++ [group]
  runs : start.runs = db.runs
  charges : start.charges key = db.charges key + 1
  retryBlock : start.retryBlock = db.retryBlock
  workflow : start.workflow ≠ none
  running : env.stages ≠ [] → ∀ workflow, start.workflow = some workflow →
    parseStageMap workflow.rows env.stages key = some .running
  several : 2 ≤ n

def launchStart (env : Env) (db : Db) (key : StageKey) (group : Group) (workflow : Workflow) : Db :=
  let charged := recordStageDispatch { db with groups := db.groups ++ [group] } key
  let moved := if env.stages = [] then (charged.ticket, workflow)
    else setStageStatus charged.ticket workflow env.stages key .running
  { charged with ticket := moved.1, workflow := some moved.2 }

theorem launch_of_checks (hworkspace : env.hasWorkspace = true) (hclosed : hasOpenGroup db = false)
    (hcount : 2 ≤ n) (hgroup : createGroup env db key n = some group)
    (hstage : ¬(env.stages ≠ [] ∧ parseStageMap workflow.rows env.stages key = none)) :
    Launch env db key n group (launchStart env db key group workflow) := by
  refine ⟨hworkspace, hclosed, hgroup, rfl, rfl, if_pos rfl, rfl, nofun, ?_, hcount⟩
  intro hstages workflow' heq
  have hkey : key ∈ env.stages.map (·.key) := by
    by_contra hnot
    exact hstage ⟨hstages, if_neg hnot⟩
  cases heq
  rw [if_neg hstages]
  exact parse_setStageStatus hkey .running

theorem launchFanout_cases {result : Launched} (h : launchFanout env db key n = (result, db'))
    (hrefused : result ≠ .refused) (hraised : result ≠ .raised) :
    ∃ group start, Launch env db key n group start ∧
      (prepareEach env key db.groups.length group n 0 start = (some result, db') ∨
        ∃ prepared, prepareEach env key db.groups.length group n 0 start = (none, prepared) ∧
          result = .finished db.groups.length ∧
          db' = (prepared.attemptsOf db.groups.length).foldl (runAttempt env) prepared) := by
  rw [launchFanout] at h
  split at h
  · exact absurd (congrArg fst h).symm hrefused
  split at h
  · exact absurd (congrArg fst h).symm hrefused
  rename_i hready
  split at h
  · exact absurd (congrArg fst h).symm hrefused
  rename_i hclosed
  split at h
  · exact absurd (congrArg fst h).symm hrefused
  rename_i group hgroup
  dsimp only at h
  split at h
  · exact absurd (congrArg fst h).symm hraised
  rename_i workflow hworkflow
  split at h
  · exact absurd (congrArg fst h).symm hraised
  rename_i hstage
  split at h
  · exact absurd (congrArg fst h).symm hraised
  have hworkspace : env.hasWorkspace = true := by
    by_contra hnot
    exact hready (.inl (by simpa using hnot))
  refine ⟨group, launchStart env db key group workflow,
    launch_of_checks hworkspace (by simpa using hclosed) (by omega) hgroup hstage, ?_⟩
  split at h
  · rename_i stopped stoppedAt heq
    obtain ⟨hresult, hdb⟩ := Prod.ext_iff.mp h
    left
    exact heq.trans (congrArg₂ (fun r d => (some r, d)) hresult hdb)
  · rename_i prepared heq
    exact .inr ⟨prepared, heq, (congrArg fst h).symm, (congrArg snd h).symm⟩

/-- What the loop keeps from its start: its attempts' runs, and, of a stage its breaker has not
    blocked, the one charge. -/
structure InLoop (env : Env) (db : Db) (key : StageKey) (start : Db) (i : Nat) (at_ : Db) :
    Prop where
  launching : Launching start db.groups.length i at_
  charging : db.retryBlock key = false → String.ofList (strip isSpace key.toList) = key →
    env.stages ≠ [] → Charging env key (db.charges key + 1) at_

theorem inLoop_start {start : Db}
    (h : Launch env db key n group start) : InLoop env db key start 0 start := by
  constructor
  · exact ⟨rfl, h.workflow, rfl, fun j hj => absurd hj (Nat.not_lt_zero j)⟩
  · intro hblock hstrip hstages
    obtain ⟨-, -, hstage, houtcome, -⟩ := createGroup_spec h.created
    refine ⟨h.charges, ?_, ⟨group, ?_, hstage.trans hstrip, houtcome⟩, h.running hstages⟩
    · rw [h.retryBlock]
      exact hblock
    · rw [h.groups]
      exact mem_append_right _ (mem_singleton_self _)

theorem prepareEach_no_stages {result : Option Launched}
    (hstages : env.stages = []) (hcount : 2 ≤ n)
    (h : prepareEach env key g group n 0 db = (result, db')) : result = some (.startRefused 0) := by
  obtain ⟨m, rfl⟩ : ∃ m, n = m + 1 := ⟨n - 1, by omega⟩
  rw [prepareEach] at h
  split at h
  · exact (congrArg fst h).symm
  · rename_i workflow hworkflow
    have hrefused : startRefused env
        { db with attempts := db.attempts ++ [{ group := g, index := 0 }] } key workflow 0 =
          true := by
      have hnone : parseStageMap workflow.rows env.stages key = none := by
        rw [parseStageMap, hstages]
        exact if_neg not_mem_nil
      rw [startRefused, hnone]
      rfl
    rw [if_pos hrefused] at h
    exact (congrArg fst h).symm

/-- **A fan-out that is not promoted is put back**: at whichever attempt no worktree is cut, and
    when a finished one is declined, the ticket's cursor, its stage's status, the stage map and the
    agent pin are what they were, its group is settled, and each attempt that could be removed is
    gone. Behind a decline none of its runs is live, and its one dispatch stays charged. -/
theorem unpromoted_put_back (env : Env) (db db' : Db) (key : StageKey) (n : Nat) :
    (∀ i, launchFanout env db key n = (.noWorktree i, db') → PutBack env db.groups.length db db') ∧
    ∀ g prepared, launchFanout env db key n = (.finished g, prepared) →
      declineFanout env prepared g = some db' →
      PutBack env g db db' ∧
      (∀ (j : Nat) (r : Run), db.runs.length ≤ j → db'.runs[j]? = some r → r.status ≠ .running) ∧
      (String.ofList (strip isSpace key.toList) = key → db.retryBlock key = false →
        db'.charges key = db.charges key + 1) := by
  have hstep : ∀ start i at_ workflow, InLoop env db key start i at_ →
      at_.workflow = some workflow → InLoop env db key start (i + 1)
        (linkAttempt env (startRun env (plan at_ db.groups.length i) key workflow i)
          db.groups.length i) :=
    fun start i at_ workflow h hworkflow => ⟨h.launching.step workflow,
      fun hblock hstrip hstages => (h.charging hblock hstrip hstages).step hworkflow⟩
  constructor
  · intro i h
    obtain ⟨group, start, hlaunch, hloop⟩ := launchFanout_cases h nofun nofun
    rcases hloop with hloop | ⟨prepared, -, hfinished, -⟩
    · obtain ⟨stopped, workflow, hstopped, -, rfl⟩ :=
        (prepareEach_rule (hstep start) (inLoop_start hlaunch) hloop).2 i rfl
      obtain ⟨hgroups, -, -⟩ := startRun_keeps env (plan stopped db.groups.length i) key workflow i
      refine putBack_of_settle hlaunch.hasWorkspace hlaunch.closed hlaunch.created ?_
        (startRun_workflow env _ key workflow i) nofun
      exact hgroups.trans (hstopped.launching.groups.trans hlaunch.groups)
    · cases hfinished
  · intro g prepared h hdecline
    obtain ⟨group, start, hlaunch, hloop⟩ := launchFanout_cases h nofun nofun
    rcases hloop with hloop | ⟨ready, hloop, hfinished, rfl⟩
    · exact absurd rfl (prepareEach_stopped hloop g)
    · cases hfinished
      obtain ⟨hrule, -⟩ := prepareEach_rule (hstep start) (inLoop_start hlaunch) hloop
      have hready := hrule rfl
      obtain ⟨hgroups, hflow, hcharges, hruns⟩ := foldl_runAttempt_keeps env
        (ready.attemptsOf db.groups.length) ready
      generalize hran : (ready.attemptsOf db.groups.length).foldl (runAttempt env) ready = ran
        at hdecline hgroups hflow hcharges hruns
      have hall : ran.groups = db.groups ++ [group] :=
        hgroups.trans (hready.launching.groups.trans hlaunch.groups)
      rw [declineFanout, hall, List.getElem?_append_right (le_refl _), Nat.sub_self] at hdecline
      dsimp only [List.getElem?_cons_zero] at hdecline
      split at hdecline
      · cases hdecline
      cases hdecline
      obtain ⟨-, -, hkeptCharges, hkeptRuns⟩ := discardAttempts_keeps env ran db.groups.length
      refine ⟨?_, ?_, ?_⟩
      · exact putBack_of_settle hlaunch.hasWorkspace hlaunch.closed hlaunch.created hall
          (hflow ▸ hready.launching.workflow) nofun
      · intro j r hj hr hrunning
        have hr' : ran.runs[j]? = some r := hkeptRuns ▸ hr
        rw [← hran] at hr'
        obtain ⟨hnone, r', hr'', -⟩ := foldl_runAttempt _ hr' hrunning
        have hlt : j < ready.runs.length := (List.getElem?_eq_some_iff.mp hr'').1
        rw [hready.launching.runs, hlaunch.runs] at hlt
        obtain ⟨a, ha, -, hrun⟩ := hready.launching.owned (j - db.runs.length) (by omega)
        rw [hlaunch.runs, Nat.add_sub_cancel' hj] at hrun
        exact hnone a ha hrun
      · intro hstrip hblock
        have hstages : env.stages ≠ [] := by
          intro hnil
          cases prepareEach_no_stages hnil hlaunch.several hloop
        show (discardAttempts env ran db.groups.length).charges key = _
        rw [hkeptCharges, hcharges]
        exact (hready.charging hblock hstrip hstages).charges

def planAndBuild : Env := { template := [{ key := "plan" }, { key := "build" }] }

def beforeBuild : Db where
  ticket := { cursor := "build", state := .inProgress, nextAgent := "builder" }
  workflow := some { rows := [⟨"plan", .done, ""⟩, ⟨"build", .pending, ""⟩], current := "build" }

def oneWorktree : Env := { planAndBuild with cuts := fun i => i = 0 }

def oneStart : Env := { planAndBuild with refuses := fun i => i = 1 }

theorem build_put_back :
    (∃ db', launchFanout oneWorktree beforeBuild "build" 2 = (.noWorktree 1, db') ∧
      PutBack oneWorktree 0 beforeBuild db') ∧
    ∃ prepared db', launchFanout planAndBuild beforeBuild "build" 2 = (.finished 0, prepared) ∧
      declineFanout planAndBuild prepared 0 = some db' ∧ PutBack planAndBuild 0 beforeBuild db' ∧
      db'.charges "build" = 1 := by
  constructor
  · have h : launchFanout oneWorktree beforeBuild "build" 2 = (.noWorktree 1, _) :=
      Prod.ext (by decide +kernel) rfl
    exact ⟨_, h, (unpromoted_put_back oneWorktree beforeBuild _ "build" 2).1 1 h⟩
  · have h : launchFanout planAndBuild beforeBuild "build" 2 = (.finished 0, _) :=
      Prod.ext (by decide +kernel) rfl
    obtain ⟨db', hdecline⟩ := isSome_iff_exists.mp
      (show (declineFanout planAndBuild (launchFanout planAndBuild beforeBuild "build" 2).2
        0).isSome = true by decide +kernel)
    obtain ⟨hback, -, hcharge⟩ :=
      (unpromoted_put_back planAndBuild beforeBuild db' "build" 2).2 0 _ h hdecline
    exact ⟨_, db', h, hdecline, hback, hcharge (by decide +kernel) rfl⟩

/-- A declined fan-out stays charged. A start that is refused at the second attempt leaves the group
    open, the stage running and the first attempt's run live, and a worktree that is not cut leaves
    both runs live. -/
theorem unpromoted_leaves_traces :
    ((declineFanout planAndBuild (launchFanout planAndBuild beforeBuild "build" 2).2 0).map
      fun db => db.charges "build") = some (beforeBuild.charges "build" + 1) ∧
    (launchFanout oneStart beforeBuild "build" 2).1 = .startRefused 1 ∧
    hasOpenGroup (launchFanout oneStart beforeBuild "build" 2).2 = true ∧
    (launchFanout oneStart beforeBuild "build" 2).2.ticket.cursorStatus = .running ∧
    ((launchFanout oneStart beforeBuild "build" 2).2.runs.map Run.status) = [.running] ∧
    (launchFanout oneWorktree beforeBuild "build" 2).1 = .noWorktree 1 ∧
    ((launchFanout oneWorktree beforeBuild "build" 2).2.runs.map Run.status)
      = [.running, .running] := by
  decide +kernel

end Loregarden.Fanout
