import Loregarden.WorkflowStateModel

/-! # Running a stage N times

`stage_fanout_service.py` over `stage_fanout_groups.py`: `launch_fanout`, `decline_fanout` and the
undo behind both, for one ticket, with what of `OrchestrationService.start_run`, `workflow_state.py`
and the stage's dispatch counter they reach. What refuses a start, cuts a worktree, ends a run,
retires a worktree or deletes a branch is given; the texts, the times and the diffs of attempts are
left out. -/

namespace Loregarden.Fanout

open Text
open Lanes (TicketState)
open Stages (StageStatus WorkflowStageDef)

abbrev StageKey := String
abbrev AgentId := String
abbrev Branch := String

/-- A row of `stages_json`. -/
structure StageRow where
  key : StageKey
  status : StageStatus
  note : String := ""

structure Ticket where
  state : TicketState := .backlog
  stateLocked : Bool := false
  cursor : StageKey := ""
  cursorStatus : StageStatus := .pending
  nextAgent : AgentId := ""
  scopeRerouteAgent : AgentId := ""
  blockingIssues : String := ""

/-- A `WorkflowInstance`. -/
structure Workflow where
  rows : List StageRow
  current : StageKey := ""

abbrev StageMap := StageKey → Option StageStatus

/-- `by_key`: of two rows of one key the last one counts. -/
def byKey (rows : List StageRow) (key : StageKey) : Option StageStatus :=
  (rows.reverse.find? (·.key = key)).map StageRow.status

def parseStageMap (rows : List StageRow) (stages : List WorkflowStageDef) : StageMap := fun key =>
  if key ∈ stages.map (·.key) then some ((byKey rows key).getD .pending) else none

def parseStageNotes (rows : List StageRow) (key : StageKey) : String :=
  ((rows.reverse.find? fun r => r.key = key ∧ r.note ≠ "").map StageRow.note).getD ""

def serializeStageMap (stageMap : StageMap) (stages : List WorkflowStageDef)
    (notes : StageKey → String) : List StageRow :=
  (Stages.ordered stages).filterMap fun s =>
    (stageMap s.key).map fun status => ⟨s.key, status, notes s.key⟩

def applyStageOverrides (skipStages : List StageKey) (stages : List WorkflowStageDef) :
    List WorkflowStageDef :=
  stages.filter fun s => s.key ∉ skipStages

def derive (ticket : Ticket) (target : TicketState) : Ticket :=
  if ticket.stateLocked ∨ ticket.state = .wontDo ∨ ticket.state = .parked then ticket
  else { ticket with state := target }

/-- `reconcile_workflow_state`. -/
def reconcile (ticket : Ticket) (workflow : Workflow) (stages : List WorkflowStageDef) :
    Ticket × Workflow :=
  let stageMap := parseStageMap workflow.rows stages
  let read := fun key => (stageMap key).getD .pending
  let current := WorkflowState.cursorStage ticket.cursor read stages
  let state := Stages.deriveTicketState read stages ticket.blockingIssues current.2
  let moved := { ticket with cursor := current.1, cursorStatus := current.2 }
  -- a ticket that is done stays done
  (if ticket.state = .done ∧ state ≠ .done then moved else derive moved state,
    { rows := serializeStageMap stageMap stages (parseStageNotes workflow.rows)
      current := current.1 })

/-- `set_stage_status`, of a stage of the map. -/
def setStageStatus (ticket : Ticket) (workflow : Workflow) (stages : List WorkflowStageDef)
    (key : StageKey) (status : StageStatus) : Ticket × Workflow :=
  let stageMap : StageMap := fun other =>
    if other = key then some status else parseStageMap workflow.rows stages other
  reconcile ticket
    { workflow with
      rows := serializeStageMap stageMap stages (parseStageNotes workflow.rows) } stages

/-! ## The rows -/

/-- `StageFanoutOutcome`. -/
inductive Outcome where
  | pending | promoted | declined | cancelled | failed
  deriving DecidableEq

/-- `StageFanoutGroupStatus`. -/
inductive GroupStatus where
  | opened | settling | settled | cancelled | failed

/-- `StageFanoutAttemptStatus`. -/
inductive AttemptStatus where
  | planned | queued | running | awaitingPermission | succeeded | failed | cancelled | declined
  | promoted
  deriving DecidableEq

/-- A `StageFanoutGroup`, with what it recorded of the ticket at its launch. -/
structure Group where
  stage : StageKey
  attemptCount : Nat
  preCursor : StageKey
  preCursorStatus : StageStatus
  preRows : List StageRow
  preNextAgent : AgentId
  status : GroupStatus := .opened
  outcome : Outcome := .pending

/-- A `StageFanoutAttempt`: the number of its group, and of its run and its worktree. -/
structure Attempt where
  group : Nat
  index : Nat
  run : Option Nat := none
  worktree : Option Nat := none
  branch : Branch := ""
  status : AttemptStatus := .planned

inductive RunStatus where
  | running | succeeded | failed
  deriving DecidableEq

structure Run where
  stage : StageKey
  agent : AgentId
  status : RunStatus := .running
  worktree : Option Nat := none

/-- A worktree's row, and whether its checkout is on disk. -/
structure Worktree where
  branch : Branch
  run : Nat
  onDisk : Bool := true

/-- All that one ticket's fan-outs touch; rows are numbered as they are added. -/
structure Db where
  ticket : Ticket
  workflow : Option Workflow
  /-- The outstanding `stage_dispatch` markers, and whether the stage's breaker has blocked it. -/
  charges : StageKey → Nat := fun _ => 0
  retryBlock : StageKey → Bool := fun _ => false
  groups : List Group := []
  attempts : List Attempt := []
  runs : List Run := []
  worktrees : List Worktree := []
  branches : List Branch := []

/-- What a launch and what follows it are told by the rest of the system. -/
structure Env where
  hasWorkspace : Bool := true
  /-- `refuse_held_dispatch` raises. -/
  held : Bool := false
  /-- The stages of the ticket's template. -/
  template : List WorkflowStageDef
  skipStages : List StageKey := []
  ticketBranch : Branch := "ticket"
  /-- `_parent_branch` finds a branch to cut from. -/
  hasParent : Bool := true
  /-- What else makes `start_run` of an attempt raise. -/
  refuses : Nat → Bool := fun _ => false
  agent : Nat → AgentId := fun _ => "agent"
  /-- The dispatch is counted where no pass is open. -/
  countsAlone : Nat → Bool := fun _ => true
  /-- `create_worktree` of an attempt gives one. -/
  cuts : Nat → Bool := fun _ => true
  /-- The attempt's run succeeds with a passing report. -/
  passes : Nat → Bool := fun _ => true
  /-- `retire_worktree` removes the checkout. -/
  retires : Nat → Bool := fun _ => true
  /-- `git branch -D` deletes the branch. -/
  deletes : Branch → Bool := fun _ => true

/-- `resolve_ticket_stages`. -/
def Env.stages (env : Env) : List WorkflowStageDef :=
  applyStageOverrides env.skipStages env.template

namespace Db

variable (db : Db)

def setGroup (g : Nat) (f : Group → Group) : Db := { db with groups := db.groups.modify g f }

/-- The attempts of a group; they are added in the order of their indices. -/
def attemptsOf (g : Nat) : List Attempt := db.attempts.filter fun a => a.group = g

def setAttempt (g i : Nat) (f : Attempt → Attempt) : Db :=
  { db with attempts := db.attempts.map fun a => if a.group = g ∧ a.index = i then f a else a }

end Db

variable (env : Env)

/-- `dispatch_pass_open`: a run of the stage is live, or a fan-out of it is unsettled. -/
def dispatchPassOpen (db : Db) (key : StageKey) (stageRunning : Bool) : Bool :=
  stageRunning && (db.runs.any (fun r => r.stage = key ∧ r.status = .running) ||
    db.groups.any fun g => g.stage = key ∧ g.outcome = .pending)

def recordStageDispatch (db : Db) (key : StageKey) : Db :=
  { db with charges := fun other => if other = key then db.charges other + 1 else db.charges other }

def stageStartClearsBudget (db : Db) (key : StageKey) (stageMap : StageMap) : Bool :=
  (db.ticket.state = .blocked ∨ stageMap key = some .blocked) && db.retryBlock key

def refreshStageRetryBudget (db : Db) (key : StageKey) (clearDispatches : Bool) : Db :=
  { db with
    charges := fun other => if clearDispatches ∧ other = key then 0 else db.charges other
    retryBlock := fun other => if other = key then false else db.retryBlock other
    ticket :=
      if db.ticket.state = .blocked ∧ !db.ticket.stateLocked then
        { db.ticket with state := .inProgress }
      else db.ticket }

def prepareStageStart (db : Db) (key : StageKey) (stageMap : StageMap) : Db :=
  let cleared := { db with ticket := { db.ticket with blockingIssues := "" } }
  if db.ticket.state = .blocked ∨ stageMap key = some .blocked then
    refreshStageRetryBudget cleared key (stageStartClearsBudget db key stageMap)
  else cleared

/-- Why `start_run` refuses: the stage is not one of the ticket's or is pruned, another stage is
    under way, the ticket is closed, or something else does not let it start. -/
def startRefused (db : Db) (key : StageKey) (workflow : Workflow) (i : Nat) : Bool :=
  let t := db.ticket
  parseStageMap workflow.rows env.stages key = none ||
    parseStageMap workflow.rows env.stages key = some .wontDo ||
    ((t.cursorStatus = .running ∨ t.cursorStatus = .awaiting) &&
      !(t.cursorStatus = .running && key = t.cursor)) ||
    (t.state = .done || t.state = .wontDo) || env.refuses i

/-- `start_run` behind its refusals: the run it opens is the last one. -/
def startRun (db : Db) (key : StageKey) (workflow : Workflow) (i : Nat) : Db :=
  let stageMap := parseStageMap workflow.rows env.stages
  let counts := !dispatchPassOpen db key (stageMap key = some .running) && env.countsAlone i
  let prepared := prepareStageStart db key stageMap
  let charged := if counts then recordStageDispatch prepared key else prepared
  let t := charged.ticket
  let started := if t.state = .backlog then { t with state := .inProgress } else t
  let pinned : Ticket :=
    { started with
      scopeRerouteAgent :=
        if started.scopeRerouteAgent = env.agent i then "" else started.scopeRerouteAgent
      nextAgent := if started.nextAgent = env.agent i then "" else started.nextAgent
      cursor := key }
  let moved := if stageMap key = some .running then (pinned, workflow)
    else setStageStatus pinned workflow env.stages key .running
  { charged with
    ticket := moved.1
    workflow := some moved.2
    runs := charged.runs ++ [{ stage := key, agent := env.agent i }] }

def discardAttempt (db : Db) (a : Attempt) : Db :=
  let removed : Bool := match a.worktree with
    | some w => env.retires w
    | none => true
  let retired := match a.worktree with
    | some w => if env.retires w then db.worktrees.modify w fun t => { t with onDisk := false }
        else db.worktrees
    | none => db.worktrees
  { db with
    worktrees := retired
    branches :=
      if a.branch ≠ "" ∧ removed = true ∧ env.deletes a.branch = true then
        db.branches.filter fun b => b ≠ a.branch
      else db.branches
    attempts := db.attempts.map fun other =>
      if other.group = a.group ∧ other.index = a.index ∧ other.status ≠ .promoted then
        { other with status := .declined }
      else other }

/-- `_discard_attempts`, of all of them. -/
def discardAttempts (db : Db) (g : Nat) : Db :=
  if env.hasWorkspace then (db.attemptsOf g).foldl (discardAttempt env) db else db

def restorePreFanoutState (db : Db) (group : Group) : Db :=
  { db with
    ticket :=
      { db.ticket with
        cursor := group.preCursor
        cursorStatus := group.preCursorStatus
        nextAgent := group.preNextAgent }
    workflow := db.workflow.map fun _ =>
      { rows := group.preRows, current := group.preCursor } }

/-- `settle_group`, of a group that none of has won. -/
def settleGroup (db : Db) (g : Nat) (outcome : Outcome) (status : GroupStatus) : Db :=
  db.setGroup g fun group => { group with outcome := outcome, status := status }

def abortLaunch (db : Db) (g : Nat) (group : Group) : Db :=
  settleGroup (restorePreFanoutState (discardAttempts env db g) group) g .failed .failed

/-- `decline_fanout`, of a group by its number; `none` where it refuses. -/
def declineFanout (db : Db) (g : Nat) : Option Db :=
  match db.groups[g]? with
  | none => none
  | some group =>
    if group.outcome ≠ .pending then none
    else some (settleGroup (restorePreFanoutState (discardAttempts env db g) group) g
      .declined .settled)

/-! ## `launch_fanout` -/

def maxAttempts : Nat := 5

/-- `create_group`, of a key with its blanks stripped. -/
def createGroup (db : Db) (key : StageKey) (attemptCount : Nat) : Option Group :=
  let stripped := String.ofList (strip isSpace key.toList)
  db.workflow.bind fun workflow =>
    let stageMap := parseStageMap workflow.rows env.template
    if stripped = "" ∨ stageMap stripped = none then none
    else some
      { stage := stripped
        attemptCount := attemptCount
        preCursor := db.ticket.cursor
        preCursorStatus := db.ticket.cursorStatus
        preRows := serializeStageMap stageMap env.template (parseStageNotes workflow.rows)
        preNextAgent := db.ticket.nextAgent }

def attemptBranch (i : Nat) : Branch := env.ticketBranch ++ "-attempt-" ++ toString (i + 1)

/-- An attempt with the last run and the next worktree. -/
def linkedAttempt (db : Db) (i : Nat) (a : Attempt) : Attempt :=
  { a with
    run := some (db.runs.length - 1)
    worktree := some db.worktrees.length
    branch := attemptBranch env i
    status := .queued }

/-- `create_worktree` of an attempt's run, and the links to both. -/
def linkAttempt (db : Db) (g i : Nat) : Db :=
  let run := db.runs.length - 1
  let branch := attemptBranch env i
  let linked : Db := { db with
    worktrees := db.worktrees ++ [{ branch := branch, run := run }]
    branches := if branch ∈ db.branches then db.branches else db.branches ++ [branch]
    runs := db.runs.modify run fun r => { r with worktree := some db.worktrees.length } }
  linked.setAttempt g i (linkedAttempt env db i)

inductive Launched where
  /-- It is refused before it has a group. -/
  | refused
  /-- An error behind the group: the stage is unknown, or there is no parent branch. -/
  | raised
  /-- `start_run` raises at an attempt. -/
  | startRefused (i : Nat)
  /-- No worktree for an attempt. -/
  | noWorktree (i : Nat)
  | finished (g : Nat)
  deriving DecidableEq

/-- The loop that prepares the attempts from `i` on. -/
def prepareEach (key : StageKey) (g : Nat) (group : Group) : Nat → Nat → Db → Option Launched × Db
  | 0, _, db => (none, db)
  | left + 1, i, db =>
    let planned : Db := { db with attempts := db.attempts ++ [{ group := g, index := i }] }
    match planned.workflow with
    | none => (some (.startRefused i), planned)
    | some workflow =>
      if startRefused env planned key workflow i then (some (.startRefused i), planned)
      else
        let started := startRun env planned key workflow i
        if env.cuts i then prepareEach key g group left (i + 1) (linkAttempt env started g i)
        else (some (.noWorktree i), abortLaunch env started g group)

/-- `_run_attempt`: its run ends, and it is what the run's report says. -/
def runAttempt (db : Db) (a : Attempt) : Db :=
  let ended := match a.run with
    | some run => { db with runs := db.runs.modify run fun r =>
      { r with status := if env.passes a.index then .succeeded else .failed } }
    | none => db
  ended.setAttempt a.group a.index fun other =>
    { other with status := if env.passes a.index then .succeeded else .failed }

/-- `_open_group_for` finds one. -/
def hasOpenGroup (db : Db) : Bool := db.groups.any fun g => g.outcome = .pending

def launchFanout (db : Db) (key : StageKey) (attemptCount : Nat) : Launched × Db :=
  if attemptCount < 2 ∨ maxAttempts < attemptCount then (.refused, db)
  else if !env.hasWorkspace ∨ env.held then (.refused, db)
  else if hasOpenGroup db then (.refused, db)
  else
    match createGroup env db key attemptCount with
    | none => (.refused, db)
    | some group =>
      let g := db.groups.length
      let charged := recordStageDispatch { db with groups := db.groups ++ [group] } key
      match charged.workflow with
      | none => (.raised, charged)
      | some workflow =>
        if env.stages ≠ [] ∧ parseStageMap workflow.rows env.stages key = none then
          (.raised, charged)
        else
          -- `finalize_stage`, which does nothing where there are no stages
          let moved := if env.stages = [] then (charged.ticket, workflow)
            else setStageStatus charged.ticket workflow env.stages key .running
          let running : Db := { charged with ticket := moved.1, workflow := some moved.2 }
          if !env.hasParent then (.raised, running)
          else
            match prepareEach env key g group attemptCount 0 running with
            | (some stopped, stoppedAt) => (stopped, stoppedAt)
            | (none, prepared) =>
              (.finished g, (prepared.attemptsOf g).foldl (runAttempt env) prepared)

end Loregarden.Fanout
