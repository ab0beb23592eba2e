import Mathlib.Data.List.Dedup
import Mathlib.Data.String.Basic
import Loregarden.LaneModel
import Loregarden.PythonText

/-! # Stage maps and the routes through a template

`state_machine.py`, `stage_groups.py`, `workflow_routing.py` and `workflow_state.py`: what a
completed or rejected stage does to the statuses of a ticket's stages. A stage map is read at the
keys of the template only, and a key without a row reads pending; the notes beside the statuses, and
the ticket's cursor, agent hint and blocking text, which no status depends on, are left out. What a
ticket's text says (the route keyword scoring picks, and whether its plans name a UI path) is a
field of the ticket. -/

namespace Loregarden.Stages

open Lanes (TicketState)

inductive StageStatus where
  | pending | running | blocked | awaiting | done | wontDo
  deriving DecidableEq

inductive StageType where
  | agent | classify | gate | parallel
  deriving DecidableEq

/-- `ClassifyRoute`: who runs, and the stage the route branches to. -/
structure ClassifyRoute where
  agentId : String
  toStage : String := ""

structure WorkflowStageDef where
  key : String
  order : Int := 0
  agentId : String := ""
  optional : Bool := false
  stageType : StageType := .agent
  classifyRoutes : List ClassifyRoute := []
  /-- Ends the workflow when reached. -/
  terminal : Bool := false
  skipWhen : String := ""
  alternativeGroup : String := ""

/-- One row of `transitions_json`; a missing text is empty, and YAML reads a bare `on` as
    the key `True`. -/
structure Transition where
  source : Option String
  target : String := ""
  when_ : String := ""
  onTrue : String := ""
  onText : String := ""
  agentId : String := ""

structure Ticket where
  description : String := ""
  /-- None when the column cannot be read. -/
  acceptanceCriteria : Option (List String) := some []
  /-- The route `classify_decision` settles on. -/
  decision : WorkflowStageDef → Option ClassifyRoute := fun _ => none
  /-- `plan_names_no_ui_paths`. -/
  planNamesNoUiPaths : Bool := false

abbrev StageMap := String → StageStatus

/-- `str.strip`. -/
def pyStrip (s : String) : String := String.ofList (Text.strip Text.isSpace s.toList)

/-- `sorted(stages, key=lambda s: s.order)`. -/
def ordered (stages : List WorkflowStageDef) : List WorkflowStageDef :=
  stages.insertionSort fun a c => a.order ≤ c.order

def terminalStageKey : String := "done"

def isTerminalStage (stage : WorkflowStageDef) : Bool :=
  stage.terminal || stage.key = terminalStageKey

/-- `initial_stages_json`: every stage is pending. -/
def initialStages : StageMap := fun _ => .pending

def groupMembers (stages : List WorkflowStageDef) (group : String) : List WorkflowStageDef :=
  if group = "" then [] else (ordered stages).filter (·.alternativeGroup = group)

def groupWouldBeEmptied (stages : List WorkflowStageDef) (stageMap : StageMap) (stageKey : String) :
    String :=
  match stages.find? (·.key = stageKey) with
  | none => ""
  | some stage =>
    if stage.alternativeGroup = "" then ""
    else if (groupMembers stages stage.alternativeGroup).any fun member =>
        member.key ≠ stageKey ∧ stageMap member.key ≠ .wontDo then ""
    else stage.alternativeGroup

def groups (stages : List WorkflowStageDef) : List String :=
  ((stages.map (·.alternativeGroup)).filter (· ≠ "")).dedup

def emptiedGroups (stages : List WorkflowStageDef) (stageMap : StageMap) : List String :=
  ((groups stages).filter fun group =>
    (groupMembers stages group).all fun member => stageMap member.key = .wontDo).insertionSort
      (· ≤ ·)

def deriveTicketState (stageMap : StageMap) (stages : List WorkflowStageDef)
    (blockingIssues : String) (workflowStageStatus : StageStatus) : TicketState :=
  let statuses := stages.map fun stage => stageMap stage.key
  let required := (ordered stages).filter fun stage => ¬ stage.optional
  if statuses.any (· = .blocked) then .blocked
  else if blockingIssues ≠ "" ∧ workflowStageStatus ∈ [.blocked, .running, .awaiting] then .blocked
  else if required ≠ [] ∧ required.all (fun stage => stageMap stage.key ∈ [.done, .wontDo]) ∧
      emptiedGroups stages stageMap = [] then .done
  else if blockingIssues ≠ "" ∧ workflowStageStatus = .pending then .inProgress
  else if statuses.any (· ∈ [.running, .awaiting, .blocked, .done, .wontDo]) then .inProgress
  else .backlog

def setStageStatus (stages : List WorkflowStageDef) (stageMap : StageMap) (stageKey : String)
    (status : StageStatus) : Except String StageMap :=
  if stageKey ∈ stages.map (·.key) then .ok (Function.update stageMap stageKey status)
  else .error s!"Unknown stage key: {stageKey}"

def isPrunableStage (stage : WorkflowStageDef) : Bool := stage.optional && ¬ isTerminalStage stage

def prunableStageKeys (stages : List WorkflowStageDef) : List String :=
  ((ordered stages).filter isPrunableStage).map (·.key)

def quoted (stageKey : String) : String := "'" ++ stageKey ++ "'"

/-- `skip_stage`: an agent says a stage does not apply. -/
def skipStage (stages : List WorkflowStageDef) (stageMap : StageMap) (stageKey : String) :
    Except String StageMap :=
  match stages.find? (·.key = stageKey) with
  | none => .error s!"Unknown stage key: {stageKey}"
  | some stage =>
    let offered := prunableStageKeys stages
    let hint := if offered = [] then "(none)" else ", ".intercalate (offered.map quoted)
    let emptied := groupWouldBeEmptied stages stageMap stageKey
    let siblings := ", ".intercalate
      (((groupMembers stages emptied).filter (·.key ≠ stageKey)).map (quoted ·.key))
    if ¬ isPrunableStage stage then
      .error (s!"Stage '{stageKey}' is required by this workflow and cannot be skipped. " ++
        s!"Skippable stages: {hint}")
    else if stageMap stageKey = .running then
      .error (s!"Stage '{stageKey}' is running — report its outcome with complete_stage " ++
        "instead of skipping it")
    else if stageMap stageKey = .done then
      .error s!"Stage '{stageKey}' already ran and cannot be skipped"
    else if emptied ≠ "" then
      .error (s!"Stage '{stageKey}' is the last remaining member of alternative group " ++
        s!"'{emptied}' and cannot be skipped — one of {siblings} must run. " ++
        "Pruning every member would leave the ticket deriving DONE with none of " ++
        "this group's work performed.")
    else setStageStatus stages stageMap stageKey .wontDo

/-! ## Where the cursor goes -/

structure StageRoutePlan where
  fromKey : String
  toKey : String
  outcome : String
  upstream : Bool
  transitionAgentId : String := ""
  deriving DecidableEq

def stageIndex (stages : List WorkflowStageDef) (stageKey : String) : Option Nat :=
  ((ordered stages).map (·.key)).idxOf? stageKey

def isUpstreamRoute (stages : List WorkflowStageDef) (fromKey toKey : String) : Bool :=
  match stageIndex stages fromKey, stageIndex stages toKey with
  | some fromIdx, some toIdx => toIdx < fromIdx
  | _, _ => false

def routesForward (stages : List WorkflowStageDef) (fromKey toKey : String) : Bool :=
  match stageIndex stages fromKey, stageIndex stages toKey with
  | some fromIdx, some toIdx => fromIdx < toIdx
  | _, _ => false

def transitionWhen (item : Transition) : String :=
  if item.when_ ≠ "" then item.when_ else if item.onTrue ≠ "" then item.onTrue else item.onText

/-- `pick`, in `resolve_transition_target`. -/
def pick (candidates : List Transition) (whenValues : List String) : Option (String × String) :=
  (whenValues.findSome? fun value => candidates.find? (transitionWhen · = value)).map fun item =>
    (item.target, item.agentId)

/-- `resolve_transition_target`: the stage, and the agent of the transition. -/
def resolveTransitionTarget (transitions : List Transition) (fromKey outcome : String) :
    Option (String × String) :=
  let candidates := transitions.filter (·.source = some fromKey)
  let legacy := candidates.filter (transitionWhen · = "")
  if candidates = [] then none
  else if outcome = "reject" then (pick candidates ["reject"]).filter (·.1 ≠ "")
  else
    match (pick candidates ["pass", "default", ""]).filter (·.1 ≠ "") with
    | some routed => some routed
    | none =>
      match legacy, candidates with
      | [item], _ => if item.target ≠ "" then some (item.target, item.agentId) else
          match candidates with
          | [only] => if only.target ≠ "" then some (only.target, only.agentId) else none
          | _ => none
      | _, [only] => if only.target ≠ "" then some (only.target, only.agentId) else none
      | _, _ => none

def nextStageKey (stages : List WorkflowStageDef) (currentKey : String) : Option String :=
  let keys := (ordered stages).map (·.key)
  if currentKey = "" then keys.head?
  else (keys.idxOf? currentKey).bind fun idx => keys[idx + 1]?

/-- `resolve_next_stage_key`, without an explicit target. -/
def resolveNextStage (stages : List WorkflowStageDef) (transitions : List Transition)
    (currentKey outcome : String) : Option StageRoutePlan :=
  match resolveTransitionTarget transitions currentKey outcome with
  | some (toKey, agentId) =>
    some { fromKey := currentKey, toKey := toKey, outcome := outcome
           upstream := isUpstreamRoute stages currentKey toKey, transitionAgentId := agentId }
  | none =>
    if outcome = "reject" then none
    else ((nextStageKey stages currentKey).filter (· ≠ "")).map fun linear =>
      { fromKey := currentKey, toKey := linear, outcome := outcome, upstream := false }

def resolveNextStageKey (stages : List WorkflowStageDef) (transitions : List Transition)
    (currentKey outcome explicitTo : String) : Except String (Option StageRoutePlan) :=
  if explicitTo = "" then .ok (resolveNextStage stages transitions currentKey outcome)
  else if explicitTo ∉ stages.map (·.key) then
    .error s!"Unknown target stage '{explicitTo}' for route from '{currentKey}'"
  else
    .ok (some { fromKey := currentKey, toKey := explicitTo, outcome := outcome
                upstream := isUpstreamRoute stages currentKey explicitTo })

def resetUpstreamStages (stageMap : StageMap) (stages : List WorkflowStageDef)
    (fromKey toKey : String) : StageMap :=
  match stageIndex stages fromKey, stageIndex stages toKey with
  | some fromIdx, some toIdx =>
    if fromIdx < toIdx then stageMap
    else fun key =>
      if key ∈ (((ordered stages).take (fromIdx + 1)).drop toIdx).map (·.key) then .pending
      else stageMap key
  | _, _ => stageMap

/-- The stages strictly between two others, in template order. -/
def between (stages : List WorkflowStageDef) (fromKey toKey : String) : List String :=
  match stageIndex stages fromKey, stageIndex stages toKey with
  | some fromIdx, some toIdx => (((ordered stages).take toIdx).drop (fromIdx + 1)).map (·.key)
  | _, _ => []

def skipIntermediateStages (stageMap : StageMap) (stages : List WorkflowStageDef)
    (fromKey toKey : String) : StageMap := fun key =>
  if key ∈ between stages fromKey toKey ∧ stageMap key = .pending then .wontDo else stageMap key

def tookLightRoute (ticket : Ticket) (stages : List WorkflowStageDef) : Bool :=
  stages.any fun stage => stage.stageType = .classify ∧
    (ticket.decision stage).any fun route => pyStrip route.toStage ≠ ""

def shouldSkipStage (ticket : Ticket) (stage : WorkflowStageDef) (stages : List WorkflowStageDef) :
    Bool :=
  match pyStrip stage.skipWhen with
  | "has_description" => pyStrip ticket.description ≠ ""
  | "has_acceptance_criteria" => ticket.acceptanceCriteria.any (· ≠ [])
  | "routed_as_light_work" => tookLightRoute ticket stages
  | "no_ui_work" => tookLightRoute ticket stages || ticket.planNamesNoUiPaths
  | _ => false

/-- `_advance_past_skipped`, so many hops of it. -/
def advance (stages : List WorkflowStageDef) (transitions : List Transition) (ticket : Ticket) :
    Nat → StageRoutePlan → List String → StageRoutePlan × List String
  | 0, plan, skipped => (plan, skipped)
  | hops + 1, plan, skipped =>
    -- the dictionary by key keeps the last stage of a key
    match stages.reverse.find? (·.key = plan.toKey) with
    | none => (plan, skipped)
    | some target =>
      if ¬ shouldSkipStage ticket target stages then (plan, skipped)
      else if isTerminalStage target then (plan, skipped)
      else
        match resolveNextStage stages transitions plan.toKey "pass" with
        | none => (plan, skipped)
        | some onward =>
          if onward.toKey ∈ skipped then (plan, skipped)
          else advance stages transitions ticket hops onward (skipped ++ [plan.toKey])

/-- `_advance_past_skipped`: the settled plan, and the keys passed over. -/
def advancePastSkipped (stages : List WorkflowStageDef) (transitions : List Transition)
    (ticket : Ticket) (plan : StageRoutePlan) (outcome : String) : StageRoutePlan × List String :=
  if outcome ≠ "pass" then (plan, [])
  else advance stages transitions ticket stages.length plan []

def recordPassedOver (stages : List WorkflowStageDef) (stageMap : StageMap)
    (skippedKeys : List String) (branchFrom branchTo : String) : StageMap :=
  let passed : StageMap := fun key => if key ∈ skippedKeys then .wontDo else stageMap key
  if branchTo ≠ "" then skipIntermediateStages passed stages branchFrom branchTo else passed

/-! ## `apply_stage_route` -/

structure RouteRequest where
  fromKey : String
  outcome : String := "pass"
  nextStageKey : String := ""
  nextAgent : String := ""
  strict : Bool := false

def validRouteTargets (stages : List WorkflowStageDef) (fromKey outcome : String) : List String :=
  if outcome ≠ "reject" then []
  else
    match stageIndex stages fromKey with
    | none => []
    | some idx => ((ordered stages).map (·.key)).take (idx + 1)

/-- `_validate_route_target`: why the target is discarded. -/
def validateRouteTarget (stages : List WorkflowStageDef) (r : RouteRequest) :
    Except String String :=
  let reason :=
    if r.nextStageKey ∉ stages.map (·.key) then s!"Unknown target stage '{r.nextStageKey}'"
    else if r.outcome ≠ "reject" then
      s!"next_stage_key '{r.nextStageKey}' is only valid with outcome='reject' " ++
        "(upstream rework); on a pass the workflow decides the next stage"
    else if routesForward stages r.fromKey r.nextStageKey then
      s!"Rework stage '{r.nextStageKey}' must not come after stage '{r.fromKey}'"
    else ""
  if reason ≠ "" ∧ r.strict then
    let targets := validRouteTargets stages r.fromKey r.outcome
    let hint := if targets = [] then "(none — omit next_stage_key)" else ", ".intercalate targets
    .error s!"{reason}. Valid targets from '{r.fromKey}': {hint}"
  else .ok reason

def classifyBranchTarget (stages : List WorkflowStageDef) (ticket : Ticket)
    (fromKey outcome nextStageKey : String) : String :=
  if outcome ≠ "pass" ∨ nextStageKey ≠ "" then ""
  else
    match stages.find? (·.key = fromKey) with
    | none => ""
    | some stage =>
      if stage.stageType ≠ .classify then ""
      else ((ticket.decision stage).map (·.toStage)).getD ""

def stageOffersAgent (stage : WorkflowStageDef) (agentId : String) : Bool :=
  stage.classifyRoutes.any (·.agentId = agentId) || pyStrip stage.agentId = agentId

def previousStageKey (stages : List WorkflowStageDef) (fromKey : String) : Option String :=
  match stageIndex stages fromKey with
  | some (idx + 1) => ((ordered stages).map (·.key))[idx]?
  | _ => none

def rejectFallbackKey (stages : List WorkflowStageDef) (fromKey nextAgent : String) :
    Option String :=
  let agentId := pyStrip nextAgent
  if agentId ≠ "" ∧ (stages.find? (·.key = fromKey)).any (stageOffersAgent · agentId) then
    some fromKey
  else previousStageKey stages fromKey

/-- Where a request goes, and the stage its classify route branches to: `apply_stage_route`
    before any skip. -/
def routed (stages : List WorkflowStageDef) (transitions : List Transition) (ticket : Ticket)
    (r : RouteRequest) : Except String (StageRoutePlan × String) := do
  if r.strict ∧ r.fromKey ∉ stages.map (·.key) then
    throw s!"Unknown stage key: {r.fromKey}"
  let misroute ← if r.nextStageKey ≠ "" then validateRouteTarget stages r else pure ""
  let next := if misroute ≠ "" then "" else r.nextStageKey
  let branchTo := classifyBranchTarget stages ticket r.fromKey r.outcome next
  let plan ← resolveNextStageKey stages transitions r.fromKey r.outcome
    (if next ≠ "" then next else branchTo)
  let fallback : Option StageRoutePlan :=
    if r.outcome = "reject" then
      ((rejectFallbackKey stages r.fromKey r.nextAgent).filter (· ≠ "")).map fun key =>
        { fromKey := r.fromKey, toKey := key, outcome := r.outcome, upstream := true }
    else none
  match plan <|> fallback with
  | none =>
    throw s!"No workflow route defined from stage '{r.fromKey}' with outcome '{r.outcome}'"
  | some plan => pure (plan, branchTo)

/-- `apply_stage_route`: the statuses as it leaves them, also where it raises. -/
def applyStageRoute (stages : List WorkflowStageDef) (transitions : List Transition)
    (ticket : Ticket) (stageMap : StageMap) (r : RouteRequest) :
    StageMap × Except String StageRoutePlan :=
  match routed stages transitions ticket r with
  | .error reason => (stageMap, .error reason)
  | .ok (first, branchTo) =>
    let walk := advancePastSkipped stages transitions ticket first r.outcome
    let plan := walk.1
    if plan.upstream ∨ r.outcome = "reject" then
      (resetUpstreamStages stageMap stages r.fromKey plan.toKey, .ok plan)
    else
      let passed := recordPassedOver stages stageMap walk.2
        (if branchTo ≠ "" then r.fromKey else "") (if branchTo ≠ "" then plan.toKey else "")
      if passed r.fromKey = .wontDo then (passed, .ok plan)
      else
        match setStageStatus stages passed r.fromKey .done with
        | .error reason => (passed, .error reason)
        | .ok settled => (settled, .ok plan)

/-- `settle_unreached_stages`: the statuses, and the keys it settled. -/
def settleUnreachedStages (stages : List WorkflowStageDef) (stageMap : StageMap)
    (terminalKey : String) : StageMap × List String :=
  let unreached := (stages.map (·.key)).filter fun key =>
    key ≠ terminalKey ∧ stageMap key = .pending
  (unreached.foldl (fun m key => Function.update m key .wontDo) stageMap, unreached)

end Loregarden.Stages
