import Loregarden.PythonText
import Mathlib.Data.String.Basic

/-! # The permission bridge

The loop of `PermissionBridgeRunner.run`: it reads the lines a CLI prints, answers its permission
requests on stdin, and waits for a person where no rule answers. `loads` is `json.loads` (`none`
where it raises) and `render` is `str` of a value that is no string. One turn of the loop is given
what it meets: the clock readings, whether the process has ended, whether a cancel was asked for,
the messages of the operator, the resolution of the approval it waits for, the line, and what the
rules make of a request. Log and telemetry writes, ticket and run rows are left out. -/

namespace Loregarden.Bridge

open Text

/-! ## Payloads -/

/-- A value of `json.loads`. -/
inductive Json where
  | null
  | bool (b : Bool)
  | num (literal : String) (zero : Bool)
  | str (s : String)
  | arr (items : List Json)
  | obj (fields : List (String × Json))

abbrev Dict := List (String × Json)

namespace Json

/-- `bool(value)`. -/
def truthy : Json → Bool
  | null => false
  | bool b => b
  | num _ zero => !zero
  | str s => s ≠ ""
  | arr items => !items.isEmpty
  | obj fields => !fields.isEmpty

/-- `value or other`. -/
def orElse (value other : Json) : Json := if value.truthy then value else other

def unhashable : Json → Bool
  | arr _ | obj _ => true
  | _ => false

/-- `value in {"…", "…"}`, for a value that can be looked up. -/
def isIn (value : Json) (names : List String) : Bool :=
  match value with
  | str s => s ∈ names
  | _ => false

/-- `value if isinstance(value, dict) else {}`. -/
def dict : Json → Dict
  | obj fields => fields
  | _ => []

end Json

/-- `payload.get(key)`. -/
def Dict.get (d : Dict) (key : String) : Json :=
  ((d.find? fun field => field.1 = key).map Prod.snd).getD .null

variable (loads : String → Option Json) (render : Json → String)

/-- `str(value)`. -/
def pyStr : Json → String
  | .str s => s
  | value => render value

/-- `line.rstrip("\n")`. -/
def chomp (line : String) : String := String.ofList (rstrip (· = '\n') line.toList)

/-- `_parse_ndjson_line`, with an empty object read as none: both callers skip it. -/
def parseLine (line : String) : Option Dict :=
  let stripped := strip isSpace line.toList
  if stripped.isEmpty then none
  else
    match loads (String.ofList stripped) with
    | some (.obj (field :: fields)) => some (field :: fields)
    | _ => none

structure PermissionRequest where
  requestId : String
  toolName : String
  toolInput : Json

/-- `extract_permission_request`; the error is what it raises. -/
def extractPermissionRequest (payload : Dict) : Except String (Option PermissionRequest) :=
  let msgType := payload.get "type"
  if msgType.unhashable then .error "TypeError"
  else if msgType.isIn ["control_request", "sdk_control_request"] then
    match (payload.get "request").orElse (.obj []) with
    | .obj request =>
      let subtype := Dict.get request "subtype"
      if subtype.unhashable then .error "TypeError"
      else if subtype.isIn ["permission", "can_use_tool"] then
        .ok (some {
          requestId := pyStr render <| (payload.get "request_id").orElse <|
            (Dict.get request "request_id").orElse <| (Dict.get request "id").orElse (.str "")
          toolName := pyStr render <|
            (Dict.get request "tool_name").orElse <|
              (Dict.get request "tool").orElse (.str "tool")
          toolInput := (Dict.get request "tool_input").orElse <|
            (Dict.get request "input").orElse (.obj []) })
      else .ok none
    | _ => .error "AttributeError"
  else .ok none

/-- `result_payload_status`: whether it finishes, and whether it failed. -/
def resultPayloadStatus (payload : Dict) : Bool × Bool :=
  if (payload.get "type").isIn ["result"] then
    (true, (payload.get "is_error").truthy || (payload.get "subtype").isIn ["error"])
  else (false, false)

/-! ## What the bridge writes to the CLI -/

inductive Reply where
  | allow (updatedInput : Option Dict)
  | deny (message : String)

inductive Message where
  | response (requestId : String) (reply : Reply)
  | user (content : String) (sessionId : String)

def buildControlResponse (requestId : String) (approved : Bool) (message : String)
    (updatedInput : Option Dict) : Message :=
  if approved then
    .response requestId (.allow (updatedInput.filter fun fields => !fields.isEmpty))
  else .response requestId (.deny (if message = "" then "Denied via Loregarden inbox" else message))

def Message.answers : Message → Option String
  | .response requestId _ => some requestId
  | .user _ _ => none

structure ApprovalResolution where
  approved : Bool
  updatedInput : Option Dict := none
  message : String := ""

/-- The ways `_try_fast_approve` answers. -/
inductive FastAnswer where
  | deniedTool (message : String)
  | deniedOrchestrated (bareMcp : String)
  | rateLimited (message : String)
  | trustedServer
  | loregardenMcp (enriched : Dict)
  | runAutoApprove (toolInput : Dict)
  | allowlisted (toolInput : Dict)
  | cliAutoApproved

def FastAnswer.response (requestId : String) : FastAnswer → Message
  | .deniedTool message => buildControlResponse requestId false message none
  | .deniedOrchestrated bareMcp => buildControlResponse requestId false
      (bareMcp ++ " is denied to orchestrated pipeline agents. Do not route " ++
        "around this through the REST API or the database: say in your stage " ++
        "report what you needed it for, and a person decides.") none
  | .rateLimited message => buildControlResponse requestId false message none
  | .trustedServer => buildControlResponse requestId true "" none
  | .loregardenMcp enriched => buildControlResponse requestId true "" (some enriched)
  | .runAutoApprove toolInput => buildControlResponse requestId true "" (some toolInput)
  | .allowlisted toolInput => buildControlResponse requestId true "" (some toolInput)
  | .cliAutoApproved => buildControlResponse requestId true "" none

inductive Decision where
  | outOfScope (denial : String)
  | fast (answer : FastAnswer)
  | askPerson
  | raised (error : String)

/-! ## The state of the loop -/

structure Config where
  timeoutSeconds : Int
  approvalTimeoutSeconds : Int

/-- The approval a person has to resolve, with the request it is for. -/
structure Pending where
  requestId : String
  toolName : String
  toolInput : Dict

/-- `_LoopState`, with the lines written to stdin. -/
structure LoopState where
  stdoutLines : List String := []
  sessionId : String := ""
  pending : Option Pending := none
  approvalDeadline : Int := 0
  finishedWithResult : Bool := false
  resultIsError : Bool := false
  idleDeadline : Int
  hardDeadline : Int
  written : List Message := []
  /-- The ids of the requests read so far: kept to be told about, read by nothing. -/
  asked : List String := []

def LoopState.answered (st : LoopState) : List String := st.written.filterMap Message.answers

inductive RunStatus where
  | succeeded | failed | cancelled
  deriving DecidableEq

/-- `BridgeResult`, and whether the bridge killed the process on the way to it. -/
structure BridgeResult where
  status : RunStatus
  stdout : String
  stderr : String
  sessionId : String
  killed : Bool

/-- `_LoopStep`, or what a turn raised. -/
inductive LoopStep where
  | again (st : LoopState)
  | leave (st : LoopState)
  | result (st : LoopState) (r : BridgeResult)
  | raised (st : LoopState) (error : String)

structure Turn where
  idleReading : Int := 0
  hardReading : Int := 0
  exited : Bool := false
  cancelRequested : Bool := false
  steer : List String := []
  approvalReading : Int := 0
  resolution : Option ApprovalResolution := none
  line : Option String := none
  lineReading : Int := 0
  decision : Decision := .askPerson
  remainingReading : Int := 0
  sinceReading : Int := 0

/-- `"\n".join(state.stdout_lines)`. -/
def LoopState.stdout (st : LoopState) : String := "\n".intercalate st.stdoutLines

def LoopState.resultOf (st : LoopState) (status : RunStatus) (stderr : String) (killed : Bool) :
    BridgeResult :=
  ⟨status, st.stdout, stderr, st.sessionId, killed⟩

def agentTimeoutMessage (seconds : Int) : String :=
  "Agent timed out after " ++ toString seconds ++ "s"

def askUserQuestionTool : String := "AskUserQuestion"

/-! ## One turn -/

variable (config : Config)

/-- A line is read: the idle deadline moves, and the line is kept. -/
def LoopState.readLine (st : LoopState) (line : String) (now : Int) : LoopState :=
  { st with
    idleDeadline := now + config.timeoutSeconds
    stdoutLines := st.stdoutLines ++ [line] }

/-- The id a request is answered under: its own, or one for the line it has none on. -/
def LoopState.requestId (st : LoopState) (request : PermissionRequest) : String :=
  if request.requestId = "" then "perm_" ++ toString st.stdoutLines.length else request.requestId

def LoopState.ask (st : LoopState) (request : PermissionRequest) : LoopState :=
  { st with asked := st.asked ++ [st.requestId request] }

def LoopState.write (st : LoopState) (message : Message) : LoopState :=
  { st with written := st.written ++ [message] }

/-- The session id a payload names, or the one there is. -/
def LoopState.withSession (st : LoopState) (payload : Dict) : LoopState :=
  { st with sessionId := pyStr render ((payload.get "session_id").orElse (.str st.sessionId)) }

def LoopState.noteInit (st : LoopState) (payload : Dict) : LoopState :=
  if (payload.get "type").isIn ["system"] ∧ (payload.get "subtype").isIn ["init"] then
    st.withSession render payload
  else st

def LoopState.finish (st : LoopState) (payload : Dict) (failed : Bool) : LoopState :=
  { st.withSession render payload with finishedWithResult := true, resultIsError := failed }

def requestOf (payload : Dict) : Option PermissionRequest :=
  match extractPermissionRequest render payload with
  | .ok request => request
  | .error _ => none

/-- `_continue_while_awaiting`: it looks for a result and not for a request. -/
def continueWhileAwaiting (st : LoopState) (t : Turn) : LoopStep :=
  match t.line with
  | none => .again st
  | some raw =>
    let line := chomp raw
    let st := st.readLine config line t.lineReading
    match parseLine loads line with
    | none => .again st
    | some payload =>
      let status := resultPayloadStatus payload
      if status.1 ∧ st.pending.isNone then .leave (st.finish render payload status.2)
      else
        match requestOf render payload with
        -- the request is only counted here: the bridge does not see it
        | some request => .again (st.ask request)
        | none => .again st

def handlePendingApproval (st : LoopState) (pending : Pending) (t : Turn) : LoopStep :=
  if t.approvalReading > st.approvalDeadline then
    .result st (st.resultOf .failed "Timed out waiting for approval" true)
  else
    match t.resolution with
    | none => continueWhileAwaiting loads render config st t
    | some resolution =>
      let allowInput :=
        match resolution.updatedInput with
        | some (field :: fields) => some (field :: fields)
        | other => if resolution.approved then some pending.toolInput else other
      let st := { st with pending := none }.write (buildControlResponse pending.requestId
        resolution.approved
        (if resolution.message = "" then "Rejected in Loregarden approval inbox"
          else resolution.message)
        (if resolution.approved then allowInput else none))
      -- `_fail_after_rejection` kills the process
      if !resolution.approved then
        .result st (st.resultOf .failed "Permission denied via Loregarden inbox" true)
      else .again st

/-- Whether `_create_question_approval` gets past `questions[0]` and `len(questions)`. -/
def questionsRead (toolInput : Json) : Bool :=
  match toolInput with
  | .obj fields =>
    match Dict.get fields "questions" with
    | .arr _ | .str _ => true
    | .obj fields => fields.isEmpty
    | _ => false
  | _ => true

/-- The approval is made, and from then on the loop waits for it. -/
def awaitPerson (st : LoopState) (request : PermissionRequest) (requestId : String) (t : Turn) :
    LoopStep :=
  if request.toolName = askUserQuestionTool ∧ !questionsRead request.toolInput then
    .raised st "TypeError"
  else
    let remaining := min st.idleDeadline st.hardDeadline - t.remainingReading
    if remaining ≤ 0 then
      .result st (st.resultOf .failed (agentTimeoutMessage config.timeoutSeconds) true)
    else
      .again { st with
        pending := some ⟨requestId, request.toolName, request.toolInput.dict⟩
        approvalDeadline := t.sinceReading + min remaining config.approvalTimeoutSeconds }

/-- A permission request: out of scope, answered by a rule, or asked of a person. -/
def handleRequest (st : LoopState) (request : PermissionRequest) (t : Turn) : LoopStep :=
  let requestId := st.requestId request
  let st := st.ask request
  match t.decision with
  | .outOfScope denial =>
    let st := st.write (buildControlResponse requestId false denial none)
    .result st (st.resultOf .failed denial true)
  | .fast answer => .again (st.write (answer.response requestId))
  | .raised error => .raised st error
  | .askPerson => awaitPerson config st request requestId t

def handleNextLine (st : LoopState) (t : Turn) : LoopStep :=
  match t.line with
  | none => .again st
  | some raw =>
    let line := chomp raw
    let st := st.readLine config line t.lineReading
    match parseLine loads line with
    | none => .again st
    | some payload =>
      let st := st.noteInit render payload
      let status := resultPayloadStatus payload
      if status.1 ∧ st.pending.isNone then .leave (st.finish render payload status.2)
      else
        match extractPermissionRequest render payload with
        | .error error => .raised st error
        | .ok none => .again st
        | .ok (some request) => handleRequest config st request t

def deliverSteerMessages (st : LoopState) (t : Turn) : LoopState :=
  t.steer.foldl (fun st content => st.write (.user content st.sessionId)) st

def turn (st : LoopState) (t : Turn) : LoopStep :=
  if t.idleReading ≥ st.idleDeadline ∨ t.hardReading ≥ st.hardDeadline then .leave st
  else if t.exited then .leave st
  else if t.cancelRequested then .result st (st.resultOf .cancelled "Cancelled by operator" true)
  else
    let st := deliverSteerMessages st t
    match st.pending with
    | some pending => handlePendingApproval loads render config st pending t
    | none =>
      if st.finishedWithResult then .leave st else handleNextLine loads render config st t

/-- What `_finalize` meets: the lines of the drain, how the process had ended by its poll, the
    clock, how the process ended while it was waited for, and what was on stderr. -/
structure Finish where
  drained : List String := []
  exited : Option Int := none
  reading : Int := 0
  waited : Option Int := none
  stderr : String := ""

/-- `_finalize`, once the process has ended with a code. -/
def finalStatus (st : LoopState) (code : Int) : RunStatus :=
  if st.finishedWithResult then
    if st.resultIsError then .failed else .succeeded
  else if code = 0 then .succeeded else .failed

def finalize (st : LoopState) (f : Finish) : LoopState × BridgeResult :=
  let st := if st.finishedWithResult then
    { st with stdoutLines := st.stdoutLines ++ f.drained.map chomp } else st
  let timedOut := st.resultOf .failed (agentTimeoutMessage config.timeoutSeconds) true
  match f.exited with
  | some code => (st, st.resultOf (finalStatus st code) f.stderr false)
  | none =>
    if min st.idleDeadline st.hardDeadline - f.reading ≤ 0 then (st, timedOut)
    else
      match f.waited with
      | none => (st, timedOut)
      | some code => (st, st.resultOf (finalStatus st code) f.stderr false)

inductive Progress where
  | running (st : LoopState)
  | ended (st : LoopState) (r : BridgeResult)
  | raised (st : LoopState) (error : String)

/-- The loop of `run`, over the turns it has made. -/
def loop (f : Finish) (st : LoopState) : List Turn → Progress
  | [] => .running st
  | t :: turns =>
    match turn loads render config st t with
    | .again st' => loop f st' turns
    | .leave st' => .ended (finalize config st' f).1 (finalize config st' f).2
    | .result st' r => .ended st' r
    | .raised st' error => .raised st' error

/-- The state of the loop when the process was given its prompt. -/
def started (sessionId : String) (now : Int) (prompt : String) : LoopState where
  sessionId := sessionId
  idleDeadline := now + config.timeoutSeconds
  -- `TIMEOUT_HARD_CAP_MULTIPLIER`
  hardDeadline := now + config.timeoutSeconds * 4
  written := [.user prompt sessionId]

def run (f : Finish) (sessionId : String) (now : Int) (prompt : String) (turns : List Turn) :
    Progress :=
  loop loads render config f (started config sessionId now prompt) turns

end Loregarden.Bridge
