import Mathlib.Data.List.Basic

/-! # Relaying an action to an open tab

`ui_action_broker.py` on its event loop. A tab and a request are numbered as they come, so no two
tabs share an id; a request's entry in `_pending`, its future and where its `invoke` awaits stand in
one row. A send may take any time, raise, or never end; a timer fires when it is due, and a task
that is ready runs before the clock moves on. `invoke_from_thread` comes in as an `invoke`. What a
tab replied, and whether it closed first, is recorded beside the row and read by nothing. -/

namespace Loregarden.UiBroker

abbrev TabId := Nat
abbrev RequestId := Nat
abbrev Time := Nat
abbrev UiAction := String
abbrev Payload := String

inductive UiActionFailure where
  | unknownAction | invalidArguments | humanOnly | noTab | notAvailable | timeout | tabClosed
  | tabError
  deriving DecidableEq

structure UiActionOutcome where
  ok : Bool
  action : UiAction
  tabId : Option TabId := none
  result : Option Payload := none
  failure : Option UiActionFailure := none
  message : String := ""
  deriving DecidableEq

def UiActionOutcome.failed (action : UiAction) (failure : UiActionFailure) (message : String)
    (tabId : Option TabId) : UiActionOutcome :=
  { ok := false, action := action, failure := some failure, message := message, tabId := tabId }

structure Tab where
  /-- It is in `_tabs`. -/
  connected : Bool := true
  available : List UiAction := []
  visible : Bool := true
  focusedAt : Time := 0
  pending : List RequestId := []

inductive Future where
  | unset
  | done (outcome : UiActionOutcome)
  | cancelled
  deriving DecidableEq

/-- Where the `invoke` of a request stands. -/
inductive Phase where
  /-- It awaits `tab.send`. -/
  | sending
  /-- It awaits the future; whether the timer has fired. -/
  | waiting (deadline : Time) (expired : Bool)
  | returned (outcome : UiActionOutcome)
  | raised
  deriving DecidableEq

structure Call where
  tab : TabId
  action : UiAction
  timeout : Time
  started : Time
  /-- Its entry is in `_pending`. -/
  entry : Bool := true
  future : Future := .unset
  phase : Phase := .sending
  ended : Time := 0
  /-- Its tab has replied to it; and has replied ok. -/
  answered : Bool := false
  answeredOk : Bool := false
  timedOut : Bool := false
  /-- Its tab disconnected before it replied and before the timer. -/
  closedFirst : Bool := false

def Call.inFlight (c : Call) : Bool :=
  match c.phase with
  | .sending | .waiting .. => true
  | .returned _ | .raised => false

structure Broker where
  now : Time := 0
  tabs : List Tab := []
  calls : List Call := []
  /-- The outcomes of the calls that found no tab to ask. -/
  atOnce : List UiActionOutcome := []
  /-- `CATALOG[action].offered`. -/
  offered : UiAction → String := fun _ => ""

namespace Broker

variable (b : Broker)

/-! ## The tab's side -/

def connect : Broker := { b with tabs := b.tabs ++ [{ focusedAt := b.now }] }

def tabClosed (tabId : TabId) : UiActionOutcome :=
  .failed "" .tabClosed "the tab closed before it answered; the action may or may not have run"
    (some tabId)

/-- `future.set_result`, of a future that is not done. -/
def settle (outcome : UiActionOutcome) : Future → Future
  | .unset => .done outcome
  | future => future

/-- What `disconnect` does to a request of the tab's own set. -/
def closeCall (tabId : TabId) (c : Call) : Call :=
  if c.entry then { c with entry := false, future := settle (tabClosed tabId) c.future } else c

/-- The record that a tab has closed before anything ended its request. -/
def noteClosed (tabId : TabId) (c : Call) : Call :=
  if c.tab = tabId ∧ c.inFlight ∧ !c.answered ∧ !c.timedOut then { c with closedFirst := true }
  else c

def disconnect (tabId : TabId) : Broker :=
  match b.tabs[tabId]? with
  | none => b
  | some tab =>
    if tab.connected then
      { b with
        tabs := b.tabs.modify tabId fun t => { t with connected := false }
        calls := b.calls.mapIdx fun i c =>
          noteClosed tabId (if i ∈ tab.pending then closeCall tabId c else c) }
    else b

def whereConnected (change : Tab → Tab) (t : Tab) : Tab := if t.connected then change t else t

def register (tabId : TabId) (available : List UiAction) : Broker :=
  { b with tabs := b.tabs.modify tabId (whereConnected fun t => { t with available := available }) }

def focus (tabId : TabId) (visible : Bool) : Broker :=
  { b with
    tabs := b.tabs.modify tabId (whereConnected fun t =>
      { t with visible := visible, focusedAt := if visible then b.now else t.focusedAt }) }

def noteReply (ok : Bool) (c : Call) : Call :=
  { c with answered := true, answeredOk := c.answeredOk || ok }

def replied (tabId : TabId) (ok : Bool) (result : Payload) (error : String) : UiActionOutcome :=
  if ok then { ok := true, action := "", tabId := some tabId, result := some result }
  else
    .failed "" .tabError (if error = "" then "the tab reported a failure" else error) (some tabId)

def resolve (tabId : TabId) (requestId : RequestId) (ok : Bool) (result : Payload)
    (error : String) : Broker :=
  match b.calls[requestId]? with
  | none => b
  | some call =>
    if call.tab ≠ tabId then b
    else if !call.entry then { b with calls := b.calls.modify requestId (noteReply ok) }
    else
      { b with
        calls := b.calls.modify requestId fun c =>
          { noteReply ok c with
            entry := false
            future := settle (replied tabId ok result error) c.future }
        tabs := b.tabs.modify tabId (whereConnected fun t =>
          { t with pending := t.pending.filter (· ≠ requestId) }) }

/-! ## The agent's side -/

/-- `(visible, focused_at)` of one tab is below another's. -/
def below (s t : Tab) : Bool :=
  (!s.visible && t.visible) || (s.visible == t.visible && s.focusedAt < t.focusedAt)

/-- The open tabs that offer an action, each with its id. -/
def offering (action : UiAction) : List (Tab × TabId) :=
  b.tabs.zipIdx.filter fun row => row.1.connected ∧ action ∈ row.1.available

/-- `max`, which keeps the first of equals. -/
def mostLikely (first : Tab × TabId) (others : List (Tab × TabId)) : Tab × TabId :=
  others.foldl (fun best row => if below best.1 row.1 then row else best) first

def noTabMessage : String :=
  "no Loregarden tab is connected to this server. Open the app in a browser or the " ++
    "desktop app. (The loregarden CLI runs outside the server and never sees one — call " ++
    "this through the server's MCP endpoint.)"

def notAvailableMessage (action : UiAction) : String :=
  s!"no open tab can perform {action} right now; it is offered {b.offered action}"

/-- The part of `invoke` before its first await. -/
def invoke (action : UiAction) (timeout : Time) : Broker :=
  if b.tabs.all (fun t => !t.connected) then
    { b with atOnce := b.atOnce ++ [.failed action .noTab noTabMessage none] }
  else
    match b.offering action with
    | [] => { b with atOnce := b.atOnce ++
        [.failed action .notAvailable (b.notAvailableMessage action) none] }
    | first :: others =>
      let tabId := (mostLikely first others).2
      { b with
        calls := b.calls ++
          [{ tab := tabId, action := action, timeout := timeout, started := b.now }]
        tabs := b.tabs.modify tabId fun t =>
          { t with pending := t.pending ++ [b.calls.length] } }

/-- The end of `invoke`, its `finally` included. -/
def finish (requestId : RequestId) (phase : Phase) : Broker :=
  match b.calls[requestId]? with
  | none => b
  | some call =>
    { b with
      calls := b.calls.modify requestId fun c =>
        { c with entry := false, phase := phase, ended := b.now }
      tabs := b.tabs.modify call.tab fun t =>
        { t with pending := t.pending.filter (· ≠ requestId) } }

def timeoutOutcome (c : Call) : UiActionOutcome :=
  .failed c.action .timeout
    s!"the tab did not answer within {c.timeout}s; the action may or may not have run" (some c.tab)

/-- The send of a request's frame is over, and `wait_for` starts its timer. -/
def sendDone (requestId : RequestId) : Option Broker :=
  match b.calls[requestId]? with
  | none => none
  | some call =>
    match call.phase with
    | .sending => some { b with
        calls := b.calls.modify requestId fun c =>
          { c with phase := .waiting (b.now + c.timeout) false } }
    | _ => none

/-- The send raises; only a `TimeoutError` is caught. -/
def sendRaises (requestId : RequestId) (timeoutError : Bool) : Option Broker :=
  match b.calls[requestId]? with
  | none => none
  | some call =>
    match call.phase with
    | .sending =>
      some (b.finish requestId
        (if timeoutError then .returned (timeoutOutcome call) else .raised))
    | _ => none

/-- The timer of a request fires. On a future that is done and not yet read it wins or does not, by
    the version of `wait_for`. -/
def timer (lateWins : Bool) (requestId : RequestId) : Option Broker :=
  match b.calls[requestId]? with
  | none => none
  | some call =>
    match call.phase with
    | .waiting deadline false =>
      if b.now < deadline then none
      else if call.future = .unset then
        some { b with
          calls := b.calls.modify requestId fun c =>
            { c with future := .cancelled, phase := .waiting deadline true, timedOut := true } }
      else if lateWins then
        some { b with
          calls := b.calls.modify requestId fun c =>
            { c with phase := .waiting deadline true, timedOut := true } }
      else none
    | _ => none

def woken (c : Call) : Option UiActionOutcome :=
  match c.phase with
  | .waiting _ true => some (timeoutOutcome c)
  | .waiting _ false =>
    match c.future with
    | .done outcome => some { outcome with action := c.action }
    | _ => none
  | _ => none

/-- The task of a request that is ready runs to its end. -/
def wake (requestId : RequestId) : Option Broker :=
  (b.calls[requestId]?.bind woken).map fun outcome => b.finish requestId (.returned outcome)

/-- Whether the clock may move on: nothing is ready, and no timer is due before. -/
def lets (span : Time) (c : Call) : Bool :=
  (woken c).isNone &&
    match c.phase with
    | .waiting deadline _ => b.now + span ≤ deadline
    | _ => true

def tick (span : Time) : Option Broker :=
  if b.calls.all (b.lets span) then some { b with now := b.now + span } else none

end Broker

inductive Event where
  | connect
  | disconnect (tabId : TabId)
  | register (tabId : TabId) (available : List UiAction)
  | focus (tabId : TabId) (visible : Bool)
  | resolve (tabId : TabId) (requestId : RequestId) (ok : Bool) (result : Payload) (error : String)
  | invoke (action : UiAction) (timeout : Time)
  | sendDone (requestId : RequestId)
  | sendRaises (requestId : RequestId) (timeoutError : Bool)
  | timer (requestId : RequestId)
  | wake (requestId : RequestId)
  | tick (span : Time)

def Broker.after (lateWins : Bool) (b : Broker) : Event → Option Broker
  | .connect => some b.connect
  | .disconnect tabId => some (b.disconnect tabId)
  | .register tabId available => some (b.register tabId available)
  | .focus tabId visible => some (b.focus tabId visible)
  | .resolve tabId requestId ok result error => some (b.resolve tabId requestId ok result error)
  | .invoke action timeout => some (b.invoke action timeout)
  | .sendDone requestId => b.sendDone requestId
  | .sendRaises requestId timeoutError => b.sendRaises requestId timeoutError
  | .timer requestId => b.timer lateWins requestId
  | .wake requestId => b.wake requestId
  | .tick span => b.tick span

def Steps (lateWins : Bool) (b : Broker) (event : Event) (b' : Broker) : Prop :=
  b.after lateWins event = some b'

end Loregarden.UiBroker
