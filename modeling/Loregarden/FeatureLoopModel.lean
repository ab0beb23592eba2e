import Loregarden.PythonText

/-! # Feature loops: chats that feed one ticket criteria

`propose_criteria`, `add_criterion`, `decide_criteria` and `advance_feature_loop` over one ticket
and the chats bound to it. What a call does up to one of its commits is one step; a requeue's later
commits write nothing that is read here. The stored criteria are the list they hold, normalised as
every writer leaves it. How admission answers a start, and what the ticket's workflow does, come
with the events; messages, times and the cards are left out.

`log` is no table: it records what happened in which order. -/

namespace Loregarden.FeatureLoop

open Text

abbrev ChatId := Nat

abbrev Str := List Char

scoped instance lawfulStr : LawfulBEq Str := inferInstance

def maxAcceptanceCriteria : Nat := 12

inductive TicketState where
  | backlog
  | inProgress
  | blocked
  | parked
  | done
  | wontDo
  deriving DecidableEq

/-- What `activity_for` answers: `running` is every kind of live work, `queued` a place in a
    lane. -/
inductive TicketActivity where
  | idle
  | queued
  | running
  deriving DecidableEq

inductive FeatureCriterionStatus where
  | proposed
  | queued
  | inRound
  | met
  | rejected
  deriving DecidableEq

/-- A row of `feature_criteria`. -/
structure FeatureCriterion where
  chat : ChatId
  text : Str
  status : FeatureCriterionStatus := .proposed
  round : Nat := 0

inductive Mark where
  /-- A text was put on the ticket, which was done before that or was not. -/
  | put (text : Str) (wasDone : Bool)
  /-- The first stage was requeued. -/
  | requeued
  /-- A round's rows were marked. -/
  | round
  /-- A round asked for its workflow. -/
  | asked
  /-- The workflow started. -/
  | started
  | ended (state : TicketState)
  /-- A round's criteria were refused for the cap. -/
  | refused
  deriving DecidableEq

/-- Where an `advance_feature_loop` stands. -/
inductive Stage where
  | begun (chat : ChatId)
  /-- It has settled a finished round and goes on with the rows it read. -/
  | settled (rows : List Nat)
  /-- The ticket is written and reopened; its first stage is to be requeued. -/
  | reopened (queued : List Nat) (round : Nat)
  /-- The rows are to be marked. -/
  | ready (queued : List Nat) (round : Nat)
  /-- The workflow is to be started. -/
  | marked
  | returned

structure World where
  criteria : List Str
  state : TicketState
  activity : TicketActivity
  rows : List FeatureCriterion := []
  calls : List Stage := []
  log : List Mark := []

def normalizeCriteria (criteria : List Str) : List Str :=
  (criteria.map (strip isSpace)).filter (· ≠ [])

/-- `merge_criteria` in its append mode. -/
def mergeCriteria : List Str → List Str → List Str
  | existing, [] => existing
  | existing, text :: rest =>
    if text ∈ existing then mergeCriteria existing rest
    else mergeCriteria (existing ++ [text]) rest

def wouldGrowPast (before after cap : Nat) : Bool := cap < after && before < after

namespace World

variable (w : World)

/-- The rows of a chat, in the order they were created. -/
def rowsOf (chat : ChatId) : List Nat :=
  (List.range w.rows.length).filter fun i => (w.rows[i]?).any fun row => row.chat = chat

def having (ids : List Nat) (status : FeatureCriterionStatus) : List Nat :=
  ids.filter fun i => (w.rows[i]?).any fun row => row.status = status

def textsOf (ids : List Nat) : List Str := ids.filterMap fun i => (w.rows[i]?).map (·.text)

def knownTexts (chat : ChatId) : List Str :=
  w.criteria ++ (w.rows.filter fun row => row.chat = chat ∧ row.status ≠ .rejected).map (·.text)

def checkCapacity (queued adding : Nat) : Bool :=
  !wouldGrowPast w.criteria.length (w.criteria.length + queued + adding) maxAcceptanceCriteria

def queuedOf (chat : ChatId) : Nat := (w.having (w.rowsOf chat) .queued).length

/-- `propose_criteria`. -/
def propose (chat : ChatId) (texts : List Str) : World :=
  let fresh := (normalizeCriteria texts).eraseDups.filter fun text => text ∉ w.knownTexts chat
  { w with rows := w.rows ++ fresh.map fun text => { chat := chat, text := text } }

/-- `add_criterion`. -/
def add (chat : ChatId) (text : Str) : World :=
  match normalizeCriteria [text] with
  | [] => w
  | clean :: _ =>
    if clean ∈ w.knownTexts chat then w
    else if w.checkCapacity (w.queuedOf chat) 1 then
      { w with rows := w.rows ++ [{ chat := chat, text := clean, status := .queued }] }
    else w

def writeRows (ids : List Nat) (f : FeatureCriterion → FeatureCriterion) : World :=
  { w with rows := w.rows.mapIdx fun i row => if i ∈ ids then f row else row }

def decideCriteria (chat : ChatId) (ids : List Nat) (accept : Bool) : World :=
  if ids.all (fun i => i ∈ w.having (w.rowsOf chat) .proposed) then
    if accept then
      if w.checkCapacity (w.queuedOf chat) ids.eraseDups.length then
        w.writeRows ids fun row => { row with status := .queued }
      else w
    else w.writeRows ids fun row => { row with status := .rejected }
  else w

/-- Whether `assess` finds the loop idle. -/
def assessIdle (rows : List Nat) : Bool :=
  w.activity = .idle && w.state ≠ .blocked &&
    (w.having rows .inRound = [] || w.state = .done)

/-- The texts a merge puts on a list that lacks them. -/
def put (texts : List Str) : List Str := (mergeCriteria w.criteria texts).drop w.criteria.length

/-- The first commit of `_start_round`, with the step that is next. -/
def startRound (rows : List Nat) : World × Stage :=
  let queued := w.having rows .queued
  let round := (rows.filterMap fun i => (w.rows[i]?).map (·.round)).foldr max 0 + 1
  let merged := mergeCriteria w.criteria (w.textsOf queued)
  if wouldGrowPast w.criteria.length merged.length maxAcceptanceCriteria then
    ({ w with log := w.log ++ [.refused] }, .returned)
  else
    let reopen := w.state = .done
    ({ w with
        criteria := merged
        state := if reopen then .backlog else w.state
        log := w.log ++ (w.put (w.textsOf queued)).map fun text => .put text reopen },
      if reopen then .reopened queued round else .ready queued round)

/-- What is behind the settling of `advance_feature_loop`. -/
def goOn (rows : List Nat) : World × Stage :=
  if !w.assessIdle rows || w.having rows .queued = [] then (w, .returned) else w.startRound rows

def settle (chat : ChatId) : World :=
  w.writeRows (w.having (w.rowsOf chat) .inRound) fun row => { row with status := .met }

structure Outcome where
  /-- The requeue goes through. -/
  requeues : Bool
  /-- How admission answers: none where the start is refused. -/
  start : Option TicketActivity

def advance (stage : Stage) (outcome : Outcome) : World × Stage :=
  match stage with
  | .begun chat =>
    if w.activity = .idle ∧ w.state = .done ∧ w.having (w.rowsOf chat) .inRound ≠ [] then
      (w.settle chat, .settled (w.rowsOf chat))
    else w.goOn (w.rowsOf chat)
  | .settled rows => w.goOn rows
  | .reopened queued round =>
    if outcome.requeues then ({ w with log := w.log ++ [.requeued] }, .ready queued round)
    else (w, .returned)
  | .ready queued round =>
    ({ w.writeRows queued (fun row => { row with status := .inRound, round := round }) with
        log := w.log ++ [.round] },
      .marked)
  | .marked =>
    match outcome.start with
    | none => (w, .returned)
    | some .running =>
      ({ w with activity := .running, log := w.log ++ [.asked, .started] }, .returned)
    | some activity =>
      ({ w with activity := activity, log := w.log ++ [.asked] }, .returned)
  | .returned => (w, .returned)

end World

inductive Event where
  | propose (chat : ChatId) (texts : List Str)
  | add (chat : ChatId) (text : Str)
  | decideCriteria (chat : ChatId) (ids : List Nat) (accept : Bool)
  /-- `advance_feature_loop` is called, by a request or by the timer. -/
  | call (chat : ChatId)
  | step (call : Nat) (outcome : World.Outcome)
  /-- The process stops. -/
  | stop
  /-- A lane starts the workflow that waits in it. -/
  | laneStarts
  /-- The place in the lane is given up. -/
  | laneDrops
  /-- Somebody starts the ticket's workflow on the board. -/
  | boardStarts
  /-- The workflow ends, and leaves the ticket in a state. -/
  | ends (state : TicketState)

namespace World

def after (w : World) : Event → World
  | .propose chat texts => w.propose chat texts
  | .add chat text => w.add chat text
  | .decideCriteria chat ids accept => w.decideCriteria chat ids accept
  | .call chat => { w with calls := w.calls ++ [.begun chat] }
  | .step call outcome =>
    match w.calls[call]? with
    | none => w
    | some stage =>
      { (w.advance stage outcome).1 with
        calls := w.calls.set call (w.advance stage outcome).2 }
  | .stop => { w with calls := [] }
  | .laneStarts =>
    if w.activity = .queued then { w with activity := .running, log := w.log ++ [.started] }
    else w
  | .laneDrops => if w.activity = .queued then { w with activity := .idle } else w
  | .boardStarts =>
    if w.activity = .idle then { w with activity := .running, log := w.log ++ [.started] }
    else w
  | .ends state =>
    if w.activity = .running then
      { w with activity := .idle, state := state, log := w.log ++ [.ended state] }
    else w

end World

end Loregarden.FeatureLoop
