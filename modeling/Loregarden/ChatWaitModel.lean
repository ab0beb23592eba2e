import Loregarden.IssueSyncModel
import Loregarden.RunProofs
import Loregarden.WorktreeModel

/-! # Chat waits

`chat_wait.py` and `chat_wait_watch.py`: a turn that leaves work running in the background records a
wait, and a poll ends it with a continuation run or a system message. A poll lists the outstanding
waits and handles one after the other; each of its commits is a step, and so are a cancel's read and
its commit. The server may stop between any two. What a process reading answers, and whether the
thread is still there, is given with the step. -/

namespace Loregarden.ChatWaits

open IssueSync (stripped)
open Worktrees (ProcessState)

/-- `ChatSurface`, those that can wait. -/
inductive ChatSurface where
  | home | ticketTriage | branchTriage
  deriving DecidableEq

structure Thread where
  surface : ChatSurface
  key : String
  deriving DecidableEq

inductive ChatWaitStatus where
  | outstanding | continued | cancelled | timedOut | capped | interrupted
  deriving DecidableEq

inductive ChatWaitRefuseReason where
  | notAlive | sameSession | alreadyWaiting | noInFlightTurn | missingLogPath | missingCommand
  | invalidLocator

inductive ChatWaitUnknownPolicy where
  | skip | interrupt
  deriving DecidableEq

/-- `MAX_CHAT_WAIT_CONTINUATIONS`. -/
def maxContinuations : Nat := 3

def waitCeilingSeconds : Nat := 7200

structure ChatWait where
  thread : Thread
  origin : Nat
  pidIdentity : String
  command : String
  logPath : String
  deadline : Nat
  status : ChatWaitStatus := .outstanding
  continuedIndex : Option Nat := none
  exitCode : Option Int := none
  logTail : Option String := none
  continuationRun : Option Nat := none

abbrev NewWait := { wait : ChatWait // wait.status = .outstanding }

/-- A run of a thread; `continues` is the wait it was started for, kept to be told about. -/
structure AgentRun where
  thread : Thread
  inFlight : Bool := true
  continues : Option Nat := none

/-- A system message; `wait` is the wait it ends, kept to be told about. -/
structure Message where
  thread : Thread
  content : String
  wait : Nat

def stopCopy (wait : ChatWait) : String :=
  "Stopped waiting for " ++ wait.command ++ " at your request. " ++
    "The process was not killed — ask again, or watch " ++ wait.logPath ++ "."

def timeoutCopy (wait : ChatWait) : String :=
  "Gave up waiting for " ++ wait.command ++ " after 2 hours. " ++
    "The process was not killed — ask again, or watch " ++ wait.logPath ++ "."

def capCopy (wait : ChatWait) : String :=
  "This thread has already continued " ++ toString maxContinuations ++ " times " ++
    "from background work. " ++ wait.command ++ " finished but another turn was not started " ++
    "— ask again, or watch " ++ wait.logPath ++ "."

def bootUnknownCopy (wait : ChatWait) : String :=
  "Lost track of " ++ wait.command ++ " after a server restart. " ++
    "It may still be running — ask again, or watch " ++ wait.logPath ++ "."

/-! ## State -/

structure Poll where
  rest : List Nat
  onUnknown : ChatWaitUnknownPolicy
  now : Nat

inductive Phase where
  | idle
  | registering (wait : NewWait)
  | cancelling (wait : Nat)
  | polling (poll : Poll)
  /-- The exit code and the log's tail are stored. -/
  | logged (wait : Nat) (poll : Poll)
  /-- The continuation's run is stored. -/
  | minted (wait run index : Nat) (poll : Poll)
  /-- The run is bound to the wait. -/
  | attached (wait index : Nat) (poll : Poll)

structure World where
  waits : List ChatWait := []
  runs : List AgentRun := []
  messages : List Message := []
  calls : Nat → Phase := fun _ => .idle

def World.setCall (w : World) (p : Nat) (phase : Phase) : World :=
  { w with calls := Function.update w.calls p phase }

def outstandingFor (w : World) (thread : Thread) : Option Nat :=
  w.waits.findIdx? fun wait => wait.thread = thread ∧ wait.status = .outstanding

def continuedCount (w : World) (thread : Thread) : Nat :=
  w.waits.countP fun wait => wait.thread = thread ∧ wait.status = .continued

/-- What `register` is called with, and what it reads of the process and the thread's turn. -/
structure Registration where
  command : String
  logPath : String
  ticketId : Option String := none
  chatSessionId : Option String := none
  workspaceSlug : Option String := none
  branch : Option String := none
  origin : Option Nat
  state : ProcessState
  stamp : String
  detached : Bool
  now : Nat

/-- A locator as `register` reads it: the empty text is none. -/
def located (locator : Option String) : Option String := (locator.map stripped).filter (· ≠ "")

/-- `_locator_family`, with the `thread_key` of the family. -/
def locate (ticketId chatSessionId workspaceSlug branch : Option String) : Option Thread :=
  match ticketId, chatSessionId, workspaceSlug, branch with
  | some ticket, none, none, none => some ⟨.ticketTriage, ticket⟩
  | none, some chat, none, none => some ⟨.home, chat⟩
  | none, none, some slug, some branch => some ⟨.branchTriage, slug ++ "\x1f" ++ branch⟩
  | _, _, _, _ => none

/-- `register`, up to its commit. -/
def register (w : World) (r : Registration) : Except ChatWaitRefuseReason NewWait :=
  if stripped r.command = "" then .error .missingCommand
  else if stripped r.logPath = "" then .error .missingLogPath
  else
    match locate (located r.ticketId) (located r.chatSessionId) (located r.workspaceSlug)
        (located r.branch) with
    | none => .error .invalidLocator
    | some thread =>
      match r.origin with
      | none => .error .noInFlightTurn
      | some origin =>
        if (outstandingFor w thread).isSome then .error .alreadyWaiting
        else if r.state ≠ .alive ∨ r.stamp = "" then .error .notAlive
        else if ¬ r.detached then .error .sameSession
        else
          .ok
            ⟨{ thread := thread, origin := origin, pidIdentity := r.stamp,
               command := stripped r.command, logPath := stripped r.logPath,
               deadline := r.now + waitCeilingSeconds }, rfl⟩

/-- Its commit; the index takes one outstanding wait of a thread. -/
def insert (w : World) (p : Nat) (wait : NewWait) : World :=
  if (outstandingFor w wait.val.thread).isSome then w.setCall p .idle
  else { w.setCall p .idle with waits := w.waits ++ [wait.val] }

/-- `persist_system_message`: a branch's message needs its workspace. -/
def systemMessage (w : World) (i : Nat) (copy : ChatWait → String) (there : Bool) : List Message :=
  match w.waits[i]? with
  | none => []
  | some wait =>
    if wait.thread.surface = .branchTriage ∧ ¬ there then []
    else [{ thread := wait.thread, content := copy wait, wait := i }]

/-- `settle_wait` with a message: the call that made it goes on to `phase`. -/
def settleWait (w : World) (p i : Nat) (status : ChatWaitStatus) (copy : ChatWait → String)
    (there : Bool) (phase : Phase) : World :=
  { w.setCall p phase with
    waits := w.waits.modify i fun wait => { wait with status := status }
    messages := w.messages ++ systemMessage w i copy there }

/-! ## Polling -/

inductive Handling where
  | leave
  | settle (status : ChatWaitStatus) (copy : ChatWait → String)
  | goOn

/-- Where the process is gone: the first part of `_continue_or_cap`. -/
def continueOrCap (w : World) (wait : ChatWait) : Handling :=
  if (w.runs[wait.origin]?).any (·.inFlight) then .leave
  else if maxContinuations ≤ continuedCount w wait.thread then .settle .capped capCopy
  else .goOn

def handleWait (w : World) (wait : ChatWait) (poll : Poll) (state : ProcessState) : Handling :=
  let late := if wait.deadline ≤ poll.now then Handling.settle .timedOut timeoutCopy else .leave
  let lost :=
    if poll.onUnknown = .interrupt then Handling.settle .interrupted bootUnknownCopy else late
  if wait.pidIdentity = "" then lost
  else
    match state with
    | .alive => late
    | .gone => continueOrCap w wait
    | .unknown => lost

def handle (w : World) (p : Nat) (state : ProcessState) (there : Bool) (exitCode : Option Int)
    (logTail : String) : World :=
  match w.calls p with
  | .polling poll =>
    match poll.rest with
    | [] => w.setCall p .idle
    | i :: rest =>
      let poll := { poll with rest := rest }
      match w.waits[i]? with
      | none => w.setCall p (.polling poll)
      | some wait =>
        match handleWait w wait poll state with
        | .leave => w.setCall p (.polling poll)
        | .settle status copy => settleWait w p i status copy there (.polling poll)
        | .goOn =>
          { w.setCall p (.logged i poll) with
            waits := w.waits.modify i fun wait =>
              { wait with exitCode := exitCode, logTail := some logTail } }
  | _ => w

/-- Whether the run and the thread a continuation needs are there. -/
inductive StartAnswer where
  | originGone | threadGone | found

/-- The rest of `_continue_or_cap`, up to the commit of the run. -/
def start (w : World) (p : Nat) (answer : StartAnswer) (there : Bool) : World :=
  match w.calls p with
  | .logged i poll =>
    match w.waits[i]? with
    | none => w.setCall p (.polling poll)
    | some wait =>
      match answer with
      | .originGone | .threadGone =>
        settleWait w p i .interrupted bootUnknownCopy there (.polling poll)
      | .found =>
        let index := continuedCount w wait.thread + 1
        { w.setCall p (.minted i w.runs.length index poll) with
          runs := w.runs ++ [{ thread := wait.thread, continues := some i }] }
  | _ => w

/-- `attach_continuation_run`. -/
def attach (w : World) (p : Nat) : World :=
  match w.calls p with
  | .minted i run index poll =>
    { w.setCall p (.attached i index poll) with
      waits := w.waits.modify i fun wait => { wait with continuationRun := some run } }
  | _ => w

/-- `settle_wait` of a wait that was continued. -/
def settle (w : World) (p : Nat) : World :=
  match w.calls p with
  | .attached i index poll =>
    { w.setCall p (.polling poll) with
      waits := w.waits.modify i fun wait =>
        { wait with status := .continued, continuedIndex := some index } }
  | _ => w

def raises (w : World) (p : Nat) : World :=
  match w.calls p with
  | .logged _ _ | .minted _ _ _ _ => w.setCall p .idle
  | _ => w

inductive Event where
  /-- A turn of a thread starts, and a run ends. -/
  | turn (thread : Thread)
  | turnEnds (run : Nat)
  | register (p : Nat) (registration : Registration)
  | insert (p : Nat)
  | cancel (p : Nat) (thread : Thread)
  | cancelled (p : Nat) (there : Bool)
  | poll (p : Nat) (onUnknown : ChatWaitUnknownPolicy) (now : Nat)
  | handle (p : Nat) (state : ProcessState) (there : Bool) (exitCode : Option Int)
      (logTail : String)
  | start (p : Nat) (answer : StartAnswer) (there : Bool)
  | attach (p : Nat)
  | settle (p : Nat)
  | raises (p : Nat)
  /-- The server stops. -/
  | stop

def step (w : World) : Event → World
  | .turn thread => { w with runs := w.runs ++ [{ thread := thread }] }
  | .turnEnds run => { w with runs := w.runs.modify run fun r => { r with inFlight := false } }
  | .register p registration =>
    match w.calls p, register w registration with
    | .idle, .ok wait => w.setCall p (.registering wait)
    | _, _ => w
  | .insert p =>
    match w.calls p with
    | .registering wait => insert w p wait
    | _ => w
  | .cancel p thread =>
    match w.calls p, outstandingFor w thread with
    | .idle, some i => w.setCall p (.cancelling i)
    | _, _ => w
  | .cancelled p there =>
    match w.calls p with
    | .cancelling i => settleWait w p i .cancelled stopCopy there .idle
    | _ => w
  | .poll p onUnknown now =>
    match w.calls p with
    | .idle =>
      let listed := (List.range w.waits.length).filter fun i =>
        (w.waits[i]?).any (·.status = .outstanding)
      w.setCall p (.polling { rest := listed, onUnknown := onUnknown, now := now })
    | _ => w
  | .handle p state there exitCode logTail => handle w p state there exitCode logTail
  | .start p answer there => start w p answer there
  | .attach p => attach w p
  | .settle p => settle w p
  | .raises p => raises w p
  | .stop => { w with calls := fun _ => .idle }

def Step (w : World) (e : Event) (w' : World) : Prop := step w e = w'

/-- The ends a wait has had: its messages, and the runs started for it. -/
def outcomes (w : World) (i : Nat) : Nat :=
  w.messages.countP (·.wait = i) + w.runs.countP (·.continues = some i)

/-- The runs that were started for waits of a thread. -/
def startedFor (w : World) (thread : Thread) : Nat :=
  w.runs.countP fun run => run.thread = thread ∧ run.continues.isSome

end Loregarden.ChatWaits
