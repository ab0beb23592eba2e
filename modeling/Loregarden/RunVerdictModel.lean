import Loregarden.LaneModel
import Loregarden.PythonText
import Mathlib.Data.String.Basic

/-! # Completing a run

`run_finality.py`, `OrchestrationService.complete_run` and the four status writes of the permission
bridge, on one run. A call of `complete_run` is its guarded update, and then either what it records
and the release of the slot, or the note of its refusal; a bridge write reads the row and writes it
at some later moment. The steps of all of them interleave freely. What the completion does to the
ticket is left out. -/

namespace Loregarden.RunVerdict

open Text
open Lanes (RunStatus)

/-- What a run is completed with: every caller of `complete_run` hands it one of these. -/
inductive Outcome where
  | succeeded | failed | cancelled
  deriving DecidableEq

def Outcome.status : Outcome → RunStatus
  | .succeeded => .succeeded
  | .failed => .failed
  | .cancelled => .cancelled

/-- `RunStatus.value`. -/
def statusValue : RunStatus → String
  | .queued => "queued"
  | .running => "running"
  | .awaitingPermission => "awaiting_permission"
  | .succeeded => "succeeded"
  | .failed => "failed"
  | .cancelled => "cancelled"

structure AgentRun where
  status : RunStatus
  stdout : String := ""
  stderr : String := ""
  finishedAt : Option Int := none

/-- The arguments of one call of `complete_run`. -/
structure Completion where
  status : Outcome
  stdout : String := ""
  stderr : String := ""
  deriving DecidableEq

def noRecordedReason : String :=
  "Agent run failed with no reason recorded — the process produced neither an " ++
  "error nor any output. Check the run log; if it is also empty the failure " ++
  "happened before the agent wrote anything."

def failureReason (stderr stdout : String) : String :=
  if strip isSpace stderr.toList ≠ [] then stderr
  else
    match (splitLines stdout.toList).reverse.find? fun line => strip isSpace line ≠ [] with
    | some tail => "Agent run failed with no error output. Last line of its output: " ++
        String.ofList (tail.take 1000)
    | none => noRecordedReason

/-- What the accepted completion leaves as the run's stderr. -/
def Completion.recordedStderr (c : Completion) : String :=
  if c.status = .failed then failureReason c.stderr c.stdout else c.stderr

/-- The note of `refuse_late_completion`. -/
def lateNote (when : String) (reported verdict : RunStatus) : String :=
  "Late completion refused at " ++ when ++ ": reported " ++ statusValue reported ++
  " after this run was already " ++ statusValue verdict ++ ", which stands."

def withNote (stderr note : String) : String := if stderr = "" then note else stderr ++ "\n" ++ note

/-- Where a call of `complete_run` is. -/
inductive Phase where
  | idle
  | claimed (c : Completion)
  | recorded (c : Completion)
  | released (c : Completion)
  | refused (c : Completion)
  | noted
  deriving DecidableEq

/-- The status writes of the bridge: `_create_question_approval` and `_create_permission_approval`,
    `_resume_after_approval`, `_fail_after_rejection`, `_scope_denial_result`. -/
inductive BridgeWrite where
  | awaitPermission | resumeAfterApproval | failAfterRejection | scopeDenial

def BridgeWrite.status : BridgeWrite → RunStatus
  | .awaitPermission => .awaitingPermission
  | .resumeAfterApproval => .running
  | .failAfterRejection | .scopeDenial => .failed

structure World where
  run : AgentRun
  /-- Whether an execution slot is held for the run. -/
  slotHeld : Bool := true
  calls : Nat → Phase := fun _ => .idle
  /-- The bridge writes under way, with the status each read. -/
  reads : Nat → Option (BridgeWrite × RunStatus) := fun _ => none
  /-- The calls whose update matched, in order: kept to be told about, read by nothing. -/
  accepted : List (Nat × Completion) := []

def World.setCall (w : World) (call : Nat) (phase : Phase) : World :=
  { w with calls := fun other => if other = call then phase else w.calls other }

def World.setRead (w : World) (bridge : Nat) (read : Option (BridgeWrite × RunStatus)) : World :=
  { w with reads := fun other => if other = bridge then read else w.reads other }

inductive Event where
  | claim (call : Nat) (c : Completion)
  | record (call : Nat) (now : Int)
  | release (call : Nat)
  | note (call : Nat) (when : String)
  | bridgeRead (bridge : Nat) (write : BridgeWrite)
  | bridgeWrite (bridge : Nat)

/-- `claim_completion`: the update guarded on the statuses in flight. -/
def claimCompletion (w : World) (call : Nat) (c : Completion) : World :=
  if w.calls call ≠ .idle then w
  else if w.run.status.live then
    { w.setCall call (.claimed c) with
      run := { w.run with status := c.status.status }
      accepted := w.accepted ++ [(call, c)] }
  else w.setCall call (.refused c)

/-- What `complete_run` commits after its update matched. -/
def recordCompletion (w : World) (call : Nat) (now : Int) : World :=
  match w.calls call with
  | .claimed c =>
    { w.setCall call (.recorded c) with
      run := {
        status := c.status.status
        stdout := c.stdout
        stderr := c.recordedStderr
        finishedAt := some now } }
  | _ => w

/-- `release_execution_slot`, when the rest of the tail returned or raised. -/
def releaseExecutionSlot (w : World) (call : Nat) : World :=
  match w.calls call with
  | .recorded c => { w.setCall call (.released c) with slotHeld := false }
  | _ => w

/-- `refuse_late_completion`: the run is read afresh in the transaction of the update that
    matched nothing. -/
def refuseLateCompletion (w : World) (call : Nat) (when : String) : World :=
  match w.calls call with
  | .refused c =>
    { w.setCall call .noted with
      run := { w.run with
        stderr := withNote w.run.stderr (lateNote when c.status.status w.run.status) } }
  | _ => w

/-- The commit of a bridge write: a column set to the value it was read with is not written. -/
def commitBridgeWrite (w : World) (bridge : Nat) : World :=
  match w.reads bridge with
  | some (write, seen) =>
    let w' := w.setRead bridge none
    if seen = write.status then w' else { w' with run := { w.run with status := write.status } }
  | none => w

def step (w : World) : Event → World
  | .claim call c => claimCompletion w call c
  | .record call now => recordCompletion w call now
  | .release call => releaseExecutionSlot w call
  | .note call when => refuseLateCompletion w call when
  | .bridgeRead bridge write => w.setRead bridge (some (write, w.run.status))
  | .bridgeWrite bridge => commitBridgeWrite w bridge

/-- A run in flight that nobody has completed or is about to write. -/
structure Initial (w : World) : Prop where
  inFlight : w.run.status.live = true
  calls : ∀ call, w.calls call = .idle
  reads : ∀ bridge, w.reads bridge = none
  accepted : w.accepted = []

end Loregarden.RunVerdict
