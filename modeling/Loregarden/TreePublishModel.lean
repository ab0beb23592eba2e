import Loregarden.RunProofs
import Mathlib.Logic.Function.Basic

/-! # Publishing a tree after its landings

`schedule_tree_publish` and `run_tree_publish`, by their sections under `_GUARD` and the statements
between them. A call that finds its root in flight asks the publisher of that root for another
round; one that does not takes the root, and its thread (or the call itself) publishes until nobody
asks. The calls of every root interleave freely. A drain, what a publish does, and the cards it
files are left out. -/

namespace Loregarden.TreePublish

/-- Where the owner of a root is: about to start its thread, or past a start that failed;
    about to publish, in `_publish_once`, before its look at `_AGAIN`, and past it. -/
inductive Turn where
  | claimed | startFailed | ready | publishing | looking | releasing
  deriving DecidableEq

/-- A call of `schedule_tree_publish` for a root, with the moment it began, and the publisher it
    started. An owner's call has returned once its thread was started. -/
inductive Phase where
  | idle
  | began (root : String) (moment : Nat)
  | asked (root : String) (moment : Nat)
  | owner (root : String) (moment : Nat) (turn : Turn) (returned : Bool)
  | finished (root : String) (moment : Nat)
  | raised
  deriving DecidableEq

structure World where
  calls : Nat → Phase := fun _ => .idle
  /-- `_IN_FLIGHT`. -/
  inFlight : String → Bool := fun _ => false
  /-- `_AGAIN`. -/
  again : String → Bool := fun _ => false
  /-- How many steps were taken, and the last in which a publish of a root started: kept to be
      told about, read by nothing. -/
  clock : Nat := 0
  lastStart : String → Option Nat := fun _ => none

inductive Event where
  | call (c : Nat) (root : String)
  | enter (c : Nat)
  | startThread (c : Nat)
  | runInline (c : Nat)
  | startFails (c : Nat)
  | giveUp (c : Nat)
  | publish (c : Nat)
  /-- `_publish_once` returns, whatever it did. -/
  | published (c : Nat)
  /-- What it does not catch leaves it. -/
  | escape (c : Nat)
  | look (c : Nat)
  | release (c : Nat)

def World.setCall (w : World) (c : Nat) (phase : Phase) : World :=
  { w with calls := Function.update w.calls c phase }

/-- The section of `schedule_tree_publish` under the guard. -/
def enter (w : World) (c : Nat) : World :=
  match w.calls c with
  | .began root moment =>
    if w.inFlight root then
      { w.setCall c (.asked root moment) with again := Function.update w.again root true }
    else
      { w.setCall c (.owner root moment .claimed false) with
        inFlight := Function.update w.inFlight root true }
  | _ => w

/-- `Thread(...).start()`, or the publish in the call itself. -/
def start (w : World) (c : Nat) (returned : Bool) : World :=
  match w.calls c with
  | .owner root moment .claimed _ => w.setCall c (.owner root moment .ready returned)
  | _ => w

/-- `Thread(...).start()` raises. -/
def startFails (w : World) (c : Nat) : World :=
  match w.calls c with
  | .owner root moment .claimed returned => w.setCall c (.owner root moment .startFailed returned)
  | _ => w

/-- The section that gives the root up, before the call raises. -/
def giveUp (w : World) (c : Nat) : World :=
  match w.calls c with
  | .owner root _ .startFailed _ =>
    { w.setCall c .raised with inFlight := Function.update w.inFlight root false }
  | _ => w

/-- `_publish_once` starts. -/
def publish (w : World) (c : Nat) : World :=
  match w.calls c with
  | .owner root moment .ready returned =>
    { w.setCall c (.owner root moment .publishing returned) with
      lastStart := Function.update w.lastStart root (some w.clock) }
  | _ => w

def published (w : World) (c : Nat) (turn : Turn) : World :=
  match w.calls c with
  | .owner root moment .publishing returned => w.setCall c (.owner root moment turn returned)
  | _ => w

/-- The section of `run_tree_publish` that looks at `_AGAIN`. -/
def look (w : World) (c : Nat) : World :=
  match w.calls c with
  | .owner root moment .looking returned =>
    if w.again root then
      { w.setCall c (.owner root moment .ready returned) with
        again := Function.update w.again root false }
    else w.setCall c (.owner root moment .releasing returned)
  | _ => w

/-- The section of its `finally`. -/
def release (w : World) (c : Nat) : World :=
  match w.calls c with
  | .owner root moment .releasing _ =>
    { w.setCall c (.finished root moment) with
      inFlight := Function.update w.inFlight root false
      again := Function.update w.again root false }
  | _ => w

def act (w : World) : Event → World
  | .call c root => if w.calls c = .idle then w.setCall c (.began root w.clock) else w
  | .enter c => enter w c
  | .startThread c => start w c true
  | .runInline c => start w c false
  | .startFails c => startFails w c
  | .giveUp c => giveUp w c
  | .publish c => publish w c
  | .published c => published w c .looking
  | .escape c => published w c .releasing
  | .look c => look w c
  | .release c => release w c

def step (w : World) (e : Event) : World := { act w e with clock := w.clock + 1 }

def Step (w : World) (e : Event) (w' : World) : Prop := step w e = w'

/-- The root and the moment of a call that has returned. -/
def Phase.returnedFor : Phase → Option (String × Nat)
  | .asked root moment | .owner root moment _ true | .finished root moment => some (root, moment)
  | _ => none

end Loregarden.TreePublish
