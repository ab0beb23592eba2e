import Loregarden.WorktreeModel

/-! # Retrying a release

`retire_worktree` called again on the checkout of one row, whose release failed before. Nothing
writes into the directory between the calls. What is in it and whether git's worktree record names
it then change by the attempts alone, and the probes of a call answer from these two: `readings`.
The stats answer, and each attempt says which steps of its release fail. -/

namespace Loregarden.Worktrees

open Disk (Path)
open Release

/-- What is in a checkout, and whether git's worktree record names it. -/
structure Tree where
  files : List String
  registered : Bool

/-- `(parked / ".git").exists()`. -/
def Tree.gitFile (t : Tree) : Bool := t.files.contains ".git"

/-- The world, the checkout of one row, and where its bytes are. -/
structure Site where
  world : World
  tree : Tree
  bytes : Option Path

/-- One call of `retire_worktree`. -/
structure Attempt where
  faults : Faults
  /-- `uuid4().hex`. -/
  parkName : String
  /-- What a `shutil.rmtree` that raises leaves. -/
  leaves : String → Bool

/-- Where a release leaves the bytes of its checkout. -/
def bytesOf (c : Checkout) : Option Path :=
  match c.place with
  | .atPath => some c.target
  | .parked => some c.parkName
  | .gone => none

def Tree.after (t : Tree) (c : Checkout) (leaves : String → Bool) : Tree where
  files := if c.whole then t.files else t.files.filter leaves
  registered := c.registered

def faultsOf (service : WorktreeService) (disk : Path → Entry) (answers : Answers) : Faults :=
  { answers.faults with
    rename := answers.faults.rename ||
      (disk (service.parkRoot ++ [answers.parkName])).lexists }

/-- The release `retire_worktree` makes of a row's checkout, when it comes to that. -/
def releaseOf (service : WorktreeService) (gate : KeepReasonGate) (w : World)
    (worktree : Worktree) (answers : Answers) : Option Checkout :=
  match worktree.worktreePath, observedState w.disk answers.stat worktree with
  | some path, .ok .present =>
    if premiseOrUncertainty gate answers.probes .present = none then
      match refuseIfOutsideBase service w.disk path with
      | .error _ => none
      | .ok _ =>
        some ((releasedCheckout service w.disk path answers).releaseDirectory
          (faultsOf service w.disk answers))
    else none
  | _, _ => none

namespace Site

variable (service : WorktreeService) (gate : KeepReasonGate) (readings : Tree → Probes) (i : Nat)

def answers (s : Site) (a : Attempt) : Answers where
  stat := none
  restat := none
  parkedStat := none
  probes := readings s.tree
  ticketFinished := true
  faults := a.faults
  parkName := a.parkName
  gitFile := s.tree.gitFile
  registered := s.tree.registered

/-- `retire_worktree` on the row under `i`. -/
def attempt (s : Site) (a : Attempt) : Site × Option Retirement :=
  let outcome := s.world.atRow i none fun worktree =>
    let settled := retireWorktree service gate s.world i worktree (s.answers readings a)
    (settled.1, some settled.2)
  let released := (s.world.rows[i]?).bind fun worktree =>
    releaseOf service gate s.world worktree (s.answers readings a)
  ({ world := outcome.1
     tree := (released.map fun c => s.tree.after c a.leaves).getD s.tree
     bytes := (released.map bytesOf).getD s.bytes }, outcome.2)

def attempts (s : Site) : List Attempt → Site
  | [] => s
  | a :: rest => attempts (s.attempt service gate readings i a).1 rest

end Site

/-- The row under `i` owns a directory of its service, which is at its path. -/
structure Stands (service : WorktreeService) (i : Nat) (path : Path) (s : Site) : Prop where
  row : ∃ worktree, s.world.rows[i]? = some worktree ∧ worktree.worktreePath = some path
  inside : contained path service.worktreeBase = true
  there : (s.world.disk path).isDirectory = true
  bytes : s.bytes = some path

structure Faultless (service : WorktreeService) (s : Site) (a : Attempt) : Prop where
  faults : a.faults = {}
  free : (s.world.disk (service.parkRoot ++ [a.parkName])).lexists = false

/-- The retirement removed the checkout, or the row still names where its bytes are
    parked; it did not refuse for uncommitted work. -/
structure Answered (i : Nat) (path : Path) (after : Site × Option Retirement) : Prop where
  accounted : (after.1.bytes = none ∧ (after.1.world.disk path).lexists = false ∧
        after.2.map (·.refusal) = some none) ∨
      ∃ parked worktree, parked ≠ path ∧ after.1.bytes = some parked ∧
        (after.1.world.disk parked).isDirectory = true ∧
        after.1.world.rows[i]? = some worktree ∧ worktree.parkedAt = some parked
  committed : after.2.bind (·.refusal) ≠ some (.keep .uncommitted)

/-- Git refuses the prune: the call fails, or the tree is no worktree of its any more. -/
def Tree.refusesPrune (t : Tree) (faults : Faults) : Bool :=
  t.gitFile && (faults.prune || ! t.registered)

/-- The release gets to its delete, which fails, and the rename back goes through. -/
def Tree.putBack (t : Tree) (faults : Faults) : Bool :=
  ! faults.mkdir && ! faults.rename && ! t.refusesPrune faults && faults.delete && ! faults.restore

/-- What such a release leaves: a tree that had a `.git` has lost its record. -/
def Tree.remains (t : Tree) (leaves : String → Bool) : Tree where
  files := t.files.filter leaves
  registered := t.registered && ! t.gitFile

/-- The attempt puts back a tree the premises do not pass any more. -/
structure Spoils (service : WorktreeService) (gate : KeepReasonGate) (readings : Tree → Probes)
    (path : Path) (s : Site) (a : Attempt) : Prop where
  there : s.bytes = some path
  putBack : s.tree.putBack (faultsOf service s.world.disk (s.answers readings a)) = true
  kept : gate (readings (s.tree.remains a.leaves)) ≠ .ok none

end Loregarden.Worktrees
