import Loregarden.DiskSafetyModel

/-! # Releasing a checkout

`directory_release.py`: a release renames the checkout to a park name, has git prune its worktree
records from the parked copy, deletes the copy, and renames back what a failed prune or delete left.
Each of the four is one atomic step of a release, and releases of the checkouts of one repository
interleave. Only the prune reaches past the checkout it is run for: git drops the record of every
worktree whose directory is away. Paths are taken as resolved, a checkout is not inside another, and
what the system answers to a step is an argument of it. -/

namespace Loregarden.Release

open Disk (Path isRelativeTo)

inductive ReleaseDisposition where
  | intact | restored | stillParked
  deriving DecidableEq

/-- `DirectoryReleaseFailed`; `outside` is the subclass `DirectoryOutsideBase`. -/
structure DirectoryReleaseFailed where
  message : String
  disposition : ReleaseDisposition
  uncleanedPath : Path
  parkedPath : Option Path := none
  outside : Bool := false
  deriving DecidableEq

inductive Place where
  | atPath | parked | gone
  deriving DecidableEq

inductive Phase where
  | idle
  /-- The claim has renamed it; the prune is next. -/
  | renamed
  /-- The delete is next. -/
  | pruned
  /-- The rename back is next. -/
  | pruneFailed
  | deleteFailed
  | returned
  | raised (failed : DirectoryReleaseFailed)
  deriving DecidableEq

def Phase.underWay : Phase → Bool
  | renamed | pruned | pruneFailed | deleteFailed => true
  | idle | returned | raised _ => false

structure Checkout where
  /-- What `path` resolves to, and the directory it must stay inside. -/
  target : Path
  base : Path
  parkRoot : Path
  /-- The park root and `uuid4().hex`. -/
  parkName : Path
  /-- `os.path.islink(target)`. -/
  isLink : Bool
  place : Place
  /-- Nothing of it was deleted. -/
  whole : Bool
  /-- Git's worktree record names the target. -/
  registered : Bool
  /-- `(parked / ".git").exists()`. -/
  gitFile : Bool
  phase : Phase

/-- `_contained`: a strict descendant. -/
def contained (target base : Path) : Bool := isRelativeTo target base && target ≠ base

def failureMessage (target parked : Path) : ReleaseDisposition → String
  | .stillParked =>
    s!"{target.text} was not deleted and is not back either; it is parked at {parked.text}"
  | .restored =>
    s!"{target.text} was not deleted; it was put back where it was, possibly partly removed"
  | .intact => s!"{target.text} was not deleted; nothing was removed and it is where it was"

namespace Checkout

def refuse (c : Checkout) (message : String) (outside : Bool) : Checkout :=
  { c with
    phase := .raised
      { message := message, disposition := .intact, uncleanedPath := c.target, outside := outside } }

/-- The checks of `release_directory` and the rename that claims the checkout. -/
def claim (c : Checkout) (mkdirFails renameFails : Bool) : Checkout :=
  if c.phase ≠ .idle then c
  else if c.isLink then
    c.refuse s!"{c.target.text} is a symlink, not a checkout; nothing was attempted" true
  else if ¬ contained c.target c.base then
    c.refuse s!"{c.target.text} is not inside {c.base.text}, so nothing was attempted" true
  else if mkdirFails then
    c.refuse (s!"{c.target.text} was not released: its park root {c.parkRoot.text} " ++
      "could not be made") false
  else if renameFails ∨ c.place ≠ .atPath then
    c.refuse s!"{c.target.text} was not released: the rename that claims it failed" false
  else { c with place := .parked, phase := .renamed }

/-- The prune run from the parked copy reaches git's records. -/
def prunes (c : Checkout) (fails : Bool) : Bool :=
  c.phase = .renamed && c.gitFile && ! fails && c.registered

/-- What a `git worktree prune` does to a worktree of the repository. -/
def dropped (c : Checkout) : Checkout :=
  if c.place = .atPath then c else { c with registered := false }

/-- `_prune_metadata`, for the checkout it is run from. -/
def pruneMetadata (c : Checkout) (fails : Bool) : Checkout :=
  if c.phase ≠ .renamed then c
  else if ¬ c.gitFile then { c with phase := .pruned }
  else if c.prunes fails then { c.dropped with phase := .pruned }
  else { c with phase := .pruneFailed }

/-- `shutil.rmtree(parked)`; a failing one may have removed any part. -/
def rmtree (c : Checkout) (fails : Bool) : Checkout :=
  if c.phase ≠ .pruned then c
  else if fails then { c with whole := false, phase := .deleteFailed }
  else { c with place := .gone, whole := false, phase := .returned }

/-- The raise that follows `_restore`. -/
def raiseAs (c : Checkout) (disposition : ReleaseDisposition) : Checkout :=
  { c with
    phase := .raised
      { message := failureMessage c.target c.parkName disposition
        disposition := disposition
        uncleanedPath := c.target
        parkedPath := if disposition = .stillParked then some c.parkName else none } }

/-- `_restore`: it answers `onSuccess` when the rename back went through. -/
def restore (c : Checkout) (onSuccess : ReleaseDisposition) (fails : Bool) : Checkout :=
  if fails then c.raiseAs .stillParked else { c with place := .atPath }.raiseAs onSuccess

def recover (c : Checkout) (fails : Bool) : Checkout :=
  match c.phase with
  | .pruneFailed => c.restore .intact fails
  | .deleteFailed => c.restore .restored fails
  | _ => c

end Checkout

structure Faults where
  mkdir : Bool := false
  rename : Bool := false
  prune : Bool := false
  delete : Bool := false
  restore : Bool := false

/-- `release_directory` with nothing between its steps. -/
def Checkout.releaseDirectory (c : Checkout) (faults : Faults) : Checkout :=
  (((c.claim faults.mkdir faults.rename).pruneMetadata faults.prune).rmtree
    faults.delete).recover faults.restore

abbrev Repo (ι : Type*) := ι → Checkout

inductive Event (ι : Type*) where
  | claim (i : ι) (mkdirFails renameFails : Bool)
  | prune (i : ι) (fails : Bool)
  | delete (i : ι) (fails : Bool)
  | restore (i : ι) (fails : Bool)

def Event.subject {ι : Type*} : Event ι → ι
  | claim i _ _ | prune i _ | delete i _ | restore i _ => i

variable {ι : Type*} [DecidableEq ι]

/-- `git worktree prune` in the repository, run from checkout `i`. -/
def Repo.prune (s : Repo ι) (i : ι) (fails : Bool) : Repo ι :=
  fun j =>
    if j = i then (s i).pruneMetadata fails
    else if (s i).prunes fails then (s j).dropped
    else s j

/-- One step; one that is not the next of its release changes nothing. -/
def Repo.step (s : Repo ι) : Event ι → Repo ι
  | .claim i mkdirFails renameFails => Function.update s i ((s i).claim mkdirFails renameFails)
  | .prune i fails => s.prune i fails
  | .delete i fails => Function.update s i ((s i).rmtree fails)
  | .restore i fails => Function.update s i ((s i).recover fails)

/-- `Repo.step` as a relation. -/
def Step (s : Repo ι) (e : Event ι) (t : Repo ι) : Prop := t = s.step e

end Loregarden.Release
