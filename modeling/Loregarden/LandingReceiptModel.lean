import Loregarden.LandingModel

/-! # The landing on record, and the receipt that is read from it

What `land_ticket` asks and writes of the recorded landing, over the `landTicket` that moves the
repository: `landing_commit` (`work_landed.py`) with the `superseding_commit` and `adds_nothing` of
`git_merge_noco.py`, `_already_landed_at`, `empty_landing` (`landing_carried_work.py`) and
`_record`; and the ticket's arm of `resolve_receipt` (`worktree_receipt.py`).

`Answers` is what git answers of commits besides `merge-tree`; every call of git answers. A recorded
landing is a digest, or a text that is none. -/

namespace Loregarden.Landing

open TwoTree

structure Answers where
  mergeTree : List Commit → Sha → Sha → MergeAnswer
  /-- `merge-base one other`. -/
  mergeBase : List Commit → Sha → Sha → Option Sha
  /-- `rev-list --max-count=200 base ^branch -- paths`, newest first. -/
  touching : List Commit → Sha → Sha → List Path → List Sha
  /-- `rev-list --ancestry-path commit..ref`, newest first. -/
  ancestryPath : List Commit → Sha → Sha → List Sha
  /-- `carries_own_work`, of a branch and its base. -/
  carriesOwnWork : List Commit → Sha → Option Sha → Bool

/-- The column `landed_sha`: empty, a text that `_DIGEST` does not match, or a digest. -/
inductive Recorded where
  | empty
  | text
  | digest (sha : Sha)
  deriving DecidableEq

structure Ticket where
  landedSha : Recorded := .empty
  landedBranch : Branch := ""

structure Setting where
  branch : Branch
  target : Branch
  base : Branch
  repository : Bool := true
  ticketRoot : Option String := none
  recorded : List Path := []
  verifies : Bool := true

structure Landed where
  repo : Repo
  ticket : Ticket

/-! ## `work_landed.py` -/

def sameFiles (one other : Files) : Bool :=
  (one.paths ++ other.paths).all fun p => one.get p = other.get p

/-- `diff --name-only --no-renames one other`. -/
def changedPaths (one other : Files) : List Path :=
  ((one.paths ++ other.paths).dedup).filter fun p => one.get p ≠ other.get p

section Questions

variable (git : Answers) (r : Repo)

/-- Whether merging the branch into a commit leaves the commit as it is. -/
def leavesUnchanged (commit branchSha : Sha) : Bool :=
  (git.mergeTree r.commits commit branchSha).conflicts.isEmpty &&
    sameFiles (git.mergeTree r.commits commit branchSha).tree (r.tree commit)

def addsNothing (baseSha branchSha : Sha) : Bool :=
  branchSha = baseSha || r.isAncestor branchSha baseSha || leavesUnchanged git r baseSha branchSha

def supersedingCommit (branchSha baseSha : Sha) : Option Sha :=
  match git.mergeBase r.commits baseSha branchSha with
  | none => none
  | some fork =>
    let paths := changedPaths (r.tree fork) (r.tree branchSha)
    if paths = [] then none
    else
      (git.touching r.commits baseSha branchSha paths).reverse.find? fun candidate =>
        leavesUnchanged git r candidate branchSha

/-- `landing_commit` where the branch is no ancestor of the ref. -/
def holderByContent (branchSha refSha : Sha) : Option Sha :=
  match supersedingCommit git r branchSha refSha with
  | some holder => some holder
  | none =>
    match git.mergeBase r.commits branchSha refSha with
    | none => none
    | some fork => if addsNothing git r fork branchSha then some fork else none

def firstContaining (commit refSha : Sha) : Option Sha :=
  match (git.ancestryPath r.commits commit refSha).getLast? with
  | some first => some first
  | none => if r.isAncestor commit refSha then some commit else none

/-- `landing_on_record`, with the tip of the target. -/
def landingOnRecord (ticket : Ticket) (target : Branch) (tip : Option Sha) (branchSha : Sha) :
    Bool :=
  match ticket.landedSha with
  | .digest landed =>
    ticket.landedBranch = target && r.isAncestor branchSha landed &&
      tip.any fun refSha => r.isAncestor landed refSha
  | _ => false

def alreadyLandedAt (ticket : Ticket) (target : Branch) (tip : Option Sha) (branchSha : Sha) :
    Sha :=
  match ticket.landedSha with
  | .digest landed =>
    if landingOnRecord r ticket target tip branchSha then landed
    else (tip.bind (firstContaining git r branchSha)).getD branchSha
  | _ => (tip.bind (firstContaining git r branchSha)).getD branchSha

def landedOnRecord (ticket : Ticket) (target : Branch) : Bool :=
  ticket.landedBranch = target && ticket.landedSha ≠ .empty

def emptyLanding (s : Setting) (ticket : Ticket) : Bool :=
  if s.recorded = [] || landedOnRecord ticket s.target then false
  else
    match r.heads s.branch with
    | none => true
    | some branchSha => !git.carriesOwnWork r.commits branchSha (r.heads s.base)

/-- Where `ensure_integration_branch` leaves the target. -/
def targetTip (s : Setting) : Option Sha := (r.heads s.target).orElse fun _ => r.heads s.base

/-- What the landing holds the branch by, if it is content alone. -/
def heldByContent (s : Setting) : Option Sha :=
  match r.heads s.branch, targetTip r s with
  | some b, some t => holderByContent git r b t
  | _, _ => none

/-- The call of `land_ticket`, with what it asks of the ticket and of git. -/
def callOf (s : Setting) (ticket : Ticket) : Call where
  target := s.target
  base := s.base
  repository := s.repository
  ticketRoot := s.ticketRoot
  recorded := s.recorded
  superseding := heldByContent git r s
  emptyLanding := emptyLanding git r s ticket
  verifies := s.verifies
  landedAt :=
    ((r.heads s.branch).map (alreadyLandedAt git r ticket s.target (targetTip r s))).getD 0

end Questions

/-- `_record`, where a landing is to be recorded. -/
def recordLanding (target : Branch) (result : Option LandResult) (ticket : Ticket) : Ticket :=
  match result with
  | some { ok := true, landedSha := some sha, .. } =>
    { landedSha := .digest sha, landedBranch := target }
  | _ => ticket

/-- `land_ticket`: its result, unless it raises, and what it leaves. -/
def land (git : Answers) (s : Setting) (w : Landed) : Option LandResult × Landed :=
  let landed := landTicket git.mergeTree s.branch (callOf git w.repo s w.ticket) w.repo
  (landed.1, { repo := landed.2, ticket := recordLanding s.target landed.1 w.ticket })

/-- `KeepReason`, as far as a ticket's tree can be kept for it. -/
inductive KeepReason where
  | unreadable
  | receiptDoesNotCover
  | noReceipt
  deriving DecidableEq

inductive Receipt where
  | receipt (sha : Recorded) (branch : Branch)
  | unresolved (reason : KeepReason)
  deriving DecidableEq

def landingTheTargetStillHolds (r : Repo) (ticket : Ticket) (target : Branch) : Bool :=
  match ticket.landedSha with
  | .digest landed =>
    ticket.landedBranch = target && landed < r.commits.length &&
      (r.heads target).any fun refSha => r.isAncestor landed refSha
  | _ => false

/-- Whether the tip is contained in what is on record. -/
def recordCovers (r : Repo) (ticket : Ticket) (tip : Sha) : Bool :=
  match ticket.landedSha with
  | .digest landed => r.isAncestor tip landed
  | _ => false

/-- `_live_tip`, of a tree that names a branch or none. -/
def liveTip (r : Repo) (treeBranch : Branch) : Option Sha :=
  if treeBranch = "" then none else r.heads treeBranch

/-- `_ticket_receipt`, of the ticket's tree that stands on `treeBranch`. -/
def ticketReceipt (s : Setting) (treeBranch : Branch) (w : Landed) : Receipt :=
  match (liveTip w.repo treeBranch).orElse fun _ => w.repo.heads s.branch with
  | none => .unresolved .unreadable
  | some tip =>
    if landingOnRecord w.repo w.ticket s.target (w.repo.heads s.target) tip then
      .receipt w.ticket.landedSha s.target
    else if landingTheTargetStillHolds w.repo w.ticket s.target &&
        !recordCovers w.repo w.ticket tip then
      .unresolved .receiptDoesNotCover
    else .unresolved .noReceipt

end Loregarden.Landing
