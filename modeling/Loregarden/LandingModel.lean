import Mathlib.Data.List.Dedup
import Mathlib.Data.String.Basic
import Loregarden.TwoTreeProofs

/-! # Landing a ticket

`land_ticket.py`: `land_ticket` with `_refresh_branch` and `_align_worktrees`, over the `merge_tips`
of `git_merge_noco.py`, and `landing_uncommitted.py`. A repository is its commits, its branches and
its worktrees; what `git merge-tree` makes of two commits is given by `mergeTree`, and `read-tree -m
-u` is the two-tree move. Every git command can fail. What is asked of the recorded landings, of a
squash and of the verifier is part of the call; the words of a refusal, the landing on record and
its receipt are left out. -/

namespace Loregarden.Landing

open TwoTree

abbrev Path := String
abbrev Blob := String
abbrev Branch := String
abbrev Sha := Nat
abbrev Files := Tree Path Blob

structure Commit where
  tree : Files
  parents : List Sha

inductive Head where
  | branch (name : Branch)
  | detached (sha : Sha)
  deriving DecidableEq

structure Worktree where
  path : String
  head : Head
  /-- Its directory is gone. -/
  missing : Bool := false
  /-- The listing says `prunable`. -/
  prunable : Bool := false
  checkout : Checkout Path Blob

/-- The commits by their number, the branches and the worktrees, in the order git lists them. -/
structure Repo where
  commits : List Commit
  heads : Branch → Option Sha
  worktrees : List Worktree
  /-- A branch stands at a commit. -/
  heads_lt : ∀ b sha, heads b = some sha → sha < commits.length

namespace Repo

variable (r : Repo)

def tree (sha : Sha) : Files := ((r.commits[sha]?).map Commit.tree).getD []

def tip (b : Branch) : Files := ((r.heads b).map r.tree).getD []

/-- `commit-tree`. -/
def write (c : Commit) : Repo where
  commits := r.commits ++ [c]
  heads := r.heads
  worktrees := r.worktrees
  heads_lt := by
    intro b sha h
    rw [List.length_append]
    exact Nat.lt_of_lt_of_le (r.heads_lt b sha h) (Nat.le_add_right _ _)

/-- `update-ref`, or `branch`. -/
def setHead (b : Branch) (sha : Sha) (h : sha < r.commits.length) : Repo where
  commits := r.commits
  heads := fun other => if other = b then some sha else r.heads other
  worktrees := r.worktrees
  heads_lt := by
    intro other sha' h'
    by_cases hb : other = b
    · rw [if_pos hb] at h'
      exact Option.some.inj h' ▸ h
    · rw [if_neg hb] at h'
      exact r.heads_lt other sha' h'

def setWorktrees (ws : List Worktree) : Repo where
  commits := r.commits
  heads := r.heads
  worktrees := ws
  heads_lt := r.heads_lt

/-- Is `a` among the commits `b` descends from in `n` steps? -/
def descends : Nat → Sha → Sha → Bool
  | 0, a, b => a = b
  | n + 1, a, b =>
    a = b || (((r.commits[b]?).map Commit.parents).getD []).any fun parent => descends n a parent

/-- `merge-base --is-ancestor`. -/
def isAncestor (a b : Sha) : Bool := r.descends r.commits.length a b

end Repo

inductive MergeStep where
  | tips | ancestor | mergeTree | commitTree | updateRef

/-- What `git merge-tree` answers. -/
structure MergeAnswer where
  tree : Files
  conflicts : List Path := []

inductive MergeOutcome where
  | refused (conflictedFiles : List Path)
  | contained (sha : Sha)
  | merged (sha : Sha)

variable (mergeTree : List Commit → Sha → Sha → MergeAnswer)

/-- The end of `merge_tips`, of a tree that merged: the commit is written, the verifier asked, and
    the ref moved. -/
def publish (fails : MergeStep → Bool) (verify : Option Bool) (r : Repo) (target : Branch)
    (tree : Files) (parents : List Sha) : MergeOutcome × Repo :=
  if fails .commitTree then (.refused [], r)
  else if verify = some false then (.refused [], r.write ⟨tree, parents⟩)
  else if fails .updateRef then (.refused [], r.write ⟨tree, parents⟩)
  else (.merged r.commits.length, (r.write ⟨tree, parents⟩).setHead target r.commits.length
      (by rw [Repo.write, List.length_append]; exact Nat.lt_succ_self _))

/-- `merge_tips`, of the tips `read_branch_tips` has just read. -/
def mergeTips (fails : MergeStep → Bool) (verify : Option Bool) (r : Repo)
    (target source : Branch) : MergeOutcome × Repo :=
  if fails .tips then (.refused [], r)
  else
    match r.heads source, r.heads target with
    | some s, some t =>
      if s = t ∨ (fails .ancestor = false ∧ r.isAncestor s t = true) then (.contained s, r)
      else if fails .mergeTree then (.refused [], r)
      else if (mergeTree r.commits t s).conflicts ≠ [] then
        (.refused (mergeTree r.commits t s).conflicts, r)
      else publish fails verify r target (mergeTree r.commits t s).tree [t, s]
    | _, _ => (.refused [], r)

inductive Command where
  | branchTip | status | untracked | targetTips | createTarget | heldTips | heldAncestor
  | landingCommit | refreshNeeded | before
  | refresh (step : MergeStep)
  | worktreeList
  | readTree (path : String)
  | merge (step : MergeStep)

inductive LandSkip where
  | noBranch | alreadyLanded | baseTarget | noRepository
  deriving DecidableEq

inductive Refusal where
  | empty
  | uncommitted (paths : List Path)
  | uncommittedUnknown
  | heldUnknown
  | refresh
  | unlisted
  | stale (path : String)
  | merge
  deriving DecidableEq

structure LandResult where
  ok : Bool
  landedSha : Option Sha := none
  detail : Option Refusal := none
  skipped : Option LandSkip := none
  conflictedFiles : List Path := []
  deriving DecidableEq

def skip (why : LandSkip) : LandResult := { ok := true, skipped := some why }

def refuse (why : Refusal) (conflictedFiles : List Path) : LandResult :=
  { ok := false, detail := some why, conflictedFiles := conflictedFiles }

/-- One call of `land_ticket`, with all it is told that is not read from the repository. -/
structure Call where
  target : Branch
  base : Branch
  /-- There is a `.git` at the workspace's root. -/
  repository : Bool := true
  /-- `resolve_ticket_root`, unless it is the workspace's root. -/
  ticketRoot : Option String := none
  /-- `ticket_recorded_paths`. -/
  recorded : List Path := []
  fails : Command → Bool := fun _ => false
  /-- What `landing_commit` finds that is no ancestor. -/
  superseding : Option Sha := none
  /-- `empty_landing` gives a reason. -/
  emptyLanding : Bool := false
  /-- The land verifier's verdict. -/
  verifies : Bool := true
  /-- `_already_landed_at`. -/
  landedAt : Sha := 0

/-! ## What is uncommitted -/

def headTree (r : Repo) (w : Worktree) : Files :=
  match w.head with
  | .branch b => r.tip b
  | .detached sha => r.tree sha

/-- The paths of `git status`. -/
def dirtyPaths (r : Repo) (w : Worktree) : List Path :=
  let c := w.checkout
  ((headTree r w).paths ++ c.index.paths ++ c.files.paths).dedup.filter fun p =>
    c.index.get p ≠ (headTree r w).get p ∨
      (c.files.get p ≠ c.index.get p ∧ ¬ (c.index.get p = none ∧ c.ignored p))

/-- `_untracked`. -/
def untrackedPaths (w : Worktree) : List Path :=
  w.checkout.files.paths.filter fun p => w.checkout.index.get p = none ∧ !w.checkout.ignored p

/-- `uncommitted_ticket_work`, of the ticket's own worktree. -/
def uncommittedTicketWork (call : Call) (r : Repo) (w : Worktree) : List Path :=
  if call.fails .status then []
  else if call.recorded = [] then dirtyPaths r w
  else (dirtyPaths r w).filter (· ∈ call.recorded)

def uncommittedAtLanding (call : Call) (r : Repo) : Except Unit (List Path) :=
  match call.ticketRoot.bind fun root => r.worktrees.find? (·.path = root) with
  | none => .ok []
  | some w =>
    if uncommittedTicketWork call r w = [] then .ok []
    else if call.fails .untracked then .error ()
    else .ok ((uncommittedTicketWork call r w).filter fun p =>
      p ∉ untrackedPaths w ∨ p ∈ call.recorded)

def uncommitted (call : Call) (r : Repo) : Option Refusal :=
  match uncommittedAtLanding call r with
  | .error _ => some .uncommittedUnknown
  | .ok [] => none
  | .ok paths => some (.uncommitted paths)

def ensureIntegrationBranch (call : Call) (r : Repo) : Option Repo :=
  if call.fails .targetTips then none
  else if (r.heads call.target).isSome then some r
  else
    match h : r.heads call.base with
    | none => none
    | some sha =>
      if call.fails .createTarget then none
      else some (r.setHead call.target sha (r.heads_lt _ _ h))

def landingCommit (call : Call) (r : Repo) (branchSha targetSha : Sha) : Except Unit (Option Sha) :=
  if branchSha = targetSha ∨
      (call.fails .heldAncestor = false ∧ r.isAncestor branchSha targetSha = true) then
    .ok (some branchSha)
  else if call.fails .landingCommit then .error ()
  else .ok call.superseding

def heldWithoutSharedHistory (branch : Branch) (call : Call) (r : Repo) : Option LandResult :=
  if call.fails .heldTips then none
  else
    match r.heads branch, r.heads call.target with
    | some b, some t =>
      match landingCommit call r b t with
      | .error _ => some (refuse .heldUnknown [])
      | .ok none => none
      | .ok (some holder) =>
        if call.emptyLanding then some (refuse .empty [])
        else if holder = b then none
        else some { ok := true, landedSha := some holder, skipped := some .alreadyLanded }
    | _, _ => none

inductive Entry where
  /-- It does not: it answers, or raises. -/
  | ends (result : Option LandResult)
  | goesOn

/-- `land_ticket` as far as its refresh. -/
def enter (branch : Branch) (call : Call) (r : Repo) : Entry × Repo :=
  if !call.repository then (.ends (some (skip .noRepository)), r)
  else if call.fails .branchTip ∨ r.heads branch = none then
    (.ends (some (if call.emptyLanding then refuse .empty [] else skip .noBranch)), r)
  else
    match uncommitted call r with
    | some why => (.ends (some (refuse why [])), r)
    | none =>
      if call.target = call.base then (.ends (some (skip .baseTarget)), r)
      else
        match ensureIntegrationBranch call r with
        | none => (.ends none, r)
        | some r =>
          match heldWithoutSharedHistory branch call r with
          | some result => (.ends (some result), r)
          | none => (.goesOn, r)

/-! ## `_refresh_branch` -/

/-- One worktree of `_align_worktrees`: skipped, moved, or in the way. -/
inductive Alignment where
  | skipped
  | moved (checkout : Checkout Path Blob)
  | stuck

def alignWorktree (fails : String → Bool) (branch : Branch) (before : Option Files)
    (after : Files) (w : Worktree) : Alignment :=
  if w.head ≠ .branch branch then .skipped
  else if w.prunable then .skipped
  -- the directory is gone, and `subprocess` raises
  else if w.missing then .stuck
  else if fails w.path then .stuck
  else
    match before.bind fun before => move before after w.checkout with
    | none => .stuck
    | some c => .moved c

/-- `_align_worktrees`: the worktrees behind it, and the one it left stale. -/
def alignWorktrees (fails : String → Bool) (branch : Branch) (before : Option Files)
    (after : Files) : List Worktree → List Worktree × Option String
  | [] => ([], none)
  | w :: rest =>
    match alignWorktree fails branch before after w with
    | .stuck => (w :: rest, some w.path)
    | .skipped =>
      let aligned := alignWorktrees fails branch before after rest
      (w :: aligned.1, aligned.2)
    | .moved c =>
      let aligned := alignWorktrees fails branch before after rest
      ({ w with checkout := c } :: aligned.1, aligned.2)

/-- `is_ancestor`, of two branches. -/
def branchContained (r : Repo) (branch target : Branch) : Bool :=
  match r.heads branch, r.heads target with
  | some b, some t => r.isAncestor b t
  | _, _ => false

def refreshMerge (branch : Branch) (call : Call) (r : Repo) : MergeOutcome × Repo :=
  mergeTips mergeTree (fun step => call.fails (.refresh step)) none r branch call.target

/-- The tree the branch stood at, as `rev` read it. -/
def readBefore (branch : Branch) (call : Call) (r : Repo) : Option Files :=
  if call.fails .before then none else (r.heads branch).map r.tree

def refreshBranch (branch : Branch) (call : Call) (r : Repo) : Option LandResult × Repo :=
  if call.fails .refreshNeeded = false ∧ branchContained r branch call.target = true then (none, r)
  else
    match refreshMerge mergeTree branch call r with
    | (.refused files, r') => (some (refuse .refresh files), r')
    | (.contained _, r') => (none, r')
    | (.merged after, r') =>
      if call.fails .worktreeList then (some (refuse .unlisted []), r')
      else
        let aligned := alignWorktrees (fun path => call.fails (.readTree path)) branch
          (readBefore branch call r) (r'.tree after) r'.worktrees
        (aligned.2.map fun path => refuse (.stale path) [], r'.setWorktrees aligned.1)

/-- `land_ticket` behind its refresh: the branch is merged into its target. -/
def landMerge (branch : Branch) (call : Call) (r : Repo) : LandResult × Repo :=
  match mergeTips mergeTree (fun step => call.fails (.merge step)) (some call.verifies) r
    call.target branch with
  | (.refused files, r') => (refuse .merge files, r')
  | (.contained _, r') =>
    ({ ok := true, landedSha := some call.landedAt, skipped := some .alreadyLanded }, r')
  | (.merged sha, r') => ({ ok := true, landedSha := some sha }, r')

/-- `land_ticket` from its refresh on. -/
def landRefreshed (branch : Branch) (call : Call) (r : Repo) : LandResult × Repo :=
  let refreshed := refreshBranch mergeTree branch call r
  match refreshed.1 with
  | some failed => (failed, refreshed.2)
  | none => landMerge mergeTree branch call refreshed.2

/-- `land_ticket`: its result, unless it raises, and the repository it leaves. -/
def landTicket (branch : Branch) (call : Call) (r : Repo) : Option LandResult × Repo :=
  let entered := enter branch call r
  match entered.1 with
  | .ends result => (result, entered.2)
  | .goesOn =>
    let landed := landRefreshed mergeTree branch call entered.2
    (some landed.1, landed.2)

/-- A repository that only landings touch; what they moved the branch from and to is kept to be
    told about, read by nothing. -/
structure World where
  repo : Repo
  moves : List (Files × Files) := []

def World.land (branch : Branch) (w : World) (call : Call) : World :=
  let repo := (landTicket mergeTree branch call w.repo).2
  { repo := repo, moves := w.moves ++ [(w.repo.tip branch, repo.tip branch)] }

end Loregarden.Landing
