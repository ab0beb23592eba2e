import Mathlib.Logic.Relation

/-! # Whether a branch's work is on a ref, and since which commit

`landing_commit` of `work_landed.py`, with `superseding_commit` and `adds_nothing` of
`git_merge_noco.py`, and `first_containing` of the same. `none` stands for a call of git that fails,
and for the `RuntimeError` it is turned into. -/

namespace Loregarden.WorkLanded

inductive Merged (Tree : Type) where
  | clean (tree : Tree)
  | conflicts
  | failed
  deriving DecidableEq

structure Git (Commit Tree : Type) where
  treeOf : Commit → Tree
  /-- `merge-base --is-ancestor`. -/
  isAncestor : Commit → Commit → Bool
  /-- `merge-tree --write-tree target source`. -/
  mergeTree : Commit → Commit → Merged Tree
  /-- `merge-base`, which answers that there is none. -/
  mergeBase : Commit → Commit → Option (Option Commit)
  /-- The lines of `diff --name-only --no-renames`. -/
  nameOnly : Commit → Commit → Option (List (List Char))
  /-- `rev-list ref ^branch -- paths`. -/
  revList : Commit → Commit → List (List Char) → Option (List Commit)
  isAncestor_refl : ∀ c, isAncestor c c = true
  isAncestor_trans : ∀ {a b c}, isAncestor a b = true → isAncestor b c = true →
    isAncestor a c = true
  mergeBase_on : ∀ {one other fork}, mergeBase one other = some (some fork) →
    isAncestor fork one = true ∧ isAncestor fork other = true
  revList_on : ∀ {ref branch paths listed}, revList ref branch paths = some listed →
    ∀ c ∈ listed, isAncestor c ref = true ∧ isAncestor c branch = false

def supersedeScanLimit : Nat := 200

section

variable {Commit Tree : Type} [DecidableEq Commit] [DecidableEq Tree] (git : Git Commit Tree)

/-- Merging the branch into the commit is clean, and leaves it unchanged. -/
def Git.holds (commit branch : Commit) : Bool :=
  git.mergeTree commit branch = .clean (git.treeOf commit)

def addsNothing (base branch : Commit) : Option Bool :=
  if branch = base ∨ git.isAncestor branch base then some true
  else if git.mergeTree base branch = .failed then none
  else some (git.holds base branch)

/-- The commits `superseding_commit` tries, newest first. -/
def candidates (branch base : Commit) : Option (List Commit) :=
  match git.mergeBase base branch with
  | none => none
  | some none => some []
  | some (some fork) =>
    match git.nameOnly fork branch with
    | none => none
    | some lines =>
      let paths := lines.filter (· ≠ [])
      if paths = [] then some []
      else (git.revList base branch paths).map (List.take supersedeScanLimit)

def supersedingCommit (branch base : Commit) : Option (Option Commit) :=
  (candidates git branch base).map fun listed => listed.reverse.find? (git.holds · branch)

/-- The end of `landing_commit`: a branch whose commits cancel out is held by its fork point. -/
def forkHolding (branch ref : Commit) : Option (Option Commit) :=
  match git.mergeBase branch ref with
  | none => none
  | some none => some none
  | some (some fork) =>
    (addsNothing git fork branch).map fun nothing => if nothing then some fork else none

def landingCommit (branch ref : Commit) : Option (Option Commit) :=
  if branch = ref ∨ git.isAncestor branch ref then some (some branch)
  else
    match supersedingCommit git branch ref with
    | none => none
    | some (some holder) => some (some holder)
    | some none => forkHolding git branch ref

end

end Loregarden.WorkLanded

namespace Loregarden.FirstContaining

open Relation

variable {Commit : Type}

/-- A commit is the other or a descendant of it. -/
def Contains (parents : Commit → List Commit) : Commit → Commit → Prop :=
  ReflTransGen fun child parent => parent ∈ parents child

/-- A commit graph with its dates, and what git documents of two walks over it. Where a child is
    dated before its parent the walk may list the parent first: such histories are left out. -/
structure History (Commit : Type) where
  parents : Commit → List Commit
  date : Commit → Int
  /-- `rev-list --ancestry-path commit..ref`. -/
  ancestryPath : Commit → Commit → List Commit
  /-- `merge-base --is-ancestor`. -/
  isAncestor : Commit → Commit → Bool
  mem_ancestryPath : ∀ {commit ref x}, x ∈ ancestryPath commit ref ↔
    x ≠ commit ∧ Contains parents x commit ∧ Contains parents ref x
  newest_first : ∀ commit ref, (ancestryPath commit ref).Pairwise fun x y => date y ≤ date x
  isAncestor_iff : ∀ {commit ref}, isAncestor commit ref = true ↔ Contains parents ref commit

/-- `first_containing`, where git answers. -/
def firstContaining (git : History Commit) (commit ref : Commit) : Option Commit :=
  match (git.ancestryPath commit ref).getLast? with
  | some last => some last
  | none => if git.isAncestor commit ref then some commit else none

end Loregarden.FirstContaining
