import Loregarden.ParentsFirstProofs
import Loregarden.PythonText

/-! # Whether a branch's work has landed, and a scan that remembers it

`branch_landed.py`. `Git` is what git answers of commits and `Refs` what it answers of names at one
moment; a call of either may fail besides, each on its own. A scan that a call ends by raising gives
no answer and leaves the memo. A set is the list of its members, the memo that of one repository,
and `str.casefold` a parameter. Of one branch, `Diffing` says what the two calls of `_check` answer
from the trees of the merge base, of the base and of the tip: the names of the first are printed,
without the old name of a rename, and the second reads them as pathspecs. -/

namespace Loregarden.BranchLanded

open Text ParentsFirst

abbrev Name := String

abbrev Path := List Char

abbrev Blob := Nat

inductive Side where
  | left | right
  deriving DecidableEq

structure Git (Commit : Type) where
  parents : Commit → List Commit
  tree : Commit → Path → Option Blob
  /-- The lines of `diff --name-only base...tip`, where it succeeds. -/
  nameOnly : Commit → Commit → Option (List Path)
  /-- The exit code of `diff --quiet base tip -- files`. -/
  quiet : Commit → Commit → List Path → Nat
  /-- `rev-list --left-right old...new`. -/
  leftRight : Commit → Commit → List (Side × Commit)
  /-- `rev-list --parents --topo-order --reverse tips ^old`. -/
  revList : List Commit → Commit → List (Commit × List Commit)
  /-- The paths of `diff-tree -r --no-renames --name-only -z old new`. -/
  diffTree : Commit → Commit → List Path

structure Refs (Commit : Type) where
  /-- `cat-file --batch-check` of `name^{commit}`. -/
  peel : Name → Option Commit
  nameOnly : Name → Name → Option (List Path)
  quiet : Name → Name → List Path → Nat

inductive Call (Commit : Type) where
  | resolve
  /-- The two of the `_check` of an unresolved name, by its place among them. -/
  | nameOnlyOf (place : Nat)
  | quietOf (place : Nat)
  /-- The two of the `_check` of a tip. -/
  | nameOnly (tip : Commit)
  | quiet (tip : Commit)
  | leftRight
  | revList
  | diffTree

def pathspecGlobChars : List Char := ['*', '?', '[', '\\']

structure Verdict where
  landed : Bool
  changedFiles : List Path

/-- `_check`, of what its two calls answer. -/
def check (nameOnly : Option (List Path)) (quiet : List Path → Nat) : Option Verdict :=
  match nameOnly with
  | none => none
  | some lines =>
    let changedFiles := lines.filter fun line => strip isSpace line ≠ []
    if changedFiles = [] then some { landed := true, changedFiles := [] }
    else
      let code := quiet changedFiles
      if code = 0 ∨ code = 1 then some { landed := code = 0, changedFiles := changedFiles }
      else none

def given {α : Type} (fails : Bool) (answer : Option α) : Option α :=
  if fails then none else answer

def codeGiven (fails : Bool) (code : Nat) : Nat := if fails then 128 else code

variable {Commit : Type} [DecidableEq Commit]

def branchWorkHasLanded (refs : Refs Commit) (base branch : Name) : Bool :=
  (check (refs.nameOnly base branch) (refs.quiet base branch)).any Verdict.landed

structure ScanMemo (Commit : Type) where
  baseSha : Commit
  byTip : Commit → Option Verdict

structure BaseAdvance (Commit : Type) where
  changedPaths : List Path
  rebasedTips : List Commit

section Scan

variable (git : Git Commit) (casefold : Char → List Char) (fails : Call Commit → Bool)

def tipsReaching (tips : List Commit) (oldBase : Commit) (newCommits : List Commit) :
    Option (List Commit) :=
  if newCommits = [] ∨ tips = [] then some []
  else
    (given (fails .revList) (some (git.revList tips oldBase))).map fun rows =>
      tips.filter (marks (fun commit => newCommits.contains commit) rows)

def baseAdvance (oldBase newBase : Commit) (tips : List Commit) : Option (BaseAdvance Commit) :=
  match given (fails .leftRight) (some (git.leftRight oldBase newBase)) with
  | none => none
  | some sides =>
    if sides.any (fun row => row.1 = .left) then none
    else
      match tipsReaching git fails tips oldBase (sides.map Prod.snd) with
      | none => none
      | some rebasedTips =>
        (given (fails .diffTree) (some (git.diffTree oldBase newBase))).map fun paths =>
          { changedPaths := paths, rebasedTips := rebasedTips }

def coveredPrefixes (paths : List Path) : List Path :=
  paths.flatMap fun path =>
    let parts := (path.flatMap casefold).splitOn '/'
    (List.range parts.length).map fun i => ['/'].intercalate (parts.take (i + 1))

def stillHolds (verdict : Verdict) (covered : List Path) : Bool :=
  verdict.changedFiles.all fun path =>
    !(path.head? == some ':' || path.any (pathspecGlobChars.contains ·)) &&
      !covered.contains (path.flatMap casefold)

def reusable (memo : Option (ScanMemo Commit)) (baseSha : Commit) (tips : List Commit) :
    Commit → Option Verdict :=
  match memo with
  | none => fun _ => none
  | some memo =>
    let carried := fun tip => if tips.contains tip then memo.byTip tip else none
    let kept := tips.filter fun tip => (carried tip).isSome
    if memo.baseSha = baseSha ∨ kept = [] then carried
    else
      match baseAdvance git fails memo.baseSha baseSha kept with
      | none => fun _ => none
      | some advance =>
        let covered := coveredPrefixes casefold advance.changedPaths
        fun tip =>
          if advance.rebasedTips.contains tip then none
          else (carried tip).filter fun verdict => stillHolds casefold verdict covered

def fresh (baseSha tip : Commit) : Option Verdict :=
  check (given (fails (.nameOnly tip)) (git.nameOnly baseSha tip))
    fun files => codeGiven (fails (.quiet tip)) (git.quiet baseSha tip files)

/-- The names among those that did not resolve whose own check says landed. -/
def landedUnresolved (refs : Refs Commit) (base : Name) (unresolved : List Name) : List Name :=
  (unresolved.zipIdx.filter fun row =>
    (check (given (fails (.nameOnlyOf row.2)) (refs.nameOnly base row.1))
      (fun files => codeGiven (fails (.quietOf row.2)) (refs.quiet base row.1 files))).any
        Verdict.landed).map Prod.fst

/-- `landed_branches`: the names it returns, and the memo behind it. -/
def landedBranches (refs : Refs Commit) (memo : Option (ScanMemo Commit)) (base : Name)
    (branches : List Name) : List Name × Option (ScanMemo Commit) :=
  if branches = [] then ([], memo)
  else
    let tipOf := fun name => given (fails .resolve) (refs.peel name)
    match tipOf base with
    -- where the base does not resolve, no branch is taken to
    | none => (landedUnresolved fails refs base branches, memo)
    | some baseSha =>
      let unresolved := branches.filter fun name => (tipOf name).isNone
      let tips := branches.filterMap tipOf
      let reused := reusable git casefold fails memo baseSha tips
      let byTip := fun tip =>
        (reused tip).or (if tips.contains tip then fresh git fails baseSha tip else none)
      (landedUnresolved fails refs base unresolved ++ branches.filter fun name =>
          ((tipOf name).bind byTip).any Verdict.landed,
        some { baseSha := baseSha, byTip := byTip })

end Scan

structure World (Commit : Type) where
  refs : Refs Commit
  memo : Option (ScanMemo Commit) := none

inductive Event (Commit : Type) where
  /-- The base, the branches or anything else moves. -/
  | move (refs : Refs Commit)
  | scan (base : Name) (branches : List Name) (fails : Call Commit → Bool)
  /-- A scan in which a call raises. -/
  | scanRaises (base : Name) (branches : List Name)

def World.after (git : Git Commit) (casefold : Char → List Char) (w : World Commit) :
    Event Commit → World Commit
  | .move refs => { w with refs := refs }
  | .scan base branches fails =>
    { w with memo := (landedBranches git casefold fails w.refs w.memo base branches).2 }
  | .scanRaises _ _ => w

end Loregarden.BranchLanded

namespace Loregarden.LandedPaths

open BranchLanded

structure Entry where
  mode : Nat
  blob : Blob
  deriving DecidableEq

structure Tree where
  entries : List (Path × Entry)

def Tree.at (tree : Tree) (path : Path) : Option Entry := tree.entries.lookup path

def Tree.paths (tree : Tree) : List Path := tree.entries.map Prod.fst

/-- What an argument after `--` is read as: the paths it takes, or those it leaves out. -/
inductive Pathspec where
  | takes (selects : Path → Bool)
  | leavesOut (selects : Path → Bool)

structure Diffing where
  /-- A name as it is printed without `-z`. -/
  printed : Path → List Char
  /-- The renames found between two trees, old name first. -/
  renames : Tree → Tree → List (Path × Path)
  /-- What an argument after `--` is read as, where git takes it. -/
  reads : List Char → Option Pathspec

/-- What pathspecs select together: what one takes, or all where none takes, less what one
    leaves out. -/
def selects (specs : List Pathspec) (path : Path) : Bool :=
  (specs.any (fun | .takes p => p path | .leavesOut _ => false) ||
      specs.all fun | .takes _ => false | .leavesOut _ => true) &&
    specs.all fun | .takes _ => true | .leavesOut p => !p path

/-- The paths that arguments after `--` select, where git takes them. -/
def Diffing.pathspec (git : Diffing) (names : List (List Char)) : Option (Path → Bool) :=
  if names.all fun name => (git.reads name).isSome then
    some (selects (names.filterMap git.reads))
  else none

/-- The paths at which two trees differ. -/
def changed (old new : Tree) : List Path :=
  (old.paths ++ new.paths).dedup.filter fun path => old.at path ≠ new.at path

/-- The paths of `diff`: a rename goes under its new name. -/
def Diffing.shown (git : Diffing) (old new : Tree) : List Path :=
  (changed old new).filter fun path => !(git.renames old new).any (·.1 = path)

/-- The three trees that a base and a branch stand for, and which of the two calls fails. -/
structure Compared where
  mergeBase : Tree
  base : Tree
  tip : Tree
  nameOnlyFails : Bool := false
  quietFails : Bool := false

/-- The exit code of `diff --quiet base tip -- files`. -/
def Diffing.quiet (git : Diffing) (c : Compared) (files : List Path) : Nat :=
  codeGiven c.quietFails <|
    match git.pathspec files with
    | none => 128
    | some selected => if (changed c.base c.tip).any selected then 1 else 0

def Diffing.refs (git : Diffing) (c : Compared) : Refs Unit where
  peel _ := some ()
  nameOnly _ _ := given c.nameOnlyFails (some ((git.shown c.mergeBase c.tip).map git.printed))
  quiet _ _ := git.quiet c

end Loregarden.LandedPaths
