import Loregarden.PythonText

/-! # Conflicts looked for by merging

`get_conflict_preview` and `get_conflict_details` of `conflict_detector.py`. The probe merges in the
checkout it is asked about and then aborts. `Git` is what git makes of a merge and of its undoing,
and `Steps` how each process of one probe ends. `get_conflict_details` only reads files besides;
what it counts in them is left out. -/

namespace Loregarden.ConflictProbe

open Text

abbrev Path := List Char

inductive Sequencer where
  | rebase | cherryPick
  deriving DecidableEq

structure Checkout (Files Index Commit : Type) where
  files : Files
  index : Index
  head : Commit
  /-- `MERGE_HEAD`. -/
  mergeHead : Option Commit := none
  sequencer : Option Sequencer := none
  deriving DecidableEq

/-- What a merge comes to in a checkout with no merge and no cherry-pick in progress. -/
inductive Merging (Files Index : Type) where
  /-- It exits with an error: something is in its way, or it breaks off. -/
  | stopped (files : Files) (index : Index)
  | upToDate
  | started (files : Files) (index : Index) (clean : Bool)

structure Git (Files Index Commit : Type) where
  commitOf : List Char → Option Commit
  merging : Checkout Files Index Commit → Commit → Merging Files Index
  unmerged : Index → List Path
  /-- The working files and the index `reset --merge` leaves. -/
  resetMerge : Checkout Files Index Commit → Files × Index
  /-- A name as `diff --name-only` prints it. -/
  printed : Path → List Char
  /-- Merging two commits has no conflict, neither at a path nor of a directory's renames, which
      leave none unmerged. -/
  clean : Commit → Commit → Bool
  /-- The paths that merging two commits leaves unmerged. -/
  conflicting : Commit → Commit → List Path
  started_spec : ∀ {c target files index ends}, merging c target = .started files index ends →
    ends = clean c.head target ∧ unmerged index = conflicting c.head target
  clean_upToDate : ∀ {c target}, merging c target = .upToDate → clean c.head target = true

/-- How the aborting ends: it runs, it exits with an error, or `run_git` raises. -/
inductive Ending (State : Type) where
  | runs
  | fails (left : State)
  | raises (left : State) (text : String)

/-- How the processes of one probe end. A fetch that only fails is warned of. -/
structure Steps (State : Type) where
  fetchRaises : Option String := none
  /-- What a merge that is cut short leaves. -/
  mergeRaises : Option (State × String) := none
  diffRaises : Option String := none
  /-- What `diff -- file` prints, where it runs. -/
  diffOf : Path → Option (List Char) := fun _ => none
  abort : Ending State := .runs

def comparisonRef (branch : List Char) : List Char :=
  if "integration/".toList.isPrefixOf branch then branch else "origin/".toList ++ branch

structure ConflictDetails where
  conflictCount : Nat
  mergeBase : String
  targetBranch : List Char
  deriving DecidableEq

structure Preview where
  checked : Bool
  hasConflicts : Bool
  conflictingFiles : List Path := []
  summary : List Char
  autoMergeable : Bool
  conflictDetails : Option ConflictDetails := none
  error : Option String := none
  deriving DecidableEq

def couldNotCheck (text : String) : Preview :=
  { checked := false, hasConflicts := true,
    summary := "Could not check for conflicts: ".toList ++ text.toList, autoMergeable := false,
    error := some text }

def autoMergePatterns : List (List Char) :=
  ["*.json".toList, "*.lock".toList, "*.md".toList, "CHANGELOG*".toList]

/-- `_is_simple_conflict`, of what its `diff` prints. -/
def isSimpleConflict : Option (List Char) → Bool
  | none => false
  | some output =>
    ((output.splitOn '\n').filter fun line => strip isSpace line ≠ [] &&
      ! ["<<<<<<".toList, ">>>>>>".toList, "======".toList].any (·.isPrefixOf line)).length < 5

def checkAutoMergeable (diffOf : Path → Option (List Char)) (files : List Path) : Bool :=
  files.all fun file =>
    autoMergePatterns.any (fun pattern => (pattern.filter (· ≠ '*')).isSuffixOf file) ||
      isSimpleConflict (diffOf file)

/-- `_extract_conflict_files`, of what its `diff` prints. -/
def extractConflictFiles (stdout : List Char) : List Path :=
  ((strip isSpace stdout).splitOn '\n').filter (· ≠ [])

def conflictSummary (count : Nat) : List Char :=
  "Merge conflicts in ".toList ++ (toString count).toList ++ " file".toList ++
    if count ≠ 1 then "s".toList else []

section

variable {Files Index Commit : Type} (git : Git Files Index Commit)

/-- `diff --name-only --diff-filter=U`. -/
def Git.diffUnmerged (index : Index) : List Char :=
  (git.unmerged index).flatMap fun path => git.printed path ++ ['\n']

/-- A merge or a cherry-pick that is not concluded stops every other merge. -/
def Git.mergingOf (c : Checkout Files Index Commit) : Option Commit → Merging Files Index
  | none => .stopped c.files c.index
  | some target =>
    if c.mergeHead.isSome ∨ c.sequencer = some .cherryPick then .stopped c.files c.index
    else git.merging c target

/-- `merge --no-commit --no-ff`: whether it exits with zero, and the checkout behind it. -/
def Git.merge (c : Checkout Files Index Commit) (target : Option Commit) :
    Bool × Checkout Files Index Commit :=
  match git.mergingOf c target with
  | .stopped files index => (false, { c with files := files, index := index })
  | .upToDate => (true, c)
  | .started files index clean =>
    (clean, { c with files := files, index := index, mergeHead := target })

/-- `merge --abort`: whatever merge is in progress is reset. -/
def Git.abort (c : Checkout Files Index Commit) : Checkout Files Index Commit :=
  match c.mergeHead with
  | none => c
  | some _ =>
    { c with files := (git.resetMerge c).1, index := (git.resetMerge c).2, mergeHead := none }

/-- What the aborting of either branch leaves. -/
def leftBy (steps : Steps (Checkout Files Index Commit)) (c : Checkout Files Index Commit) :
    Checkout Files Index Commit :=
  match steps.abort with
  | .runs => git.abort c
  | .fails left | .raises left _ => left

/-- The answer, where the aborting before it does not raise. -/
def answerBehind (steps : Steps (Checkout Files Index Commit)) (answer : Preview) : Preview :=
  match steps.abort with
  | .raises _ text => couldNotCheck text
  | .runs | .fails _ => answer

def cleanMerge (targetBranch : List Char) : Preview :=
  { checked := true, hasConflicts := false, summary := "Clean merge with ".toList ++ targetBranch,
    autoMergeable := true }

def conflictsIn (diffOf : Path → Option (List Char)) (mergeBase : String)
    (targetBranch : List Char) (conflictFiles : List Path) : Preview :=
  { checked := true, hasConflicts := true, conflictingFiles := conflictFiles,
    summary := conflictSummary conflictFiles.length,
    autoMergeable := checkAutoMergeable diffOf conflictFiles,
    conflictDetails := some { conflictCount := conflictFiles.length, mergeBase := mergeBase,
                              targetBranch := targetBranch } }

/-- `get_conflict_preview`, and the checkout behind it. -/
def getConflictPreview (steps : Steps (Checkout Files Index Commit)) (mergeBase : String)
    (targetBranch : List Char) (c : Checkout Files Index Commit) :
    Preview × Checkout Files Index Commit :=
  match steps.fetchRaises, steps.mergeRaises with
  | some text, _ => (couldNotCheck text, c)
  | none, some (left, text) => (couldNotCheck text, left)
  | none, none =>
    match git.merge c (git.commitOf (comparisonRef targetBranch)) with
    | (true, merged) => (answerBehind steps (cleanMerge targetBranch), leftBy git steps merged)
    | (false, merged) =>
      match steps.diffRaises with
      | some text => (couldNotCheck text, merged)
      | none =>
        let conflictFiles := extractConflictFiles (git.diffUnmerged merged.index)
        (answerBehind steps (conflictsIn steps.diffOf mergeBase targetBranch conflictFiles),
          leftBy git steps merged)

/-- `get_conflict_details`: the files it reports, none where the merge is clean. -/
def getConflictDetails (steps : Steps (Checkout Files Index Commit)) (mergeBase : String)
    (targetBranch : List Char) (c : Checkout Files Index Commit) :
    Option (List Path) × Checkout Files Index Commit :=
  let (preview, left) := getConflictPreview git steps mergeBase targetBranch c
  (if preview.hasConflicts then some preview.conflictingFiles else none, left)

end

end Loregarden.ConflictProbe
