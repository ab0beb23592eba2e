import Loregarden.PythonText
import Mathlib.Data.String.Basic

/-! # A merge with no checkout

`git_merge_noco.py`: `merge_tips` and `advance_tips`, with the reading of the two tips they start
from. Each git command is one step; between two of them other processes move refs and write objects
as they like. `mergeTree` is what `git merge-tree` says of two commits. A command answers whether it
succeeded; what is asked of a commit's ancestors and of the verifier is part of the answer. The
words of a refusal are left out. -/

namespace Loregarden.RefMerge

open Text

abbrev Sha := String

/-- The refs by their full names; a tag stands for the commit it is peeled to. -/
abbrev Refs := String → Option Sha

structure CommitObject where
  tree : String
  parents : List Sha
  deriving DecidableEq

def heads (branch : String) : String := "refs/heads/" ++ branch

def isObjectId (name : String) : Bool :=
  name.length = 40 && name.toList.all fun c =>
    c.isDigit || ('a' ≤ c && c ≤ 'f') || ('A' ≤ c && c ≤ 'F')

/-- Where git looks for a name that is no object id, in order. -/
def candidates (name : String) : List String :=
  [name, "refs/" ++ name, "refs/tags/" ++ name, heads name, "refs/remotes/" ++ name,
    "refs/remotes/" ++ name ++ "/HEAD"]

/-- The commit a name on git's command line is read as. -/
def resolve (refs : Refs) (name : String) : Option Sha :=
  if isObjectId name then some name else (candidates name).findSome? refs

structure MergeAnswer where
  returncode : Nat
  stdout : String

structure MergeResult where
  tree : String
  conflicts : List String
  deriving DecidableEq

/-- The end of `_merge_tree`. -/
def readMergeTree (answer : MergeAnswer) : MergeResult :=
  match splitLines answer.stdout.toList with
  | [] => ⟨"", []⟩
  | first :: rest =>
    if answer.returncode = 0 then ⟨String.ofList (strip isSpace first), []⟩
    else if answer.returncode = 1 then
      ⟨String.ofList (strip isSpace first),
        ((rest.takeWhile fun line => strip isSpace line ≠ []).map fun line =>
          String.ofList (strip isSpace line))⟩
    else ⟨"", []⟩

/-! ## The call -/

/-- What the call was asked for: the branches, whether a verifier is given, and whether it is
    `advance_tips`. -/
structure Job where
  target : String
  source : String
  verified : Bool := false
  advance : Bool := false

structure Tips where
  target : Sha
  source : Sha
  deriving DecidableEq

/-- A merge on its way: the tips read, the commits merge-tree was run on, and its tree. -/
structure Merge where
  tips : Tips
  merged : Tips
  tree : String
  deriving DecidableEq

structure MergeOutcome where
  ok : Bool
  sha : Sha := ""
  alreadyContained : Bool := false
  conflictedFiles : List String := []
  signed : Option Bool := none
  deriving DecidableEq

inductive Phase where
  /-- `read_branch_tips` -/
  | reading
  /-- the `is_ancestor` of `advance_tips`, and its `update-ref` -/
  | advancing (tips : Tips)
  | forwarding (tips : Tips)
  /-- the `is_ancestor` of `merge_tips` -/
  | checking (tips : Tips)
  | merging (tips : Tips)
  /-- `signs_commits` -/
  | signing (m : Merge)
  | committing (m : Merge) (sign : Bool)
  | verifying (m : Merge) (sign : Bool) (sha : Sha)
  | updating (m : Merge) (sign : Bool) (sha : Sha)
  | done (outcome : MergeOutcome)
  deriving DecidableEq

structure Answer where
  ok : Bool := true
  /-- What `commit-tree` printed. -/
  sha : Sha := ""

structure World where
  refs : Refs
  objects : Sha → Option CommitObject
  phase : Phase := .reading
  /-- The tips the call read, the refs it moved and the verdicts it was given: kept to be told
      about, read by nothing. -/
  tips : Option Tips := none
  moves : List (String × Sha × Sha) := []
  verdicts : List (Sha × Bool) := []

inductive Event where
  /-- Another process moves, makes or deletes a ref. -/
  | moveRef (name : String) (value : Option Sha)
  /-- Another process writes an object. -/
  | writeObject (sha : Sha) (object : CommitObject)
  | git (answer : Answer)

def World.goTo (w : World) (phase : Phase) : World := { w with phase := phase }

def refused : MergeOutcome := { ok := false }

def contained (sha : Sha) : MergeOutcome := { ok := true, sha := sha, alreadyContained := true }

def setRef (refs : Refs) (name : String) (value : Option Sha) : Refs :=
  fun other => if other = name then value else refs other

/-- An object is named by its content: a name that is taken stays as it is. -/
def addObject (objects : Sha → Option CommitObject) (sha : Sha) (object : CommitObject) :
    Sha → Option CommitObject :=
  fun other => if other = sha ∧ objects other = none then some object else objects other

variable (mergeTree : Sha → Sha → MergeAnswer) (job : Job)

/-- The start of `merge_tips`, once both tips are there. -/
def mergeTips (w : World) (tips : Tips) : World :=
  if tips.source = tips.target then w.goTo (.done (contained tips.source))
  else w.goTo (.checking tips)

/-- `read_branch_tips`, and what of `merge_tips` or `advance_tips` comes before git again. -/
def readTips (w : World) (a : Answer) : World :=
  if !a.ok then w.goTo (.done refused)
  else
    match w.refs (heads job.source), w.refs (heads job.target) with
    | some source, some target =>
      let tips := ⟨target, source⟩
      let w := { w with tips := some tips }
      if job.advance then w.goTo (.advancing tips) else mergeTips w tips
    | _, _ => w.goTo (.done refused)

/-- `_merge_tree`, of the two names. -/
def runMergeTree (w : World) (tips : Tips) (a : Answer) : World :=
  match resolve w.refs job.target, resolve w.refs job.source with
  | some target, some source =>
    let result := readMergeTree (mergeTree target source)
    if !a.ok then w.goTo (.done refused)
    else if result.conflicts ≠ [] then
      w.goTo (.done { ok := false, conflictedFiles := result.conflicts })
    else if result.tree = "" then w.goTo (.done refused)
    else w.goTo (.signing ⟨tips, ⟨target, source⟩, result.tree⟩)
  | _, _ => w.goTo (.done refused)

def commitTree (w : World) (m : Merge) (sign : Bool) (a : Answer) : World :=
  let object : CommitObject := ⟨m.tree, [m.tips.target, m.tips.source]⟩
  if !a.ok then w.goTo (.done refused)
  -- no two objects have one name
  else if w.objects a.sha ≠ none ∧ w.objects a.sha ≠ some object then w
  else
    let w := { w with objects := addObject w.objects a.sha object }
    if job.verified then w.goTo (.verifying m sign a.sha) else w.goTo (.updating m sign a.sha)

/-- `update-ref`, from the tip that was read. -/
def updateRef (w : World) (old new : Sha) (a : Answer) (outcome : MergeOutcome) : World :=
  if a.ok ∧ w.refs (heads job.target) = some old then
    { w.goTo (.done outcome) with
      refs := setRef w.refs (heads job.target) (some new)
      moves := w.moves ++ [(heads job.target, old, new)] }
  else w.goTo (.done refused)

def runGit (w : World) (a : Answer) : World :=
  match w.phase with
  | .reading => readTips job w a
  | .advancing tips =>
    if !a.ok then mergeTips w tips
    else if tips.source = tips.target then w.goTo (.done (contained tips.source))
    else w.goTo (.forwarding tips)
  | .forwarding tips =>
    updateRef job w tips.target tips.source a { ok := true, sha := tips.source }
  | .checking tips =>
    if a.ok then w.goTo (.done (contained tips.source)) else w.goTo (.merging tips)
  | .merging tips => runMergeTree mergeTree job w tips a
  | .signing m => w.goTo (.committing m a.ok)
  | .committing m sign => commitTree job w m sign a
  | .verifying m sign sha =>
    let w := { w with verdicts := w.verdicts ++ [(sha, a.ok)] }
    if a.ok then w.goTo (.updating m sign sha) else w.goTo (.done refused)
  | .updating m sign sha =>
    updateRef job w m.tips.target sha a { ok := true, sha := sha, signed := some sign }
  | .done _ => w

def step (w : World) : Event → World
  | .moveRef name value => { w with refs := setRef w.refs name value }
  | .writeObject sha object => { w with objects := addObject w.objects sha object }
  | .git a => runGit mergeTree job w a

structure Initial (w : World) : Prop where
  phase : w.phase = .reading
  tips : w.tips = none
  moves : w.moves = []
  verdicts : w.verdicts = []

end Loregarden.RefMerge
