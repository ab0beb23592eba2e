import Loregarden.LaneModel

/-! # Whether a path may go to the Trash

`disk_usage/safety.py` and `checkout_guard.py`: every check names something that would be lost, and
a path is allowed when none fires. The file tree is a value; a symlink is one whatever it points at,
and a path that runs through one is refused as such. What git and the process list answer are
arguments. The fingerprint of a verdict and the sizes of a scan decide nothing and are left out. -/

namespace Loregarden.Disk

open Lanes (TicketState)

abbrev Path := List String

/-- `str(path)`. -/
def Path.text (path : Path) : String := "/" ++ "/".intercalate path

inductive Node where
  | file
  | symlink
  /-- A folder that cannot be listed, and why. -/
  | locked (reason : String)
  | dir (entries : List (String × Node))

namespace Node

/-- `os.DirEntry.is_dir(follow_symlinks=False)`. -/
def isDir : Node → Bool
  | dir _ => true
  | locked _ => true
  | _ => false

def isSymlink : Node → Bool
  | symlink => true
  | _ => false

def isFile : Node → Bool
  | file => true
  | _ => false

def at_ : Node → Path → Option Node
  | node, [] => some node
  | dir entries, name :: rest =>
    match entries.find? (·.1 = name) with
    | none => none
    | some entry => entry.2.at_ rest
  | _, _ :: _ => none

def throughSymlink : Node → Path → Bool
  | dir entries, name :: rest =>
    match entries.find? (·.1 = name) with
    | none => false
    | some entry => (entry.2.isSymlink && rest ≠ []) || entry.2.throughSymlink rest
  | _, _ => false

end Node

/-! ## Kinds -/

/-- `DiskKind`, what a verdict says of a path. -/
inductive DiskKind where
  | dependencies | buildOutput | cache | worktree | gitStore | directory | file
  deriving DecidableEq

def regenerableKinds : List DiskKind := [.dependencies, .buildOutput, .cache]

def dependencyNames : List String :=
  ["node_modules", ".venv", "venv", "bower_components", "Pods", "site-packages"]

def buildOutputNames : List String :=
  ["dist", "build", "target", ".next", ".nuxt", ".svelte-kit", ".turbo", ".parcel-cache",
   "coverage", "htmlcov", "__pycache__", ".pytest_cache", ".mypy_cache", ".ruff_cache", ".tox",
   "DerivedData", ".gradle"]

def cacheNames : List String := [".cache", "Caches", ".npm", ".pnpm-store"]

def kindForName (name : String) : Option DiskKind :=
  if name ∈ dependencyNames then some .dependencies
  else if name ∈ buildOutputNames then some .buildOutput
  else if name ∈ cacheNames then some .cache
  else if name = ".git" then some .gitStore
  else none

/-- A folder of this name is put back by a package manager, a build or an app. -/
def regenerableName (name : String) : Bool := (kindForName name).any (· ∈ regenerableKinds)

def isRelativeTo (path guarded : Path) : Bool := guarded.isPrefixOf path

def regenerableKind (path root : Path) : Option DiskKind :=
  if path = root then none
  else ((path.drop root.length).reverse.find? regenerableName).bind kindForName

/-! ## The search for what nothing regenerates -/

def preciousSuffixes : List String :=
  [".db", ".sqlite", ".sqlite3", ".pem", ".key", ".p12", ".pfx", ".kdbx"]

def preciousNames : List String :=
  ["id_rsa", "id_ed25519", "credentials", "credentials.json", "secrets.json", ".netrc", ".npmrc",
   ".pypirc"]

def envTemplates : List String := [".env.example", ".env.sample", ".env.template"]

def preciousWalkCap : Nat := 200000

def maxNamed : Nat := 5

def named (paths : List String) : String :=
  let shown := ", ".intercalate (paths.take maxNamed)
  if maxNamed < paths.length then s!"{shown} and {paths.length - maxNamed} more" else shown

def isPrecious (name : String) : Bool :=
  if name ∈ envTemplates then false
  else name = ".env" || ".env.".toList.isPrefixOf name.toList || name ∈ preciousNames ||
    preciousSuffixes.any fun suffix => suffix.toList.isSuffixOf name.toList

/-- A walk under way: the folders to list, the entries seen, the hits. -/
structure Walk where
  stack : List (Path × Node)
  seen : Nat := 0
  hits : List String := []

def visit (w : Walk) (folder : Path) (name : String) (node : Node) : Walk :=
  if node.isSymlink then w
  else if ¬ node.isDir then
    if isPrecious name then { w with hits := w.hits ++ [Path.text (folder ++ [name])] } else w
  else if name = ".git" then { w with hits := w.hits ++ [Path.text (folder ++ [name])] }
  else if ¬ regenerableName name then { w with stack := (folder ++ [name], node) :: w.stack }
  else w

/-- The entries of one folder, and whether the walk is still under its cap. -/
def visitAll (w : Walk) (folder : Path) : List (String × Node) → Walk × Bool
  | [] => (w, true)
  | (name, node) :: rest =>
    if preciousWalkCap < w.seen + 1 then ({ w with seen := w.seen + 1 }, false)
    else visitAll (visit { w with seen := w.seen + 1 } folder name node) folder rest

/-- The loop of `find_precious`, so many folders of it; every folder but the first was
    counted when it was pushed, so the cap bounds them. -/
def walk : Nat → Walk → List String × Bool
  | 0, w => (w.hits, w.stack.isEmpty)
  | folders + 1, w =>
    match w.stack with
    | [] => (w.hits, true)
    | (folder, node) :: stack =>
      match node with
      | .locked reason =>
        walk folders { w with
          stack := stack
          hits := w.hits ++ [s!"{Path.text folder} (unreadable: {reason})"] }
      | .dir entries =>
        match visitAll { w with stack := stack } folder entries with
        | (left, false) => (left.hits, false)
        | (left, true) => walk folders left
      | _ => walk folders { w with stack := stack }

def findPrecious (fs : Node) (root : Path) : List String × Bool :=
  if (fs.at_ root).any Node.isSymlink || regenerableName (root.getLast?.getD "") then ([], true)
  else
    match fs.at_ root with
    | none => ([s!"{root.text} (unreadable: No such file or directory)"], true)
    | some .file => (if isPrecious (root.getLast?.getD "") then [root.text] else [], true)
    | some node => walk (preciousWalkCap + 1) { stack := [(root, node)] }

/-! ## Git -/

structure WorktreeRef where
  path : Path
  repoRoot : Path
  branch : String
  isMain : Bool

structure Git where
  /-- `worktree list --porcelain`. -/
  worktreeList : Path → Option (List WorktreeRef)
  /-- `rev-parse --show-toplevel`. -/
  showToplevel : Path → Option Path
  /-- The main working tree, from `rev-parse --git-common-dir`. -/
  mainWorkingTree : Path → Option Path
  /-- `ls-files`, in a working tree, of a path in it. -/
  lsFiles : Path → Path → Option (List String)
  /-- `status --porcelain --untracked-files=all`, in a working tree, of a path in it. -/
  status : Path → Path → Option (List String)
  /-- The ignored entries of `status --ignored=matching`, relative to the working tree. -/
  ignoredEntries : Path → Option (List Path)
  /-- `rev-list --count HEAD --not --branches --tags --remotes`. -/
  strandedCommits : Path → Option Nat

/-- `KeepReason`, the two that `checkout_loss` gives. -/
inductive KeepReason where
  | uncommitted | strandedHead

/-- `KeepReason.STRANDED_HEAD`. -/
def strandedHeadText : String := "a commit no branch or tag reaches"

def isDirty (git : Git) (path : Path) : Bool :=
  match git.status path path with
  | none => true
  | some lines => lines ≠ []

def hasStrandedCommits (git : Git) (path : Path) : Bool :=
  match git.strandedCommits path with
  | none => true
  | some total => 0 < total

def checkoutLoss (git : Git) (path : Path) : Option KeepReason :=
  if isDirty git path then some .uncommitted
  else if hasStrandedCommits git path then some .strandedHead
  else none

def isMainWorkingTree (path : Path) : Option Path → Bool
  | none => true
  | some mainTree => path = mainTree

/-- The precious files under the ignored entries, or the sentence that refuses. -/
def preciousUnder (fs : Node) (path : Path) : List Path → Except String (List String)
  | [] => .ok []
  | entry :: rest =>
    match findPrecious fs (path ++ entry) with
    | (_, false) =>
      .error ("Too many ignored files under " ++ "/".intercalate entry ++ " to check them all.")
    | (hits, true) => (preciousUnder fs path rest).map (hits ++ ·)

def checkoutRemovalRefusal (fs : Node) (git : Git) (path : Path) : Option String :=
  if (fs.at_ path).isNone then none
  else if isMainWorkingTree path (git.mainWorkingTree path) then
    some "It is the repository's main checkout, or git could not say which checkout is main."
  else
    match checkoutLoss git path with
    | some .uncommitted =>
      some "It has uncommitted or untracked changes that exist nowhere else."
    | some .strandedHead =>
      some (s!"HEAD holds {strandedHeadText}. Put a branch or tag on it before removing " ++
        "the checkout.")
    | none =>
      match git.ignoredEntries path with
      | none => some "git could not list what this worktree ignores."
      | some ignored =>
        match preciousUnder fs path ignored with
        | .error sentence => some sentence
        | .ok [] => none
        | .ok precious =>
          some (s!"It holds ignored files nothing regenerates: {named precious}. " ++
            "Move or delete them first.")

/-! ## The checks -/

/-- A `Worktree` row that owns a checkout. -/
structure Owner where
  chatSessionId : String := ""
  ticketId : String := ""

/-- `SafetyContext`, and what is read of its `ScanPlan`. -/
structure SafetyContext where
  /-- `ScanPlan.roots`. -/
  roots : List Path
  /-- `ScanPlan.worktrees`. -/
  worktrees : List (Path × WorktreeRef)
  isProtected : List Path
  loregardenData : Path
  /-- Pid, command and working directory of every visible process. -/
  processCwds : Option (List (String × String × Path))
  worktreeRows : List (Path × Owner) := []
  ticketStates : List (String × TicketState) := []

inductive DiskCleanupMethod where
  | trash | trashWorktree

structure Verdict where
  path : String
  kind : DiskKind
  allowed : Bool
  method : Option DiskCleanupMethod := none
  reasons : List String := []
  notes : List String := []
  worktreeRepo : String := ""

/-- `_check_shape`: the components of an absolute, normalized path, and its node. -/
def checkShape (fs : Node) (path : Option Path) : Except String (Path × Node) :=
  match path with
  | none => .error "Not an absolute, normalized path."
  | some path =>
    if fs.throughSymlink path then .error "Its path runs through a symlinked folder."
    else
      match fs.at_ path with
      | none => .error "It no longer exists."
      | some node =>
        if node.isSymlink then
          .error "It is a symlink; removing it would not free what it points at."
        else .ok (path, node)

/-- `ctx.plan.worktrees.get(path)`. -/
def SafetyContext.ref (ctx : SafetyContext) (path : Path) : Option WorktreeRef :=
  (ctx.worktrees.find? (·.1 = path)).map (·.2)

/-- `_scan_root_for`, over the roots that are left. -/
def scanRootFor (ctx : SafetyContext) (path : Path) : List Path → Except String Path
  | [] => .error "It is outside every scanned folder."
  | root :: rest =>
    if path = root then
      -- a lone worktree outside its checkout is scanned as its own root
      if (ctx.ref path).any (¬ ·.isMain) then .ok root
      else .error "It is a scanned folder itself. Remove it from the scan instead."
    else if isRelativeTo path root then .ok root
    else scanRootFor ctx path rest

def checkProtected (ctx : SafetyContext) (path : Path) : Except String Unit :=
  match ctx.isProtected.find? (isRelativeTo · path) with
  | some guarded =>
    .error s!"It is or contains {Path.text guarded}, which cleanup never touches."
  | none =>
    if isRelativeTo path ctx.loregardenData then
      .error "It is loregarden's own data. Its runs and database live there."
    else if ".git" ∈ path then .error "It is inside a git object store."
    else .ok ()

def checkInUse (ctx : SafetyContext) (path : Path) : Except String Unit :=
  match ctx.processCwds with
  | none =>
    .error "Could not list running processes, so cannot tell whether one is using it."
  | some processes =>
    let users := (processes.filter fun process => isRelativeTo process.2.2 path).map fun process =>
      (if process.2.1 = "" then "process" else process.2.1) ++ s!" (pid {process.1})"
    if users ≠ [] then .error s!"In use: {named users} is working inside it." else .ok ()

def terminalTicketStates : List TicketState := [.done, .wontDo]

def owningRowRefusal (ctx : SafetyContext) (path : Path) : Option String :=
  match (ctx.worktreeRows.find? (·.1 = path)).map (·.2) with
  | none => none
  | some row =>
    if row.chatSessionId ≠ "" then
      some "A Home chat thread owns this worktree. Delete the thread to release it."
    else if row.ticketId ≠ "" ∧ ((ctx.ticketStates.find? (·.1 = row.ticketId)).any fun state =>
          state.2 ∈ terminalTicketStates) then none
    else some "An unfinished ticket's run owns this worktree."

def assessWorktree (fs : Node) (git : Git) (ctx : SafetyContext) (path : Path)
    (ref : WorktreeRef) : Except String Verdict :=
  if ref.isMain then .error "It is the repository's main checkout."
  else
    match owningRowRefusal ctx path with
    | some owned => .error owned
    | none =>
      match checkoutRemovalRefusal fs git path with
      | some refusal => .error refusal
      | none =>
        let branch := if ref.branch = "" then "its detached HEAD" else ref.branch
        .ok { path := path.text, kind := .worktree, allowed := true
              method := some .trashWorktree
              notes := [s!"Branch {branch} keeps every commit. Only the checkout goes.",
                s!"Afterwards git forgets the worktree ({Path.text ref.repoRoot})."]
              worktreeRepo := Path.text ref.repoRoot }

def discoverWorktree (fs : Node) (git : Git) (path : Path) : Except String (Option WorktreeRef) :=
  if ¬ (fs.at_ (path ++ [".git"])).any Node.isFile then .ok none
  else
    match git.worktreeList path with
    | none => .error "git could not say which repository this checkout belongs to."
    | some refs =>
      .ok ((refs.find? (·.path = path)).map fun found =>
        { found with repoRoot := (refs.head?.map (·.path)).getD found.repoRoot })

/-- The worktree a path is judged as: one the scan knows, or one its `.git` file names. -/
def worktreeAt (fs : Node) (git : Git) (ctx : SafetyContext) (path : Path) :
    Except String (Option WorktreeRef) :=
  match ctx.ref path with
  | some ref => .ok (some ref)
  | none => discoverWorktree fs git path

/-- `max(known, key=lambda p: len(p.parts))`: the deepest. -/
def deepest : List Path → Option Path
  | [] => none
  | path :: rest =>
    match deepest rest with
    | none => some path
    | some other => if path.length < other.length then some other else some path

def containingTree (git : Git) (ctx : SafetyContext) (path : Path) (node : Node) : Option Path :=
  match deepest ((ctx.worktrees.map (·.1)).filter (isRelativeTo path ·)) with
  | some tree => some tree
  | none => git.showToplevel (if node.isDir then path else path.dropLast)

def assessInTree (fs : Node) (git : Git) (path tree root : Path) (kind : DiskKind) :
    Except String Verdict :=
  match git.lsFiles tree path with
  | none => .error "git could not list the tracked files here."
  | some tracked =>
    if tracked ≠ [] then
      .error s!"{tracked.length} file(s) here are tracked by git. Remove them through git."
    else
      match git.status tree path with
      | none => .error "git could not list the untracked files here."
      | some untracked =>
        if untracked ≠ [] then
          .error s!"{untracked.length} untracked file(s) here exist nowhere else."
        else
          let verdict (notes : List String) : Verdict :=
            { path := path.text, kind := kind, allowed := true, method := some .trash
              notes := "git ignores everything here." :: notes }
          if (regenerableKind path root).isNone then
            match findPrecious fs path with
            | (_, false) => .error "Too many files to check for irreplaceable ones."
            | ([], true) => .ok (verdict [])
            | (hits, true) =>
              .error s!"It holds files nothing regenerates: {named hits}."
          else .ok (verdict ["A package manager or build puts it back."])

/-- `assess`, up to the refusal it raises. -/
def judge (fs : Node) (git : Git) (ctx : SafetyContext) (path : Option Path) :
    Except String Verdict := do
  let (path, node) ← checkShape fs path
  let root ← scanRootFor ctx path ctx.roots
  let kind := (regenerableKind path root).getD (if node.isDir then .directory else .file)
  checkProtected ctx path
  checkInUse ctx path
  match ← worktreeAt fs git ctx path with
  | some ref => assessWorktree fs git ctx path ref
  | none =>
    match containingTree git ctx path node with
    | some tree => assessInTree fs git path tree root kind
    | none =>
      if kind ∈ regenerableKinds then
        pure { path := path.text, kind := kind, allowed := true, method := some .trash
               notes := ["A package manager, build or app puts it back."] }
      else
        throw ("Not in git and not a dependency, build or cache folder, so loregarden " ++
          "cannot tell what it holds. Delete it yourself if you are sure.")

/-- The kind a verdict names, as far as the checks came. -/
def kindFor (fs : Node) (ctx : SafetyContext) (path : Option Path) : DiskKind :=
  match checkShape fs path with
  | .error _ => .directory
  | .ok (path, node) =>
    let kind : DiskKind := if node.isDir then .directory else .file
    match scanRootFor ctx path ctx.roots with
    | .error _ => kind
    | .ok root => (regenerableKind path root).getD kind

/-- `assess`; none stands for a text that is no absolute, normalized path. -/
def assess (fs : Node) (git : Git) (ctx : SafetyContext) (path : Option Path) : Verdict :=
  match judge fs git ctx path with
  | .ok verdict => verdict
  | .error reason =>
    { path := (path.map Path.text).getD "", kind := kindFor fs ctx path, allowed := false
      reasons := [reason] }

end Loregarden.Disk
