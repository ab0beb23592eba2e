import Loregarden.MergeQueueModel

/-! # The merge queue's loop

`MergeQueueLoop`: stage the merged result, wait for its checks, land exactly that tree. A `Phase` is
where the loop stands, with its entry as it last read it; an `Answer` is what it waits for there:
the table, git, or GitHub, whose readings may be anything. -/

namespace Loregarden.MergeQueue

open Ranked

/-! ## What GitHub and git answer -/

inductive PullRequestState where
  | opened | merged | closed
  deriving DecidableEq

inductive PullRequestCheckOutcome where
  | passing | failing | pending
  /-- Skipped or neutral: ran, and asks nothing of anyone. -/
  | skipped
  deriving DecidableEq

/-- One check, as GitHub lists it: a check run or a status. -/
structure GhCheck where
  name : String := ""
  context : String := ""
  status : String := ""
  conclusion : String := ""
  state : String := ""
  deriving DecidableEq

/-- `StagedPullRequest`: GitHub's reading of the queue's pull request at one moment. -/
structure StagedPullRequest where
  state : PullRequestState := .opened
  headSha : Sha := ""
  /-- The tree of the commit GitHub would merge. -/
  headTree : Sha := ""
  /-- The base tip GitHub compares the head against. -/
  baseSha : Sha := ""
  mergeCommit : Sha := ""
  mergeTree : Sha := ""
  checks : List GhCheck := []
  deriving DecidableEq

def checkName (check : GhCheck) : String :=
  if check.name ≠ "" then check.name
  else if check.context ≠ "" then check.context
  else "unnamed check"

def pendingStates : List String :=
  ["PENDING", "EXPECTED", "QUEUED", "IN_PROGRESS", "WAITING", "REQUESTED"]

def checkOutcome (check : GhCheck) : PullRequestCheckOutcome :=
  let verdict := if check.conclusion ≠ "" then check.conclusion else check.state
  if check.status ≠ "" ∧ check.status ≠ "COMPLETED" ∨ verdict ∈ pendingStates then .pending
  else if verdict = "SUCCESS" then .passing
  else if verdict = "SKIPPED" ∨ verdict = "NEUTRAL" then .skipped
  else if verdict = "" then .pending
  else .failing

structure CheckReading where
  name : String
  outcome : PullRequestCheckOutcome

/-- The check of a name; of two with one name, the last. -/
def checkNamed (checks : List GhCheck) (name : String) : Option GhCheck :=
  checks.reverse.find? (checkName · = name)

/-- `read_required`: each required context's outcome on the commit; pending for one not
    yet reported. -/
def readRequired (checks : List GhCheck) (required : List String) : List CheckReading :=
  required.map fun name => ⟨name, ((checkNamed checks name).map checkOutcome).getD .pending⟩

def unreported (checks : List GhCheck) (required : List String) : List String :=
  required.filter fun name => name ∉ checks.map checkName

inductive MergeVerdict where
  | clean | conflicted | undetermined
  deriving DecidableEq

/-- What `cut` comes to. -/
structure Staged where
  verdict : MergeVerdict
  sha : Sha := ""
  tree : Sha := ""
  baseSha : Sha := ""
  deriving DecidableEq

/-! ## Phases -/

/-- What the loop does once a write went through and its entry was read again. -/
inductive After where
  /-- The cycle moves on. -/
  | done
  /-- `_stage`; the entry was chosen when it stood at this place. -/
  | stage (place : Nat)
  /-- `_conflicted`: file the artifact. -/
  | artifact
  /-- `_land`: assert the tree and merge. -/
  | merge (pr : StagedPullRequest)
  | confirm
  | wait
  | restage
  deriving DecidableEq

inductive Phase where
  | idle
  /-- `head_entry` answered; the entry stood at this place, and may have to be read again. -/
  | chosen (entry : MergeQueueEntry) (place : Nat) (expired : Bool)
  /-- About to write. -/
  | writing (entry : MergeQueueEntry) (expected : MergeQueueState) (fields : Fields)
      (after : After)
  /-- The write went through; the entry is about to be read again. -/
  | reloading (id : Nat) (after : After)
  | cutting (entry : MergeQueueEntry)
  | filing (entry : MergeQueueEntry)
  | pushing (entry : MergeQueueEntry) (staged : Staged)
  | waiting (entry : MergeQueueEntry)
  | landing (entry : MergeQueueEntry) (pr : StagedPullRequest)
  | asserting (entry : MergeQueueEntry) (pr : StagedPullRequest)
  /-- About to call `github.merge`. -/
  | merging (entry : MergeQueueEntry)
  | refused (entry : MergeQueueEntry)
  | confirming (entry : MergeQueueEntry)
  | resuming (entry : MergeQueueEntry)
  deriving DecidableEq

structure Settings where
  maxAttempts : Nat := 6
  checkTimeoutSeconds : Int := 5400

def stop (entry : MergeQueueEntry) (expected state : MergeQueueState) : Phase :=
  .writing entry expected { state := some state, wait := some .none } .done

/-- `_hold`, for a reason to wait. -/
def hold (entry : MergeQueueEntry) (expected : MergeQueueState) (wait : MergeQueueWait) : Phase :=
  .writing entry expected { wait := some wait } .done

def relabel (entry : MergeQueueEntry) (expected state : MergeQueueState) (after : After) : Phase :=
  .writing entry expected { state := some state } after

/-- `_restage`: discard the staged commit. -/
def restage (entry : MergeQueueEntry) : Phase :=
  .writing entry .testing { unstaged with state := some .queued, wait := some .baseMoved } .done

/-- `_stage`, past its first write. -/
def stage (cfg : Settings) (entry : MergeQueueEntry) : Phase :=
  if entry.attempts ≥ cfg.maxAttempts then stop entry .staging .failed else .cutting entry

/-- `_step`: advance the entry one step. -/
def step (cfg : Settings) (entry : MergeQueueEntry) (place : Nat) : Phase :=
  match entry.state with
  | .queued =>
    .writing entry .queued { state := some .staging, wait := some .none } (.stage place)
  | .staging => stage cfg entry
  | .testing => .waiting entry
  | .merging => .resuming entry
  | _ => .idle

/-- `_stage`, once the candidate is cut. -/
def afterCut (entry : MergeQueueEntry) (staged : Staged) : Phase :=
  match staged.verdict with
  | .conflicted =>
    .writing entry .staging { state := some .failed, wait := some .none } .artifact
  | .undetermined => stop entry .staging .failed
  | .clean => .pushing entry staged

/-- `_stage`, once the staged commit is pushed, or not. -/
def afterPush (entry : MergeQueueEntry) (staged : Staged) (ok : Bool) (now : Instant) : Phase :=
  if ¬ ok then
    .writing entry .staging
      { state := some .queued, attempts := some (entry.attempts + 1) } .done
  else
    .writing entry .staging
      { state := some .testing
        wait := some .checksUnreported
        stagedSha := some staged.sha
        stagedTree := some staged.tree
        stagedBaseSha := some staged.baseSha
        attempts := some (entry.attempts + 1)
        testingStartedAt := some (some now) } .done

def closedOutside (entry : MergeQueueEntry) (pr : StagedPullRequest) : Phase :=
  if pr.state = .merged ∧ pr.mergeTree = entry.stagedTree then
    relabel entry .testing .merging .confirm
  else
    .writing entry .testing
      { state := some .failed, wait := some .none, mergeCommit := some pr.mergeCommit,
        landedTree := some pr.mergeTree } .done

/-- `_wait`: GitHub's reading of the pull request and of the base's required contexts, or
    nothing when it could not be asked. -/
def wait (cfg : Settings) (entry : MergeQueueEntry) (now : Instant)
    (answer : Option (StagedPullRequest × List String)) : Phase :=
  if now - entry.testingStartedAt.getD entry.stateChangedAt > cfg.checkTimeoutSeconds then
    stop entry .testing .timedOut
  else
    match answer with
    | none => hold entry .testing .githubUnreachable
    | some (pr, required) =>
      if pr.state ≠ .opened then closedOutside entry pr
      else if pr.headSha ≠ entry.stagedSha then restage entry
      else
        let readings := readRequired pr.checks required
        if readings.any (·.outcome = .failing) then stop entry .testing .failed
        else if ¬ (unreported pr.checks required).isEmpty then
          hold entry .testing .checksUnreported
        else if readings.any (·.outcome = .pending) then hold entry .testing .checksRunning
        else .landing entry pr

/-- `_land`, once the base is fetched, or not. -/
def land (entry : MergeQueueEntry) (pr : StagedPullRequest) (fetched : Option Sha) : Phase :=
  match fetched with
  | none => hold entry .testing .githubUnreachable
  | some baseSha =>
    if baseSha ≠ entry.stagedBaseSha then restage entry
    else
      .writing entry .testing { state := some .merging, wait := some .none } (.merge pr)

/-- `assert_lands_staged_tree`; `stagedTree` is what the staged commit's tree reads now. -/
def landsStagedTree (entry : MergeQueueEntry) (pr : StagedPullRequest) (stagedTree : Sha) : Bool :=
  stagedTree = entry.stagedTree ∧ pr.headSha = entry.stagedSha ∧
    pr.headTree = entry.stagedTree ∧ pr.baseSha = entry.stagedBaseSha

def mergeRefused (entry : MergeQueueEntry) (fetched : Option Sha) : Phase :=
  match fetched with
  | some baseSha =>
    if baseSha ≠ entry.stagedBaseSha then relabel entry .merging .testing .restage
    else stop entry .merging .failed
  | none => stop entry .merging .failed

def confirmMerged (entry : MergeQueueEntry) (answer : Option StagedPullRequest) : Phase :=
  match answer with
  | none => hold entry .merging .githubUnreachable
  | some merged =>
    if merged.state ≠ .merged then stop entry .merging .failed
    else
      .writing entry .merging
        { state := some (if merged.mergeTree ≠ entry.stagedTree then .failed else .merged)
          wait := some .none
          mergeCommit := some merged.mergeCommit
          landedTree := some merged.mergeTree } .done

def resumeMerging (entry : MergeQueueEntry) (answer : Option StagedPullRequest) : Phase :=
  match answer with
  | none => hold entry .merging .githubUnreachable
  | some pr =>
    if pr.state = .merged then .confirming entry else relabel entry .merging .testing .wait

def reloaded (cfg : Settings) (entry : MergeQueueEntry) : After → Phase
  | .done => .idle
  | .stage _ => stage cfg entry
  | .artifact => .filing entry
  | .merge pr => .asserting entry pr
  | .confirm => .confirming entry
  | .wait => .waiting entry
  | .restage => restage entry

/-! ## The loop -/

/-- A commit that was cut: onto which base, from which head, and its tree. -/
structure Cut where
  sha : Sha
  headSha : Sha
  baseSha : Sha
  tree : Sha
  deriving DecidableEq

/-- A reading on which the required checks let an entry land. -/
structure Verdict where
  id : Nat
  pr : StagedPullRequest
  required : List String

structure Loop where
  phase : Phase := .idle
  /-- The base tip last fetched. -/
  lastBase : Sha := ""
  /-- The last reading that let an entry land, since an entry was last staged. -/
  verdict : Option Verdict := none
  /-- Every commit that was cut. -/
  cuts : List Cut := []

inductive Answer where
  /-- `head_entry`. -/
  | pick
  /-- `_mark_behind`: label another entry. -/
  | markBehind (other : Nat)
  /-- The entry's row, read again. -/
  | reload
  /-- Nothing: `_step` goes on. -/
  | step
  | cut (staged : Staged)
  | push (ok : Bool)
  /-- GitHub's reading of the pull request and the required contexts. -/
  | read (reading : Option (StagedPullRequest × List String))
  | fetch (base : Option Sha)
  /-- `tree_of` the staged commit; nothing when it raised. -/
  | tree (tree : Option Sha)
  | merge (accepted : Bool)
  /-- Whether a conflict artifact was filed. -/
  | file (filed : Bool)
  /-- The pending write. -/
  | write
  /-- The process dies. -/
  | crash

def Loop.at (l : Loop) (phase : Phase) : Loop := { l with phase := phase }

def Loop.fetched (l : Loop) (base : Option Sha) : Loop :=
  { l with lastBase := base.getD l.lastBase }

/-- A write that stages an entry makes every verdict one of the past. -/
def Loop.wrote (l : Loop) (expected : MergeQueueState) (fields : Fields) : Loop :=
  if expected = .staging ∧ fields.state = some .testing then { l with verdict := none } else l

/-- The pending write, and what comes of it; a row that was moved is left alone. -/
def Loop.write (q : Queue) (l : Loop) (now : Instant) (entry : MergeQueueEntry)
    (expected : MergeQueueState) (fields : Fields) (after : After) : Queue × Loop :=
  match transition q entry.id expected fields now with
  | .moved q' => (q', (l.wrote expected fields).at (.reloading entry.id after))
  | .missed => (q, l.at .idle)
  | .clashed => (q, l.at .idle)

/-- The loop, given an answer it was waiting for; it waits on for any other. -/
def Loop.advance (cfg : Settings) (q : Queue) (l : Loop) (now : Instant) (answer : Answer) :
    Queue × Loop :=
  match l.phase, answer with
  | _, .crash => (q, l.at .idle)
  | .idle, .pick =>
    match headEntry q with
    | none => (q, l)
    | some entry => (q, l.at (.chosen entry entry.position false))
  | .chosen entry place false, .markBehind other =>
    if other = entry.id then (q, l)
    else
      match transition q other .queued { wait := some .behind } now with
      | .moved q' => (q', l.at (.chosen entry place true))
      | .missed => (q, l.at (.chosen entry place true))
      | .clashed => (q, l.at .idle)
  | .chosen entry place true, .reload =>
    match q.get entry.id with
    | none => (q, l.at .idle)
    | some entry => (q, l.at (.chosen entry place false))
  | .chosen entry place false, .step => (q, l.at (step cfg entry place))
  | .writing entry expected fields after, .write =>
    l.write q now entry expected fields after
  | .reloading id after, .reload =>
    match q.get id with
    | none => (q, l.at .idle)
    | some entry => (q, l.at (reloaded cfg entry after))
  | .cutting entry, .cut staged =>
    let l := l.fetched (some staged.baseSha)
    (q, { l with
      cuts := if staged.verdict = .clean then
          ⟨staged.sha, entry.headSha, staged.baseSha, staged.tree⟩ :: l.cuts
        else l.cuts
      phase := afterCut entry staged })
  | .filing entry, .file filed =>
    if filed then
      (q, l.at (.writing entry .failed { wait := some .conflictArtifactOpen } .done))
    else (q, l.at .idle)
  | .pushing entry staged, .push ok => (q, l.at (afterPush entry staged ok now))
  | .waiting entry, .read reading =>
    let phase := wait cfg entry now reading
    match phase, reading with
    | .landing _ pr, some (_, required) =>
      (q, { l with phase := phase, verdict := some ⟨entry.id, pr, required⟩ })
    | _, _ => (q, l.at phase)
  | .landing entry pr, .fetch base => (q, (l.fetched base).at (land entry pr base))
  | .asserting entry pr, .tree tree =>
    match tree with
    | none => (q, l.at .idle)
    | some tree =>
      if landsStagedTree entry pr tree then (q, l.at (.merging entry))
      else (q, l.at (stop entry .merging .failed))
  | .merging entry, .merge accepted =>
    (q, l.at (if accepted then .confirming entry else .refused entry))
  | .refused entry, .fetch base => (q, (l.fetched base).at (mergeRefused entry base))
  | .confirming entry, .read reading =>
    (q, l.at (confirmMerged entry (reading.map Prod.fst)))
  | .resuming entry, .read reading =>
    (q, l.at (resumeMerging entry (reading.map Prod.fst)))
  | _, _ => (q, l)

structure System where
  queue : Queue
  loop : Loop := {}
  calls : Nat → Call := fun _ => .idle
  /-- Every position that was given out, and to which entry. -/
  used : List (Nat × Nat) := []

theorem unique_empty : Unique Keyed.empty := ⟨List.nodup_nil, List.nodup_nil⟩

def System.new : System where
  queue := ⟨Keyed.empty, unique_empty⟩

inductive Act where
  | loop (answer : Answer)
  /-- A session calls. -/
  | call (session : Nat) (request : Request)
  /-- A session's call goes on. -/
  | go (session : Nat)

def System.act (cfg : Settings) (s : System) (now : Instant) : Act → System
  | .loop answer =>
    { s with
      queue := (s.loop.advance cfg s.queue now answer).1
      loop := (s.loop.advance cfg s.queue now answer).2 }
  | .call session request =>
    { s with calls := Function.update s.calls session (.requested request) }
  | .go session =>
    { s with
      queue := ((s.calls session).go s.queue now).1
      calls := Function.update s.calls session ((s.calls session).go s.queue now).2.1
      used := ((s.calls session).go s.queue now).2.2.toList ++ s.used }

def QueueStep (cfg : Settings) (s : System) (step : Instant × Act) (s' : System) : Prop :=
  s' = s.act cfg step.1 step.2

end Loregarden.MergeQueue
