import Loregarden.SortedRowProofs

/-! # The merge queue: its table, its callers and its loop

The table of `merge_queue_tables.py`, the calls of `merge_queue.py` and the loop of
`merge_queue_loop.py`, for one workspace: every query, every index and the loop are a workspace's
own. A session keeps what it has read until its next commit, so a call, and the loop, is a `Call` or
a `Phase` that carries the rows as they were read; each move is one read, one write, or one answer
of git or GitHub, and anyone may move between two of them.

An entry id is a fresh UUID, so a number handed out once stands for it. Columns that no function
here reads (the operator's words, the check list, the log tail) are left out. The loop and the table
carry what has happened: the commits that were cut, the base last fetched, the last verdict, the
positions given out. -/

namespace Loregarden.MergeQueue

open Ranked

abbrev Instant := Int
abbrev Sha := String

/-! ## The table -/

inductive MergeQueueState where
  | queued | staging | testing | merging | merged | failed | timedOut | withdrawn
  deriving DecidableEq

def MergeQueueState.value : MergeQueueState → String
  | .queued => "queued"
  | .staging => "staging"
  | .testing => "testing"
  | .merging => "merging"
  | .merged => "merged"
  | .failed => "failed"
  | .timedOut => "timed_out"
  | .withdrawn => "withdrawn"

/-- `MERGE_QUEUE_ACTIVE_STATES`: states that hold the queue's one active slot. -/
def MergeQueueState.active : MergeQueueState → Bool
  | .staging | .testing | .merging => true
  | _ => false

/-- `MERGE_QUEUE_TERMINAL_STATES`. -/
def MergeQueueState.terminal : MergeQueueState → Bool
  | .merged | .failed | .timedOut | .withdrawn => true
  | _ => false

inductive MergeQueueWait where
  | none | behind | checksUnreported | checksRunning | githubUnreachable | baseMoved
  | conflictArtifactOpen
  deriving DecidableEq

structure MergeQueueEntry where
  id : Nat
  ticketId : Nat := 0
  prNumber : Int
  /-- The PR's head branch on the remote: the staging ref. -/
  prHeadBranch : String := ""
  /-- The work being merged. -/
  headSha : Sha
  baseBranch : String := "main"
  position : Nat
  state : MergeQueueState := .queued
  wait : MergeQueueWait := .none
  attempts : Nat := 0
  /-- The commit the required checks run on, its tree, and the base tip it was cut on. -/
  stagedSha : Sha := ""
  stagedTree : Sha := ""
  stagedBaseSha : Sha := ""
  mergeCommit : Sha := ""
  landedTree : Sha := ""
  stateChangedAt : Instant := 0
  testingStartedAt : Option Instant := none
  deriving DecidableEq

/-- `merge_queue_entries`. -/
abbrev Table := Keyed MergeQueueEntry MergeQueueEntry.id

def live (t : Table) : List MergeQueueEntry := t.rows.filter fun e => ¬ e.state.terminal

/-- `uq_merge_queue_position` and `uq_merge_queue_live_head`. -/
def Unique (t : Table) : Prop := (t.rows.map (·.position)).Nodup ∧ ((live t).map (·.headSha)).Nodup

instance (t : Table) : Decidable (Unique t) := inferInstanceAs (Decidable (_ ∧ _))

structure Queue where
  table : Table
  unique : Unique table

/-- Commit a table; an index that it breaks refuses it. -/
def commit (t : Table) : Option Queue := if h : Unique t then some ⟨t, h⟩ else none

def Queue.get (q : Queue) (id : Nat) : Option MergeQueueEntry := q.table.get id

/-- `live_entries`: every entry not yet terminal, in queue order. -/
def liveEntries (q : Queue) : List MergeQueueEntry :=
  (live q.table).insertionSort fun e e' => e.position ≤ e'.position

/-- `head_entry`: the active one, else the first queued. -/
def headEntry (q : Queue) : Option MergeQueueEntry :=
  let live := liveEntries q
  ((live.filter (·.state.active)).head?).or live.head?

def nextPosition (q : Queue) : Nat := (q.table.rows.map (·.position)).foldr max 0 + 1

/-- `_live_with_head`, among rows as they were read. -/
def liveWithHead (live : List MergeQueueEntry) (headSha : Sha) : Option MergeQueueEntry :=
  live.find? (·.headSha = headSha)

/-- `_live_for_pr`, among rows as they were read. -/
def liveForPr (live : List MergeQueueEntry) (prNumber : Int) : Option MergeQueueEntry :=
  live.find? (·.prNumber = prNumber)

/-! ## Writing a row -/

/-- The column values of a write; a column that is not named keeps its value. -/
structure Fields where
  state : Option MergeQueueState := none
  wait : Option MergeQueueWait := none
  headSha : Option Sha := none
  prHeadBranch : Option String := none
  position : Option Nat := none
  attempts : Option Nat := none
  stagedSha : Option Sha := none
  stagedTree : Option Sha := none
  stagedBaseSha : Option Sha := none
  mergeCommit : Option Sha := none
  landedTree : Option Sha := none
  testingStartedAt : Option (Option Instant) := none
  deriving DecidableEq

def Fields.apply (f : Fields) (expected : MergeQueueState) (now : Instant)
    (e : MergeQueueEntry) : MergeQueueEntry :=
  { e with
    state := f.state.getD e.state
    wait := f.wait.getD e.wait
    headSha := f.headSha.getD e.headSha
    prHeadBranch := f.prHeadBranch.getD e.prHeadBranch
    position := f.position.getD e.position
    attempts := f.attempts.getD e.attempts
    stagedSha := f.stagedSha.getD e.stagedSha
    stagedTree := f.stagedTree.getD e.stagedTree
    stagedBaseSha := f.stagedBaseSha.getD e.stagedBaseSha
    mergeCommit := f.mergeCommit.getD e.mergeCommit
    landedTree := f.landedTree.getD e.landedTree
    testingStartedAt := f.testingStartedAt.getD e.testingStartedAt
    stateChangedAt := if f.state.getD expected ≠ expected then now else e.stateChangedAt }

theorem Fields.apply_id (f : Fields) (expected : MergeQueueState) (now : Instant)
    (e : MergeQueueEntry) : (f.apply expected now e).id = e.id := rfl

inductive Wrote where
  | moved (q : Queue)
  /-- The row did not read the expected state; nothing was written. -/
  | missed
  /-- An index refused it; nothing was written. -/
  | clashed

/-- `transition`: move an entry from the expected state, or report that someone else
    moved it first. -/
def transition (q : Queue) (id : Nat) (expected : MergeQueueState) (fields : Fields)
    (now : Instant) : Wrote :=
  match q.get id with
  | none => .missed
  | some e =>
    if e.state ≠ expected then .missed
    else
      match commit (q.table.update id (fields.apply expected now)
        (fields.apply_id expected now)) with
      | some q' => .moved q'
      | none => .clashed

def unstaged : Fields where
  stagedSha := some ""
  stagedTree := some ""
  stagedBaseSha := some ""
  testingStartedAt := some none

inductive Step where
  | cut | publish | wait | land | cleanUp

structure StepSpec where
  /-- Whether the step writes anything another process can see. -/
  mutatesSharedState : Bool
  /-- Whether a newer cycle, or an operator, may abandon it part-way. -/
  cancellable : Bool
  why : String

/-- `STEPS`. -/
def Step.spec : Step → StepSpec
  | .cut => ⟨false, true, "writes an unreferenced commit object; a newer cut supersedes it"⟩
  | .publish => ⟨true, false, "moves the PR's head on GitHub, which starts its checks"⟩
  | .wait => ⟨false, true, "only reads checks; the next cycle reads them again"⟩
  | .land => ⟨true, false, "asks GitHub to move the base"⟩
  | .cleanUp => ⟨true, false, "deletes the staging ref on GitHub"⟩

/-- `STATE_STEP`: the step an entry in each active state is in. -/
def MergeQueueState.step : MergeQueueState → Option Step
  | .staging => some .cut
  | .testing => some .wait
  | .merging => some .land
  | _ => none

/-! ## Calls -/

/-- What a pull request offers the queue, and the ticket it is for. -/
structure Candidate where
  ticketId : Nat := 0
  prNumber : Int
  prHeadBranch : String := ""
  headSha : Sha
  baseBranch : String := "main"
  deriving DecidableEq

inductive Request where
  | enqueue (candidate : Candidate)
  | withdraw (id : Nat)
  | retry (id : Nat)
  deriving DecidableEq

inductive Reply where
  | noPullRequest
  | duplicateHead (id : Nat)
  | updated (id : Nat)
  | admitted (id : Nat)
  | withdrawn (id : Nat)
  | retried (id : Nat)
  | refused (why : String)
  /-- No such entry. -/
  | missing (id : Nat)
  /-- Every attempt at a position lost its race. -/
  | exhausted
  /-- The database refused a re-pointing; the error is not caught. -/
  | integrityError
  deriving DecidableEq

/-- Where a session stands, with the rows it holds as it read them. -/
inductive Call where
  | idle
  | replied (reply : Reply)
  /-- About to make its first read. -/
  | requested (request : Request)
  /-- `enqueue` found no live entry with the head; about to look for its PR. -/
  | matching (candidate : Candidate) (seen : List MergeQueueEntry)
  /-- `_take_new_head`, about to write. -/
  | repointing (candidate : Candidate) (entry : MergeQueueEntry)
  /-- `_insert`, about to read the next position. -/
  | positioning (candidate : Candidate) (tries : Nat)
  /-- `_insert`, about to commit. -/
  | inserting (candidate : Candidate) (tries position : Nat)
  /-- `_insert`, refused by an index; about to look for its head. -/
  | clashed (candidate : Candidate) (tries : Nat)
  /-- `withdraw`, about to write. -/
  | withdrawing (entry : MergeQueueEntry)
  /-- `retry`, past its check of the state; about to look for its head. -/
  | rechecking (entry : MergeQueueEntry)
  /-- `retry`, about to read the next position. -/
  | placing (entry : MergeQueueEntry) (tries : Nat)
  /-- `retry`, about to write. -/
  | rejoining (entry : MergeQueueEntry) (tries position : Nat)
  /-- `retry`, refused by an index and rolled back; about to read its entry again. -/
  | rereading (id tries : Nat)
  deriving DecidableEq

def positionAttempts : Nat := 16

def MergeQueueState.retryable : MergeQueueState → Bool
  | .failed | .timedOut | .withdrawn => true
  | _ => false

/-- `enqueue`, its first read: is the head queued already? -/
def enqueue (q : Queue) (candidate : Candidate) : Call :=
  if candidate.prNumber ≤ 0 ∨ candidate.headSha = "" then .replied .noPullRequest
  else
    match liveWithHead (liveEntries q) candidate.headSha with
    | some duplicate => .replied (.duplicateHead duplicate.id)
    | none => .matching candidate (liveEntries q)

/-- `enqueue`, its second read: is the PR queued already? A row the session has read before is as it
    was read then. -/
def matchPr (q : Queue) (candidate : Candidate) (seen : List MergeQueueEntry) : Call :=
  let live := (liveEntries q).map fun e => (seen.find? (·.id = e.id)).getD e
  match liveForPr live candidate.prNumber with
  | some same =>
    if same.state ≠ .merging then .repointing candidate same
    else .positioning candidate positionAttempts
  | none => .positioning candidate positionAttempts

/-- What `_take_new_head` writes. -/
def newHeadFields (candidate : Candidate) (entry : MergeQueueEntry) : Fields :=
  { unstaged with
    state := some .queued
    wait := some .none
    headSha := some candidate.headSha
    prHeadBranch :=
      some (if candidate.prHeadBranch = "" then entry.prHeadBranch else candidate.prHeadBranch) }

/-- The row `_insert` commits. -/
def candidateEntry (id : Nat) (candidate : Candidate) (position : Nat) (now : Instant) :
    MergeQueueEntry where
  id := id
  ticketId := candidate.ticketId
  prNumber := candidate.prNumber
  prHeadBranch := candidate.prHeadBranch
  headSha := candidate.headSha
  baseBranch := candidate.baseBranch
  position := position
  stateChangedAt := now

theorem candidateEntry_id (id : Nat) (candidate : Candidate) (position : Nat) (now : Instant) :
    (candidateEntry id candidate position now).id = id := rfl

/-- `withdraw` up to its write: refused once the entry is merging or finished. -/
def withdraw (q : Queue) (id : Nat) : Call :=
  match q.get id with
  | none => .replied (.missing id)
  | some entry =>
    let pr := entry.prNumber
    let state := entry.state.value
    if entry.state.terminal then .replied (.refused s!"PR #{pr} is already {state}")
    else
      match entry.state.step with
      | some step =>
        let why := step.spec.why
        if ¬ step.spec.cancellable then
          .replied (.refused s!"PR #{pr} is {state} ({why}); it cannot be withdrawn now")
        else .withdrawing entry
      | none => .withdrawing entry

/-- `retry`, its first read. -/
def retry (q : Queue) (id : Nat) : Call :=
  match q.get id with
  | none => .replied (.missing id)
  | some entry =>
    let pr := entry.prNumber
    let state := entry.state.value
    if ¬ entry.state.retryable then
      .replied (.refused (s!"PR #{pr} is {state}; only a failed, timed-out or "
        ++ "withdrawn entry can be retried"))
    else .rechecking entry

/-- `retry`, its second read: is the head queued again? -/
def recheck (q : Queue) (entry : MergeQueueEntry) : Call :=
  match liveWithHead (liveEntries q) entry.headSha with
  | some duplicate =>
    let sha := String.ofList (entry.headSha.toList.take 12)
    let pr := duplicate.prNumber
    .replied (.refused s!"{sha} is already queued again as PR #{pr}")
  | none => .placing entry positionAttempts

/-- What `retry` writes. -/
def retryFields (position : Nat) : Fields :=
  { unstaged with state := some .queued, wait := some .none, position := some position }

/-- What `withdraw` writes. -/
def withdrawFields : Fields := { state := some .withdrawn, wait := some .none }

def movedWhile (entry : MergeQueueEntry) (what : String) : Reply :=
  let pr := entry.prNumber
  .refused s!"PR #{pr} moved while being {what}; read it again"

/-- One read or write of a call: the table, where the session stands, and the position
    it was given, if it was given one. -/
def Call.go (q : Queue) (now : Instant) : Call → Queue × Call × Option (Nat × Nat)
  | .idle => (q, .idle, none)
  | .replied reply => (q, .replied reply, none)
  | .requested (.enqueue candidate) => (q, enqueue q candidate, none)
  | .requested (.withdraw id) => (q, withdraw q id, none)
  | .requested (.retry id) => (q, retry q id, none)
  | .matching candidate seen => (q, matchPr q candidate seen, none)
  | .repointing candidate entry =>
    match transition q entry.id entry.state (newHeadFields candidate entry) now with
    | .moved q' => (q', .replied (.updated entry.id), none)
    -- the loop moved it in the meantime: admit the new head as its own candidate
    | .missed => (q, .requested (.enqueue candidate), none)
    | .clashed => (q, .replied .integrityError, none)
  | .positioning _ 0 => (q, .replied .exhausted, none)
  | .positioning candidate (tries + 1) =>
    (q, .inserting candidate tries (nextPosition q), none)
  | .inserting candidate tries position =>
    match commit (q.table.insert (candidateEntry q.table.next candidate position now)
      (candidateEntry_id _ _ _ _)) with
    | some q' =>
      (q', .replied (.admitted q.table.next), some (position, q.table.next))
    | none => (q, .clashed candidate tries, none)
  | .clashed candidate tries =>
    match liveWithHead (liveEntries q) candidate.headSha with
    | some duplicate => (q, .replied (.duplicateHead duplicate.id), none)
    | none => (q, .positioning candidate tries, none)
  | .withdrawing entry =>
    match transition q entry.id entry.state withdrawFields now with
    | .moved q' => (q', .replied (.withdrawn entry.id), none)
    | .missed => (q, .replied (movedWhile entry "withdrawn"), none)
    | .clashed => (q, .replied .integrityError, none)
  | .rechecking entry => (q, recheck q entry, none)
  | .placing _ 0 => (q, .replied .exhausted, none)
  | .placing entry (tries + 1) => (q, .rejoining entry tries (nextPosition q), none)
  | .rejoining entry tries position =>
    match transition q entry.id entry.state (retryFields position) now with
    | .moved q' => (q', .replied (.retried entry.id), some (position, entry.id))
    | .missed => (q, .replied (movedWhile entry "retried"), none)
    | .clashed => (q, .rereading entry.id tries, none)
  -- the state is read again, and not checked again
  | .rereading id tries =>
    match q.get id with
    | none => (q, .replied (.missing id), none)
    | some entry => (q, .placing entry tries, none)

end Loregarden.MergeQueue
