import Loregarden.ReleaseModel

/-! # Worktree rows and their checkouts

`worktree_lifecycle.py` and the part of `worktree_service.py` it works through. A row records where
its checkout is (`worktree_path`) and where a failed release left it (`parked_at`); five calls write
these columns and the state. The disk is a map from paths to what is there. What a stat, a git
probe, the claim and the receipt of a row answer, and which steps of a release fail, are arguments.
Left out: the claim columns, branches, logs and the boot summary, which decide nothing here. -/

namespace Loregarden.Worktrees

open Disk (Path isRelativeTo)
open Release

/-! ## Rows and the disk -/

inductive WorktreeState where
  | active | merged | failed | cleanup
  deriving DecidableEq

/-- A row of `worktrees`; an empty path is `none`. -/
structure Worktree where
  id : String
  ticketId : Option Nat := none
  chatSessionId : Option Nat := none
  worktreePath : Option Path
  parkedAt : Option Path := none
  unresolvedReason : String := ""
  state : WorktreeState := .active

inductive Entry where
  | nothing
  | file
  /-- A symlink, and what it resolves to. -/
  | link (target : Path)
  /-- A directory; `checkout` when it was the checkout of a row. -/
  | directory (checkout : Bool)
  deriving DecidableEq

def Entry.lexists : Entry → Bool
  | nothing => false
  | _ => true

def Entry.isLink : Entry → Bool
  | link _ => true
  | _ => false

def Entry.isDirectory : Entry → Bool
  | directory _ => true
  | _ => false

/-- The rows, in the order they were created, and the disk. -/
structure World where
  rows : List Worktree
  disk : Path → Entry

def World.setRow (w : World) (i : Nat) (f : Worktree → Worktree) : World :=
  { w with rows := w.rows.modify i f }

inductive DirectoryState where
  | present | absent
  deriving DecidableEq

inductive StatFault where
  /-- An errno that `Path.is_dir` answers `False` for, such as ELOOP. -/
  | ignored
  | raised

/-- `directory_state`: the stat follows a symlink. -/
def directoryState (disk : Path → Entry) (fault : Option StatFault) (path : Path) :
    Except StatFault DirectoryState :=
  match fault with
  | some fault => .error fault
  | none =>
    let entry := match disk path with
      | .link target => disk target
      | entry => entry
    .ok (if entry.isDirectory then .present else .absent)

/-! ## Answers and refusals -/

inductive CleanupRefusal where
  | outsideBase | removeRaised

inductive KeepReason where
  | uncommitted | strandedHead | nothingCommitted | noReceipt | receiptDoesNotCover
  | claimUnproven | unreadable | workspaceGone | claimantLive | parkedCheckout
  deriving DecidableEq

/-- `RetirementRefusal`: a `KeepReason`, or `RemovalFailure.CLEANUP_FAILED`. -/
inductive RetirementRefusal where
  | keep (reason : KeepReason)
  | cleanupFailed
  deriving DecidableEq

def reasonClause : KeepReason → String
  | .uncommitted => "the changes exist in this tree and nowhere else"
  | .strandedHead =>
    "HEAD has moved off the branch; put a branch or a tag on the commit to keep it"
  | .nothingCommitted => "its branch holds nothing its base does not"
  | .noReceipt =>
    "nothing on record says its work finished — land the branch, or publish the tree, " ++
      "and the next sweep will take it"
  | .receiptDoesNotCover =>
    "the landing on record predates what is in this tree, so landing again is what clears it"
  | .claimUnproven => "nobody could prove who holds it, so it is treated as held"
  | .unreadable => "the filesystem would not say whether it is there"
  | .workspaceGone =>
    "the workspace that cut this checkout is no longer on record, so the worktrees " ++
      "folder cannot be named"
  | .claimantLive => "an agent is still working in it"
  | .parkedCheckout =>
    "the recorded checkout is gone, but parked_at still names a live directory"

/-- `RemovalFailure.CLEANUP_FAILED`. -/
def cleanupFailedClause : String := "removing its checkout failed"

def failureClause : CleanupRefusal → String
  | .removeRaised => cleanupFailedClause
  | .outsideBase => "its checkout is outside the worktrees folder"

def pathText (path : Option Path) : String := (path.map Path.text).getD ""

/-- `_refusal_detail`, a sentence per `ReleaseDisposition`. -/
def refusalDetail (worktree : Worktree) (parkedPath : Option Path) (clause : String)
    (disposition : Option ReleaseDisposition) : String :=
  let path := (worktree.worktreePath.map Path.text).getD worktree.id
  match disposition with
  | some .stillParked =>
    s!"Nothing was deleted: {path} is still owned, and its checkout is parked at " ++
      s!"{pathText parkedPath} — {clause}."
  | some .restored =>
    s!"The directory is still at {path} and is still owned, but part of it may be gone " ++
      "and git no longer lists it as a worktree — delete it again, or remove the " ++
      "directory by hand."
  | some .intact | none => s!"Nothing was deleted: {path} is still owned — {clause}."

structure Retirement where
  refusal : Option RetirementRefusal
  deletedNothing : Bool
  parkedPath : Option Path
  detail : String
  cause : Option CleanupRefusal := none

def recordRefusal (w : World) (i : Nat) (outcome : Retirement) : World :=
  w.setRow i fun worktree =>
    { worktree with
      unresolvedReason := if outcome.refusal = none then "" else outcome.detail
      parkedAt := outcome.parkedPath }

def refused (w : World) (i : Nat) (worktree : Worktree) (refusal : RetirementRefusal)
    (clause : String) (parkedPath : Option Path) (cause : Option CleanupRefusal)
    (disposition : Option ReleaseDisposition) : World × Retirement :=
  let outcome : Retirement :=
    { refusal := some refusal
      deletedNothing := true
      parkedPath := parkedPath
      detail := refusalDetail worktree parkedPath clause disposition
      cause := cause }
  (recordRefusal w i outcome, outcome)

def unreadable (w : World) (i : Nat) (worktree : Worktree) : World × Retirement :=
  refused w i worktree (.keep .unreadable) (reasonClause .unreadable) none none none

/-! ## The premises -/

inductive ProcessState where
  | alive | gone | unknown
  deriving DecidableEq

/-- What the premise gate raises: `_ClaimUnreadable` and `BootIdentityUnavailable`, or an
    `OSError`. -/
inductive GateRaise where
  | claim | os
  deriving DecidableEq

structure Probes where
  /-- `_claim_state`. -/
  claimState : Except GateRaise (Option ProcessState)
  /-- `resolve_receipt`; `none` is a `Receipt`. -/
  receipt : Except GateRaise (Option (KeepReason × String))
  isDirty : Bool
  hasStrandedCommits : Bool
  hasPreservedCommits : Bool

def claimRefusal : Option ProcessState → Option KeepReason
  | some .alive => some .claimantLive
  | some .unknown => some .claimUnproven
  | some .gone => none
  | none => none

def checkoutLoss (probes : Probes) : Option KeepReason :=
  if probes.isDirty then some .uncommitted
  else if probes.hasStrandedCommits then some .strandedHead
  else none

def keepReason (probes : Probes) : Except GateRaise (Option KeepReason) := do
  match claimRefusal (← probes.claimState) with
  | some claimed => return some claimed
  | none =>
    match ← probes.receipt with
    | some unresolved => return some unresolved.1
    | none =>
      match checkoutLoss probes with
      | some loss => return some loss
      | none => return if probes.hasPreservedCommits then none else some .nothingCommitted

def chatKeepReason (probes : Probes) : Except GateRaise (Option KeepReason) := do
  match claimRefusal (← probes.claimState) with
  | some claimed => return some claimed
  | none => return checkoutLoss probes

abbrev KeepReasonGate := Probes → Except GateRaise (Option KeepReason)

def premiseOrUncertainty (gate : KeepReasonGate) (probes : Probes) (observed : DirectoryState) :
    Option KeepReason :=
  match observed with
  | .absent => none
  | .present =>
    match gate probes with
    | .ok reason => reason
    | .error .claim => some .claimUnproven
    | .error .os => some .unreadable

def premiseClause (probes : Probes) (refusal : KeepReason) : String :=
  let clause := reasonClause refusal
  if refusal ≠ .noReceipt ∧ refusal ≠ .receiptDoesNotCover then clause
  else match probes.receipt with
    | .ok (some unresolved) =>
      if unresolved.2 = "" then clause else s!"{clause} ({unresolved.2})"
    | _ => clause

/-! ## The removal -/

structure WorktreeService where
  repoPath : Path

def WorktreeService.worktreeBase (service : WorktreeService) : Path :=
  service.repoPath.dropLast ++ [".worktrees"]

def WorktreeService.parkRoot (service : WorktreeService) : Path :=
  service.repoPath.dropLast ++ [".worktrees-releasing"]

/-- What the system answers while one row is settled. -/
structure Answers where
  /-- The gate's stat of the recorded path, the seam's own, and that of `parked_at`. -/
  stat : Option StatFault
  restat : Option StatFault
  parkedStat : Option StatFault
  probes : Probes
  /-- The row's ticket is in a terminal state. -/
  ticketFinished : Bool
  faults : Faults
  /-- `uuid4().hex`. -/
  parkName : String
  gitFile : Bool
  registered : Bool

def observedState (disk : Path → Entry) (fault : Option StatFault) (worktree : Worktree) :
    Except StatFault DirectoryState :=
  match worktree.worktreePath with
  | none => .ok .absent
  | some path => directoryState disk fault path

def parkedAtHoldsLiveDirectory (disk : Path → Entry) (fault : Option StatFault)
    (worktree : Worktree) : Bool :=
  match worktree.parkedAt with
  | none => false
  | some parkedAt =>
    match directoryState disk fault parkedAt with
    | .error _ => true
    | .ok observed => observed = .present

inductive RemoveError where
  | released (failed : DirectoryReleaseFailed) (refusal : CleanupRefusal)
  | os

/-- `_refuse_if_outside_base`: the recorded spelling and what it resolves to. -/
def refuseIfOutsideBase (service : WorktreeService) (disk : Path → Entry) (path : Path) :
    Except RemoveError Unit :=
  let resolved := match disk path with
    | .link target => target
    | _ => path
  if isRelativeTo path service.worktreeBase ∧ isRelativeTo resolved service.worktreeBase then
    .ok ()
  else
    .error (.released
      { message := s!"'{path.text}' is outside {service.worktreeBase.text}; nothing was " ++
          "attempted and no retry can change that"
        disposition := .intact
        uncleanedPath := path
        outside := true } .outsideBase)

def markCleaned (w : World) (i : Nat) : World :=
  w.setRow i fun worktree => { worktree with state := .cleanup }

def settleAbsentCheckout (service : WorktreeService) (w : World) (i : Nat)
    (worktree : Worktree) : World × Except RemoveError Unit :=
  let judged : Except RemoveError Unit := match worktree.worktreePath with
    | none => .ok ()
    | some path => refuseIfOutsideBase service w.disk path
  match judged with
  | .error failed => (w, .error failed)
  | .ok _ => (markCleaned w i, .ok ())

/-- The checkout a release is asked for; a park name that is taken fails the rename. -/
def releasedCheckout (service : WorktreeService) (disk : Path → Entry) (path : Path)
    (answers : Answers) : Checkout where
  target := path
  base := service.worktreeBase
  parkRoot := service.parkRoot
  parkName := service.parkRoot ++ [answers.parkName]
  isLink := (disk path).isLink
  place := if (disk path).lexists then .atPath else .gone
  whole := true
  registered := answers.registered
  gitFile := answers.gitFile
  phase := .idle

/-- `release_directory`, and the disk it leaves. -/
def releaseDirectory (service : WorktreeService) (disk : Path → Entry) (path : Path)
    (answers : Answers) : (Path → Entry) × Except RemoveError Unit :=
  let parkName := service.parkRoot ++ [answers.parkName]
  let rename := answers.faults.rename || (disk parkName).lexists
  let c := (releasedCheckout service disk path answers).releaseDirectory
    { answers.faults with rename := rename }
  let disk' := match c.place with
    | .atPath => disk
    | .parked => Function.update (Function.update disk path .nothing) parkName (disk path)
    | .gone => Function.update disk path .nothing
  match c.phase with
  | .raised failed =>
    (disk', .error (.released failed (if failed.outside then .outsideBase else .removeRaised)))
  | _ => (disk', .ok ())

def removeCheckout (service : WorktreeService) (w : World) (i : Nat) (worktree : Worktree)
    (answers : Answers) : World × Except RemoveError Unit :=
  match worktree.worktreePath with
  | none => (markCleaned w i, .ok ())
  | some path =>
    match refuseIfOutsideBase service w.disk path with
    | .error failed => (w, .error failed)
    | .ok _ =>
      match directoryState w.disk answers.restat path with
      | .error _ => (w, .error .os)
      | .ok state =>
        if state = .present ∨ (w.disk path).lexists then
          match releaseDirectory service w.disk path answers with
          | (disk, .error failed) => ({ w with disk := disk }, .error failed)
          | (disk, .ok _) => (markCleaned { w with disk := disk } i, .ok ())
        else (markCleaned w i, .ok ())

def remove (service : WorktreeService) (w : World) (i : Nat) (worktree : Worktree)
    (observed : DirectoryState) (answers : Answers) : World × Retirement :=
  let removed := match observed with
    | .present => removeCheckout service w i worktree answers
    | .absent => settleAbsentCheckout service w i worktree
  match removed with
  | (w', .error (.released failed refusal)) =>
    refused w' i worktree .cleanupFailed (failureClause refusal) failed.parkedPath
      (some refusal) (some failed.disposition)
  | (w', .error .os) => unreadable w' i worktree
  | (w', .ok _) =>
    let settled : Retirement :=
      { refusal := none, deletedNothing := false, parkedPath := none, detail := "" }
    (recordRefusal w' i settled, settled)

/-! ## The calls -/

/-- `_settle`, which is `retire_worktree` without its log. -/
def retireWorktree (service : WorktreeService) (gate : KeepReasonGate) (w : World) (i : Nat)
    (worktree : Worktree) (answers : Answers) : World × Retirement :=
  match observedState w.disk answers.stat worktree with
  | .error _ => unreadable w i worktree
  | .ok observed =>
    if observed = .absent ∧ parkedAtHoldsLiveDirectory w.disk answers.parkedStat worktree then
      -- the one refusal that writes nothing
      (w,
        { refusal := some (.keep .parkedCheckout)
          deletedNothing := true
          parkedPath := none
          detail := refusalDetail worktree none (reasonClause .parkedCheckout) none })
    else
      match premiseOrUncertainty gate answers.probes observed with
      | some refusal =>
        refused w i worktree (.keep refusal) (premiseClause answers.probes refusal) none none
          none
      | none => remove service w i worktree observed answers

def settleOne (service : WorktreeService) (w : World) (i : Nat) (worktree : Worktree)
    (observed : DirectoryState) (answers : Answers) : World × Nat :=
  let outcome := remove service w i worktree observed answers
  (outcome.1, if outcome.2.refusal = none then 1 else 0)

def settleRowWhoseCheckoutIsGone (service : Option WorktreeService) (w : World) (i : Nat)
    (worktree : Worktree) (answers : Answers) : World × Bool :=
  match service with
  | none => (w, false)
  | some service =>
    let settled := settleOne service w i worktree .absent answers
    (settled.1, settled.2 ≠ 0)

/-- One turn of the loop of `reconcile_worktrees`. -/
def reconcileRow (service : Option WorktreeService) (w : World) (i : Nat) (worktree : Worktree)
    (answers : Answers) : World × Nat :=
  match service with
  | none => (w, 0)
  | some service =>
    match observedState w.disk answers.stat worktree with
    | .error _ => ((unreadable w i worktree).1, 0)
    | .ok .absent =>
      if parkedAtHoldsLiveDirectory w.disk answers.parkedStat worktree then (w, 0)
      else settleOne service w i worktree .absent answers
    | .ok .present =>
      if ¬ answers.ticketFinished then (w, 0)
      else
        match premiseOrUncertainty keepReason answers.probes .present with
        | some reason =>
          ((refused w i worktree (.keep reason) (premiseClause answers.probes reason) none
            none none).1, 0)
        | none => settleOne service w i worktree .present answers

def activeRows (w : World) : List Nat := (w.rows.zipIdx.filter (·.1.state = .active)).map (·.2)

def World.atRow {α : Type} (w : World) (i : Nat) (missing : α) (call : Worktree → World × α) :
    World × α :=
  match w.rows[i]? with
  | none => (w, missing)
  | some worktree => call worktree

/-- `reconcile_worktrees`, over the rows it read first. -/
def reconcileRows (service : Option WorktreeService) (answers : Nat → Answers) :
    World → List Nat → World × Nat
  | w, [] => (w, 0)
  | w, i :: rest =>
    let turn := w.atRow i 0 fun worktree => reconcileRow service w i worktree (answers i)
    let later := reconcileRows service answers turn.1 rest
    (later.1, turn.2 + later.2)

def reconcileWorktrees (service : Option WorktreeService) (answers : Nat → Answers) (w : World) :
    World × Nat :=
  reconcileRows service answers w (activeRows w)

structure ChatWorktreeHold where
  worktree : Nat
  outcome : Retirement
  cause : Option CleanupRefusal := none

def chatRow (w : World) (chat : Nat) : Option (Worktree × Nat) :=
  w.rows.zipIdx.find? fun row => row.1.chatSessionId = some chat ∧ row.1.state = .active

def releaseChatWorktree (service : Option WorktreeService) (w : World) (chat : Nat)
    (answers : Answers) : World × Option ChatWorktreeHold :=
  match chatRow w chat with
  | none => (w, none)
  | some (worktree, i) =>
    match service with
    | none =>
      let outcome := refused w i worktree (.keep .unreadable)
        "its workspace could not be resolved, so nothing could be attempted" none none none
      (outcome.1, some { worktree := i, outcome := outcome.2 })
    | some service =>
      let outcome := retireWorktree service chatKeepReason w i worktree answers
      if outcome.2.refusal = none then (outcome.1, none)
      else
        (outcome.1, some { worktree := i, outcome := outcome.2, cause := outcome.2.cause })

/-- How far `_add_worktree` gets. -/
inductive Cut where
  /-- The branch is not valid, or `git worktree add` fails. -/
  | refused
  /-- The directory is cut and the refresh, the HEAD or the claim then fails. -/
  | abandoned
  | recorded
  deriving DecidableEq

/-- What `get_or_create_for_ticket` hands back. -/
inductive Handed where
  | raised
  | none
  | row (i : Nat)

/-- `_add_worktree`; git does not check out over something that is there. -/
def addWorktree (service : WorktreeService) (w : World) (ticketId : Nat) (id name : String)
    (cut : Cut) : World × Handed :=
  let path := service.worktreeBase ++ [name]
  if cut = .refused ∨ (w.disk path).lexists then (w, .none)
  else if cut = .abandoned then
    ({ w with disk := Function.update w.disk path (.directory false) }, .raised)
  else
    ({ rows := w.rows ++ [{ id := id, ticketId := some ticketId, worktreePath := some path }]
       disk := Function.update w.disk path (.directory true) }, .row w.rows.length)

/-- `active_worktree_for_ticket`, the newest. -/
def activeWorktreeForTicket (w : World) (ticketId : Nat) : Option (Worktree × Nat) :=
  w.rows.zipIdx.reverse.find? fun row =>
    row.1.ticketId = some ticketId ∧ row.1.state = .active

/-- `Path(worktree_path).is_dir()`; an empty path is the working directory. -/
def isDir (disk : Path → Entry) (fault : Option StatFault) (worktree : Worktree) :
    Except StatFault Bool :=
  match worktree.worktreePath with
  | none => .ok true
  | some path =>
    match directoryState disk fault path with
    | .ok state => .ok (state = .present)
    | .error .ignored => .ok false
    | .error .raised => .error .raised

/-- `get_or_create_for_ticket`; `_retire_missing` is `markCleaned`. -/
def getOrCreateForTicket (service : WorktreeService) (w : World) (ticketId : Nat)
    (fault : Option StatFault) (id name : String) (cut : Cut) : World × Handed :=
  match activeWorktreeForTicket w ticketId with
  | none => addWorktree service w ticketId id name cut
  | some (existing, i) =>
    match isDir w.disk fault existing with
    | .error _ => (w, .raised)
    | .ok true => (w, .row i)
    | .ok false => addWorktree service (markCleaned w i) ticketId id name cut

inductive Call where
  | retire (service : WorktreeService) (gate : KeepReasonGate) (i : Nat) (answers : Answers)
  | reconcile (service : Option WorktreeService) (answers : Nat → Answers)
  | settleGone (service : Option WorktreeService) (i : Nat) (answers : Answers)
  | releaseChat (service : Option WorktreeService) (chat : Nat) (answers : Answers)
  | getOrCreate (service : WorktreeService) (ticketId : Nat) (fault : Option StatFault)
      (id name : String) (cut : Cut)

def World.call (w : World) : Call → World
  | .retire service gate i answers =>
    (w.atRow i none fun worktree =>
      let outcome := retireWorktree service gate w i worktree answers
      (outcome.1, some outcome.2)).1
  | .reconcile service answers => (reconcileWorktrees service answers w).1
  | .settleGone service i answers =>
    (w.atRow i false fun worktree =>
      settleRowWhoseCheckoutIsGone service w i worktree answers).1
  | .releaseChat service chat answers => (releaseChatWorktree service w chat answers).1
  | .getOrCreate service ticketId fault id name cut =>
    (getOrCreateForTicket service w ticketId fault id name cut).1

def Possible (w : World) : Call → Prop
  | .retire _ _ i _ => ∀ worktree, w.rows[i]? = some worktree → worktree.state = .active
  | .settleGone _ i _ => ∀ worktree, w.rows[i]? = some worktree → worktree.state = .active
  | _ => True

def Step (w : World) (call : Call) (w' : World) : Prop := Possible w call ∧ w' = w.call call

/-- The worlds before and after each row's turn of a sweep. -/
def reconcileTurns (service : Option WorktreeService) (answers : Nat → Answers) :
    World → List Nat → List (World × World)
  | _, [] => []
  | w, i :: rest =>
    let turn := w.atRow i 0 fun worktree => reconcileRow service w i worktree (answers i)
    (w, turn.1) :: reconcileTurns service answers turn.1 rest

/-- The worlds before and after each commit of `get_or_create_for_ticket`. -/
def createTurns (service : WorktreeService) (w : World) (ticketId : Nat)
    (fault : Option StatFault) (id name : String) (cut : Cut) : List (World × World) :=
  match activeWorktreeForTicket w ticketId with
  | none => [(w, (addWorktree service w ticketId id name cut).1)]
  | some (existing, i) =>
    match isDir w.disk fault existing with
    | .ok false =>
      [(w, markCleaned w i),
        (markCleaned w i, (addWorktree service (markCleaned w i) ticketId id name cut).1)]
    | _ => []

/-- The worlds before and after each write a call makes. -/
def turns (w : World) : Call → List (World × World)
  | .reconcile service answers => reconcileTurns service answers w (activeRows w)
  | .getOrCreate service ticketId fault id name cut =>
    createTurns service w ticketId fault id name cut
  | call => [(w, w.call call)]

end Loregarden.Worktrees
