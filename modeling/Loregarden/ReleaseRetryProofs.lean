import Loregarden.ReleaseRetryModel
import Loregarden.WorktreeProofs

/-! # A failed release, tried again

    What each way of failing leaves, and what the next `retire_worktree` reads there.

  * `ended_releaseDirectory`: the four ends of a release of a checkout at its path.
  * `attempt_stands`: the same of a retirement whose premises hold.
  * `reached_attempts`: in a run of attempts the checkout is at its path with the premises
    holding, parked under the name its row carries, or gone, until an attempt puts back a
    tree whose delete failed.
  * `release_retriable_iff`: so the next retirement with no step failing accounts for it
    exactly when no attempt did.

    The delete runs after the prune. What a failed delete leaves is put back without its
    record, `git status` fails in it, and `_is_dirty` reads a failing status as changes. -/

namespace Loregarden.Worktrees

open Disk (Path isRelativeTo)
open Release
open Bool hiding and_assoc true_or

/-! ## The ends of a release -/

/-- A release of `c` under `faults`: it raised with the tree whole and in place, it raised
    with the tree parked, it removed the tree, or it put back what a failed delete left. -/
inductive Ended (c : Checkout) (t : Tree) (faults : Faults) : Checkout → Prop where
  | kept (failed : DirectoryReleaseFailed) (hparked : failed.parkedPath = none)
      (hgot : faults.mkdir = true ∨ faults.rename = true ∨
        t.refusesPrune faults = true ∧ faults.restore = false) :
      Ended c t faults { c with phase := .raised failed }
  | parked (failed : DirectoryReleaseFailed) (hparked : failed.parkedPath = some c.parkName)
      (whole registered : Bool) (hgot : faults.restore = true)
      (hgot' : t.refusesPrune faults = true ∨ faults.delete = true) :
      Ended c t faults
        { c with
          place := .parked, whole := whole, registered := registered, phase := .raised failed }
  | removed (hgot : faults.mkdir = false ∧ faults.rename = false)
      (hprune : t.refusesPrune faults = false) (hdelete : faults.delete = false) :
      Ended c t faults
        { c with
          place := .gone, whole := false, registered := c.registered && ! c.gitFile
          phase := .returned }
  | putBack (failed : DirectoryReleaseFailed) (hparked : failed.parkedPath = none)
      (hgot : t.putBack faults = true) :
      Ended c t faults
        { c with
          whole := false, registered := c.registered && ! c.gitFile, phase := .raised failed }

/-- A checkout as a release of the tree `t` finds it. -/
structure Ready (c : Checkout) (t : Tree) : Prop where
  idle : c.phase = .idle
  noLink : c.isLink = false
  inside : contained c.target c.base = true
  atPath : c.place = .atPath
  registered : c.registered = t.registered
  gitFile : c.gitFile = t.gitFile

variable {c : Checkout} {t : Tree} {faults : Faults}

section

variable (hc : Ready c t)
include hc

theorem Ready.not_link : ¬ c.isLink = true := eq_false_iff.mp hc.noLink

theorem Ready.claim_eq (hmkdir : faults.mkdir = false) (hrename : faults.rename = false) :
    c.claim faults.mkdir faults.rename = { c with place := .parked, phase := .renamed } := by
  have hcalls : ¬ (faults.rename = true ∨ c.place ≠ .atPath) := by
    rintro (hcall | hplace)
    · rw [hrename] at hcall
      cases hcall
    · exact hplace hc.atPath
  rw [Checkout.claim, if_neg (not_not.mpr hc.idle), if_neg hc.not_link,
    if_neg (not_not.mpr hc.inside), hmkdir, if_neg Bool.false_ne_true, if_neg hcalls]

theorem Ready.claim_raised (hcalls : faults.mkdir = true ∨ faults.rename = true) :
    ∃ failed : DirectoryReleaseFailed, failed.parkedPath = none ∧
      c.claim faults.mkdir faults.rename = { c with phase := .raised failed } := by
  rw [Checkout.claim, if_neg (not_not.mpr hc.idle), if_neg hc.not_link,
    if_neg (not_not.mpr hc.inside)]
  split
  · exact ⟨_, rfl, rfl⟩
  · rename_i hmkdir
    have hrename : faults.rename = true := hcalls.resolve_left hmkdir
    rw [if_pos (.inl hrename)]
    exact ⟨_, rfl, rfl⟩

theorem refusesPrune_of_ready :
    t.refusesPrune faults = (c.gitFile && (faults.prune || ! c.registered)) := by
  rw [Tree.refusesPrune, hc.registered, hc.gitFile]

/-- The prune of a claimed checkout: git refuses it, or the record is dropped where there
    is a `.git` to run it from. -/
theorem Ready.prune_eq :
    ({ c with place := .parked, phase := .renamed } : Checkout).pruneMetadata faults.prune =
      if t.refusesPrune faults then { c with place := .parked, phase := .pruneFailed }
      else
        { c with
          place := .parked, registered := c.registered && ! c.gitFile, phase := .pruned } := by
  obtain ⟨d, hd⟩ : ∃ d : Checkout, d = { c with place := .parked, phase := .renamed } := ⟨_, rfl⟩
  have hprunes : d.prunes faults.prune = (c.gitFile && ! faults.prune && c.registered) := by
    rw [Checkout.prunes, hd]
    simp
  rw [refusesPrune_of_ready hc, ← hd, Checkout.pruneMetadata, if_neg (by rw [hd]; simp), hprunes,
    hd]
  cases hgit : c.gitFile with
  | false => simp
  | true =>
    cases hreg : c.registered with
    | false => simp
    | true => cases faults.prune <;> simp [Checkout.dropped]

/-- **The ends of a release.** -/
theorem ended_releaseDirectory (faults : Faults) :
    Ended c t faults (c.releaseDirectory faults) := by
  rw [Checkout.releaseDirectory]
  by_cases hcalls : faults.mkdir = true ∨ faults.rename = true
  · obtain ⟨failed, hparked, hclaim⟩ := hc.claim_raised hcalls
    rw [hclaim]
    exact .kept failed hparked (hcalls.imp_right .inl)
  have hmkdir : faults.mkdir = false := eq_false_iff.mpr fun h => hcalls (.inl h)
  have hrename : faults.rename = false := eq_false_iff.mpr fun h => hcalls (.inr h)
  rw [hc.claim_eq hmkdir hrename, hc.prune_eq]
  by_cases hprune : t.refusesPrune faults = true
  · -- the delete is not run, the tree is whole
    rw [if_pos hprune]
    cases hback : faults.restore with
    | true => exact .parked _ rfl c.whole c.registered hback (.inl hprune)
    | false =>
      have hput : ({ c with place := .parked, phase := .pruneFailed } : Checkout).recover false =
          { c with place := .atPath }.raiseAs .intact := rfl
      show Ended c t faults
        (({ c with place := .parked, phase := .pruneFailed } : Checkout).recover false)
      rw [hput, ← hc.atPath]
      exact .kept _ rfl (.inr (.inr ⟨hprune, hback⟩))
  rw [if_neg hprune]
  have hprune' : t.refusesPrune faults = false := eq_false_iff.mpr hprune
  cases hdelete : faults.delete with
  | false => exact .removed ⟨hmkdir, hrename⟩ hprune' hdelete
  | true =>
    cases hback : faults.restore with
    | true => exact .parked _ rfl false _ hback (.inr hdelete)
    | false =>
      have hput : t.putBack faults = true := by
        rw [Tree.putBack, hmkdir, hrename, hprune', hdelete, hback]
        rfl
      show Ended c t faults ({ c with
        place := .atPath, whole := false, registered := c.registered && ! c.gitFile
        phase := .deleteFailed }.raiseAs .restored)
      rw [← hc.atPath]
      exact .putBack _ rfl hput

end

/-! ## A retirement whose premises hold -/

variable {service : WorktreeService} {gate : KeepReasonGate} {readings : Tree → Probes} {i : Nat}
  {path : Path} {s : Site} {a : Attempt} {w : World} {worktree : Worktree} {answers : Answers}

theorem directoryState_of_directory {disk : Path → Entry}
    (hdir : (disk path).isDirectory = true) : directoryState disk none path = .ok .present := by
  cases hentry : disk path with
  | directory checkout =>
    simp only [directoryState, hentry]
    rfl
  | nothing | file | link target =>
    rw [hentry] at hdir
    cases hdir

theorem lexists_of_directory {e : Entry} (hdir : e.isDirectory = true) : e.lexists = true := by
  cases e with
  | nothing => cases hdir
  | file | link target | directory checkout => rfl

theorem not_link_of_directory {e : Entry} (hdir : e.isDirectory = true) : e.isLink = false := by
  cases e with
  | nothing | file | directory checkout => rfl
  | link target => cases hdir

theorem refuseIfOutsideBase_ok {disk : Path → Entry}
    (hinside : contained path service.worktreeBase = true) (hlink : (disk path).isLink = false) :
    refuseIfOutsideBase service disk path = .ok () := by
  have hrelative : isRelativeTo path service.worktreeBase = true := by
    rw [contained, and_eq_true] at hinside
    exact hinside.1
  rw [refuseIfOutsideBase]
  cases hentry : disk path with
  | nothing | file | directory checkout => exact if_pos ⟨hrelative, hrelative⟩
  | link target =>
    rw [hentry] at hlink
    cases hlink

theorem parkName_ne (hinside : contained path service.worktreeBase = true) (name : String) :
    service.parkRoot ++ [name] ≠ path := by
  rintro rfl
  rw [contained, and_eq_true] at hinside
  have hprefix : service.worktreeBase <+: service.parkRoot ++ [name] :=
    List.isPrefixOf_iff_prefix.mp hinside.1
  rw [WorktreeService.worktreeBase, WorktreeService.parkRoot, List.append_assoc,
    List.prefix_append_right_inj] at hprefix
  simp at hprefix

/-- The row under `i` after a write to it. -/
theorem setRow_row {f : Worktree → Worktree} (hrow : w.rows[i]? = some worktree) :
    (w.setRow i f).rows[i]? = some (f worktree) := by
  simp [World.setRow, hrow]

section

variable (hpath : worktree.worktreePath = some path)
include hpath

section

variable (hinside : contained path service.worktreeBase = true)
include hinside

section

variable (hdir : (w.disk path).isDirectory = true)
include hdir

/-- The seam on a directory at its path is the release: what the release raises it raises,
    over the disk the release left. -/
theorem removeCheckout_raised {disk' : Path → Entry} {failed : RemoveError}
    (hrestat : answers.restat = none)
    (hrel : releaseDirectory service w.disk path answers = (disk', .error failed)) :
    removeCheckout service w i worktree answers = ({ w with disk := disk' }, .error failed) := by
  simp only [removeCheckout, hpath, hrestat, directoryState_of_directory hdir,
    refuseIfOutsideBase_ok hinside (not_link_of_directory hdir), true_or, if_true, hrel]

theorem removeCheckout_done {disk' : Path → Entry} (hrestat : answers.restat = none)
    (hrel : releaseDirectory service w.disk path answers = (disk', .ok ())) :
    removeCheckout service w i worktree answers =
      (markCleaned { w with disk := disk' } i, .ok ()) := by
  simp only [removeCheckout, hpath, hrestat, directoryState_of_directory hdir,
    refuseIfOutsideBase_ok hinside (not_link_of_directory hdir), true_or, if_true, hrel]

omit hinside in
/-- `retire_worktree` of a directory at its path whose premises hold goes to the seam. -/
theorem retireWorktree_eq (hstat : answers.stat = none) (hgate : gate answers.probes = .ok none) :
    retireWorktree service gate w i worktree answers =
      remove service w i worktree .present answers := by
  have hobserved : observedState w.disk answers.stat worktree = .ok .present := by
    rw [observedState, hpath, hstat]
    exact directoryState_of_directory hdir
  have hpremise : premiseOrUncertainty gate answers.probes .present = none := by
    simp only [premiseOrUncertainty, hgate]
  rw [retireWorktree, hobserved]
  show (if DirectoryState.present = .absent ∧ _ then _ else _) = _
  rw [if_neg (fun h => DirectoryState.noConfusion h.1), hpremise]

theorem releaseOf_eq (hstat : answers.stat = none) (hgate : gate answers.probes = .ok none) :
    releaseOf service gate w worktree answers =
      some ((releasedCheckout service w.disk path answers).releaseDirectory
        (faultsOf service w.disk answers)) := by
  have hobserved : observedState w.disk answers.stat worktree = .ok .present := by
    rw [observedState, hpath, hstat]
    exact directoryState_of_directory hdir
  have hpremise : premiseOrUncertainty gate answers.probes .present = none := by
    simp only [premiseOrUncertainty, hgate]
  simp only [releaseOf, hpath, hobserved, hpremise, if_true,
    refuseIfOutsideBase_ok hinside (not_link_of_directory hdir)]

end

end

omit hpath in
theorem premise_of_gate {probes : Probes} (hgate : gate probes ≠ .ok none) :
    ∃ refusal, premiseOrUncertainty gate probes .present = some refusal := by
  cases hanswer : gate probes with
  | ok reason =>
    cases reason with
    | none => exact absurd hanswer hgate
    | some reason => exact ⟨reason, by simp only [premiseOrUncertainty, hanswer]⟩
  | error raised =>
    cases raised with
    | claim => exact ⟨.claimUnproven, by simp only [premiseOrUncertainty, hanswer]⟩
    | os => exact ⟨.unreadable, by simp only [premiseOrUncertainty, hanswer]⟩

omit hpath in
theorem refused_spec (w : World) (i : Nat) (worktree : Worktree) (refusal : RetirementRefusal)
    (clause : String) (parkedPath : Option Path) (cause : Option CleanupRefusal)
    (disposition : Option ReleaseDisposition) :
    ∃ outcome : Retirement, outcome.refusal = some refusal ∧ outcome.parkedPath = parkedPath ∧
      refused w i worktree refusal clause parkedPath cause disposition =
        (recordRefusal w i outcome, outcome) :=
  ⟨_, rfl, rfl, rfl⟩

theorem retireWorktree_kept (hdir : (w.disk path).isDirectory = true) (hstat : answers.stat = none)
    (hgate : gate answers.probes ≠ .ok none) :
    releaseOf service gate w worktree answers = none ∧
      ∃ outcome : Retirement, outcome.refusal ≠ none ∧
        retireWorktree service gate w i worktree answers =
          (recordRefusal w i outcome, outcome) := by
  have hobserved : observedState w.disk answers.stat worktree = .ok .present := by
    rw [observedState, hpath, hstat]
    exact directoryState_of_directory hdir
  obtain ⟨refusal, hpremise⟩ := premise_of_gate hgate
  constructor
  · simp only [releaseOf, hpath, hobserved, hpremise, reduceCtorEq, if_false]
  · obtain ⟨outcome, hrefusal, -, hrefused⟩ := refused_spec w i worktree (.keep refusal)
      (premiseClause answers.probes refusal) none none none
    refine ⟨outcome, hrefusal ▸ Option.some_ne_none _, ?_⟩
    rw [retireWorktree, hobserved]
    show (if DirectoryState.present = .absent ∧ _ then _ else _) = _
    rw [if_neg (fun h => DirectoryState.noConfusion h.1), hpremise]
    exact hrefused

/-! ## The states of a checkout between attempts -/

/-- The bytes are parked, and the row carries the name. -/
structure Named (i : Nat) (path : Path) (s : Site) : Prop where
  row : ∃ worktree parked, s.world.rows[i]? = some worktree ∧
    worktree.worktreePath = some path ∧ worktree.parkedAt = some parked ∧ parked ≠ path ∧
    s.bytes = some parked ∧ (s.world.disk parked).isDirectory = true
  away : s.world.disk path = .nothing

/-- The checkout is gone, and the row names no other place. -/
structure Gone (service : WorktreeService) (i : Nat) (path : Path) (s : Site) : Prop where
  row : ∃ worktree, s.world.rows[i]? = some worktree ∧ worktree.worktreePath = some path ∧
    worktree.parkedAt = none
  inside : contained path service.worktreeBase = true
  bytes : s.bytes = none
  away : s.world.disk path = .nothing

omit hpath in
/-- The retirement of the row under `i`, spelled out. -/
theorem attempt_eq (hrow : s.world.rows[i]? = some worktree) : s.attempt service gate readings i a =
      ({ world := (retireWorktree service gate s.world i worktree (s.answers readings a)).1
         tree := ((releaseOf service gate s.world worktree (s.answers readings a)).map
           fun c => s.tree.after c a.leaves).getD s.tree
         bytes := ((releaseOf service gate s.world worktree (s.answers readings a)).map
           bytesOf).getD s.bytes },
        some (retireWorktree service gate s.world i worktree (s.answers readings a)).2) := by
  rw [Site.attempt, hrow]
  simp only [World.atRow, hrow]
  rfl

omit hpath in
/-- **A checkout the premises keep stays where it is**, whatever else would fail. -/
theorem attempt_kept (hs : Stands service i path s) (hgate : gate (readings s.tree) ≠ .ok none) :
    Stands service i path (s.attempt service gate readings i a).1 ∧
      (s.attempt service gate readings i a).1.tree = s.tree ∧
      (s.attempt service gate readings i a).2.map (·.refusal) ≠ some none := by
  obtain ⟨worktree, hrow, hpath⟩ := hs.row
  obtain ⟨hnone, outcome, hrefusal, hretire⟩ :
      releaseOf service gate s.world worktree (s.answers readings a) = none ∧
        ∃ outcome : Retirement, outcome.refusal ≠ none ∧
          retireWorktree service gate s.world i worktree (s.answers readings a) =
            (recordRefusal s.world i outcome, outcome) :=
    retireWorktree_kept hpath hs.there rfl hgate
  rw [attempt_eq hrow, hretire, hnone]
  refine ⟨⟨⟨_, setRow_row hrow, hpath⟩, hs.inside, hs.there, hs.bytes⟩, rfl, ?_⟩
  intro h
  exact hrefusal (Option.some.inj h)

omit hpath in
theorem directoryState_of_nothing {disk : Path → Entry} (haway : disk path = .nothing) :
    directoryState disk none path = .ok .absent := by
  simp only [directoryState, haway]
  rfl

theorem releaseOf_absent (haway : w.disk path = .nothing) (hstat : answers.stat = none) :
    releaseOf service gate w worktree answers = none := by
  simp only [releaseOf, hpath, observedState, hstat, directoryState_of_nothing haway]

end

/-- **A parked checkout is left parked and named**: the refusal that writes nothing. -/
theorem attempt_named (hs : Named i path s) : Named i path (s.attempt service gate readings i a).1 ∧
      (s.attempt service gate readings i a).2.bind (·.refusal) = some (.keep .parkedCheckout) := by
  obtain ⟨worktree, parked, hrow, hpath, hparked, hne, hbytes, hdir⟩ := hs.row
  have hobserved : observedState s.world.disk none worktree = .ok .absent := by
    rw [observedState, hpath]
    exact directoryState_of_nothing hs.away
  have hlive : parkedAtHoldsLiveDirectory s.world.disk none worktree = true := by
    simp only [parkedAtHoldsLiveDirectory, hparked, directoryState_of_directory hdir]
    rfl
  have hretire : ∃ outcome : Retirement, outcome.refusal = some (.keep .parkedCheckout) ∧
      retireWorktree service gate s.world i worktree (s.answers readings a) =
        (s.world, outcome) := by
    refine ⟨
      { refusal := some (.keep .parkedCheckout)
        deletedNothing := true
        parkedPath := none
        detail := refusalDetail worktree none (reasonClause .parkedCheckout) none }, rfl, ?_⟩
    rw [retireWorktree, show (s.answers readings a).stat = none from rfl, hobserved]
    exact if_pos ⟨rfl, hlive⟩
  obtain ⟨outcome, hrefusal, hretire⟩ := hretire
  rw [attempt_eq hrow, hretire, releaseOf_absent hpath hs.away rfl]
  exact ⟨⟨⟨worktree, parked, hrow, hpath, hparked, hne, hbytes, hdir⟩, hs.away⟩, hrefusal⟩

/-- **A checkout that is gone settles its row.** -/
theorem attempt_gone (hs : Gone service i path s) :
    Gone service i path (s.attempt service gate readings i a).1 ∧
      (s.attempt service gate readings i a).2.map (·.refusal) = some none := by
  obtain ⟨worktree, hrow, hpath, hparked⟩ := hs.row
  have hobserved : observedState s.world.disk none worktree = .ok .absent := by
    rw [observedState, hpath]
    exact directoryState_of_nothing hs.away
  have hlive : ¬ parkedAtHoldsLiveDirectory s.world.disk none worktree = true := by
    simp only [parkedAtHoldsLiveDirectory, hparked]
    exact false_ne_true
  have hlink : (s.world.disk path).isLink = false := by
    rw [hs.away]
    rfl
  have hsettle : settleAbsentCheckout service s.world i worktree =
      (markCleaned s.world i, .ok ()) := by
    simp only [settleAbsentCheckout, hpath, refuseIfOutsideBase_ok hs.inside hlink]
  have hretire : ∃ outcome : Retirement, outcome.refusal = none ∧ outcome.parkedPath = none ∧
      retireWorktree service gate s.world i worktree (s.answers readings a) =
        (recordRefusal (markCleaned s.world i) i outcome, outcome) := by
    refine ⟨{ refusal := none, deletedNothing := false, parkedPath := none, detail := "" },
      rfl, rfl, ?_⟩
    rw [retireWorktree, show (s.answers readings a).stat = none from rfl, hobserved]
    show (if DirectoryState.absent = .absent ∧ _ then _ else _) = _
    rw [if_neg (fun h => hlive h.2)]
    simp only [premiseOrUncertainty, remove, hsettle]
  obtain ⟨outcome, hrefusal, hnone, hretire⟩ := hretire
  rw [attempt_eq hrow, hretire, releaseOf_absent hpath hs.away rfl]
  exact ⟨⟨⟨_, setRow_row (setRow_row hrow), hpath, hnone⟩, hs.inside, hs.bytes, hs.away⟩,
    congrArg some hrefusal⟩

/-! ## An attempt whose premises hold -/

section Seam

variable {disk : Path → Entry} {d : Checkout} {failed : DirectoryReleaseFailed}

section

variable (hd : (releasedCheckout service disk path answers).releaseDirectory
    (faultsOf service disk answers) = d)
include hd

theorem release_atPath (hphase : d.phase = .raised failed) (hplace : d.place = .atPath) :
    ∃ refusal, releaseDirectory service disk path answers =
      (disk, .error (.released failed refusal)) := by
  rw [faultsOf] at hd
  simp only [releaseDirectory, hd, hphase, hplace]
  exact ⟨_, rfl⟩

theorem release_parked (hphase : d.phase = .raised failed) (hplace : d.place = .parked) :
    ∃ refusal, releaseDirectory service disk path answers =
      (Function.update (Function.update disk path .nothing)
        (service.parkRoot ++ [answers.parkName]) (disk path),
        .error (.released failed refusal)) := by
  rw [faultsOf] at hd
  simp only [releaseDirectory, hd, hphase, hplace]
  exact ⟨_, rfl⟩

theorem release_gone (hphase : d.phase = .returned) (hplace : d.place = .gone) :
    releaseDirectory service disk path answers = (Function.update disk path .nothing, .ok ()) := by
  rw [faultsOf] at hd
  simp only [releaseDirectory, hd, hphase, hplace]

end

theorem remove_raised {w' : World} {refusal : CleanupRefusal}
    (hremoved : removeCheckout service w i worktree answers =
      (w', .error (.released failed refusal))) :
    ∃ outcome : Retirement, outcome.refusal = some .cleanupFailed ∧
      outcome.parkedPath = failed.parkedPath ∧
      remove service w i worktree .present answers = (recordRefusal w' i outcome, outcome) := by
  simp only [remove, hremoved]
  exact refused_spec w' i worktree .cleanupFailed _ _ _ _

theorem remove_done {w' : World}
    (hremoved : removeCheckout service w i worktree answers = (w', .ok ())) :
    ∃ outcome : Retirement, outcome.refusal = none ∧ outcome.parkedPath = none ∧
      remove service w i worktree .present answers = (recordRefusal w' i outcome, outcome) := by
  simp only [remove, hremoved]
  exact ⟨_, rfl, rfl, rfl⟩

end Seam

/-- What an attempt whose premises hold does with a checkout at its path, under the faults
    of its release. -/
inductive Attempted (service : WorktreeService) (i : Nat) (path : Path) (s : Site) (a : Attempt)
    (faults : Faults) (next : Site × Option Retirement) : Prop where
  | kept (hstands : Stands service i path next.1) (htree : next.1.tree = s.tree)
      (hgot : faults.mkdir = true ∨ faults.rename = true ∨
        s.tree.refusesPrune faults = true ∧ faults.restore = false)
      (hrefusal : next.2.bind (·.refusal) = some .cleanupFailed)
  | parked (hnamed : Named i path next.1) (hgot : faults.restore = true)
  | removed (hgone : Gone service i path next.1) (hrefusal : next.2.map (·.refusal) = some none)
      (hdelete : faults.delete = false)
  | putBack (hstands : Stands service i path next.1)
      (htree : next.1.tree = s.tree.remains a.leaves) (hput : s.tree.putBack faults = true)

theorem ready_releasedCheckout (hs : Stands service i path s) :
    Ready (releasedCheckout service s.world.disk path (s.answers readings a)) s.tree where
  idle := rfl
  noLink := not_link_of_directory hs.there
  inside := hs.inside
  atPath := if_pos (lexists_of_directory hs.there)
  registered := rfl
  gitFile := rfl

/-- **An attempt whose premises hold** ends in one of the four ways of its release. -/
theorem attempt_stands (hs : Stands service i path s) (hgate : gate (readings s.tree) = .ok none) :
    Attempted service i path s a (faultsOf service s.world.disk (s.answers readings a))
      (s.attempt service gate readings i a) := by
  obtain ⟨worktree, hrow, hpath⟩ := hs.row
  have hretire : retireWorktree service gate s.world i worktree (s.answers readings a) =
      remove service s.world i worktree .present (s.answers readings a) :=
    retireWorktree_eq hpath hs.there rfl hgate
  have hrelease : releaseOf service gate s.world worktree (s.answers readings a) =
      some ((releasedCheckout service s.world.disk path (s.answers readings a)).releaseDirectory
        (faultsOf service s.world.disk (s.answers readings a))) :=
    releaseOf_eq hpath hs.inside hs.there rfl hgate
  obtain ⟨d, hd⟩ : ∃ d, (releasedCheckout service s.world.disk path
    (s.answers readings a)).releaseDirectory
      (faultsOf service s.world.disk (s.answers readings a)) = d := ⟨_, rfl⟩
  have hready : Ready (releasedCheckout service s.world.disk path (s.answers readings a)) s.tree :=
    ready_releasedCheckout hs
  have hended := ended_releaseDirectory hready
    (faultsOf service s.world.disk (s.answers readings a))
  rw [hd] at hrelease hended
  rw [attempt_eq hrow, hretire, hrelease]
  have hplace : (releasedCheckout service s.world.disk path (s.answers readings a)).place =
      .atPath := if_pos (lexists_of_directory hs.there)
  cases hended with
  | kept failed hparked hgot =>
    obtain ⟨refusal, hseam⟩ := release_atPath hd rfl hplace
    obtain ⟨outcome, hrefusal, -, hremove⟩ :=
      remove_raised (removeCheckout_raised hpath hs.inside hs.there rfl hseam)
    rw [hremove]
    exact .kept ⟨⟨_, setRow_row hrow, hpath⟩, hs.inside, hs.there, hplace ▸ rfl⟩ rfl hgot hrefusal
  | parked failed hparked whole registered hgot hgot' =>
    obtain ⟨refusal, hseam⟩ := release_parked hd rfl rfl
    obtain ⟨outcome, hrefusal, hrecorded, hremove⟩ :=
      remove_raised (removeCheckout_raised hpath hs.inside hs.there rfl hseam)
    rw [hremove]
    have hne := parkName_ne hs.inside a.parkName
    refine .parked
      ⟨⟨_, _, setRow_row hrow, hpath, hrecorded.trans hparked, hne, rfl, ?_⟩, ?_⟩ hgot
    · exact (congrArg Entry.isDirectory (Function.update_self _ _ _)).trans hs.there
    · exact (Function.update_of_ne hne.symm _ _).trans (Function.update_self _ _ _)
  | removed hgot hprune hdelete =>
    obtain ⟨outcome, hsettled, hrecorded, hremove⟩ := remove_done (removeCheckout_done hpath
      hs.inside hs.there rfl (release_gone hd rfl rfl))
    rw [hremove]
    exact .removed ⟨⟨_, setRow_row (setRow_row hrow), hpath, hrecorded⟩, hs.inside, rfl,
      Function.update_self _ _ _⟩ (congrArg some hsettled) hdelete
  | putBack failed hparked hgot =>
    obtain ⟨refusal, hseam⟩ := release_atPath hd rfl hplace
    obtain ⟨outcome, hrefusal, -, hremove⟩ :=
      remove_raised (removeCheckout_raised hpath hs.inside hs.there rfl hseam)
    rw [hremove]
    exact .putBack ⟨⟨_, setRow_row hrow, hpath⟩, hs.inside, hs.there, hplace ▸ rfl⟩ rfl hgot

/-! ## Runs of attempts -/

/-- A gate of this service: a ticket's or a chat thread's. -/
def IsGate (gate : KeepReasonGate) : Prop := gate = keepReason ∨ gate = chatKeepReason

theorem checkoutLoss_of_chatKeepReason {probes : Probes}
    (hok : chatKeepReason probes = .ok none) : checkoutLoss probes = none := by
  rw [chatKeepReason] at hok
  cases hclaim : probes.claimState with
  | error raised =>
    rw [hclaim] at hok
    cases hok
  | ok state =>
    cases hrefusal : claimRefusal state with
    | some claimed => simp [hclaim, hrefusal, bind, Except.bind, pure, Except.pure] at hok
    | none => simpa [hclaim, hrefusal, bind, Except.bind, pure, Except.pure] using hok

theorem chatKeepReason_of_keepReason {probes : Probes} (hok : keepReason probes = .ok none) :
    chatKeepReason probes = .ok none := by
  rw [keepReason] at hok
  rw [chatKeepReason]
  cases hclaim : probes.claimState with
  | error raised =>
    rw [hclaim] at hok
    cases hok
  | ok state =>
    cases hrefusal : claimRefusal state with
    | some claimed => simp [hclaim, hrefusal, bind, Except.bind, pure, Except.pure] at hok
    | none =>
      cases hreceipt : probes.receipt with
      | error raised => simp [hclaim, hrefusal, hreceipt, bind, Except.bind] at hok
      | ok answer =>
        cases answer <;> cases hloss : checkoutLoss probes <;>
          simp [hclaim, hrefusal, hreceipt, hloss, bind, Except.bind, pure, Except.pure] at hok ⊢

theorem IsGate.dirty {probes : Probes} (hgate : IsGate gate) (hdirty : probes.isDirty = true) :
    gate probes ≠ .ok none := by
  intro hok
  have hchat : chatKeepReason probes = .ok none := by
    rcases hgate with rfl | rfl
    · exact chatKeepReason_of_keepReason hok
    · exact hok
  have hloss : checkoutLoss probes = some .uncommitted := if_pos hdirty
  rw [checkoutLoss_of_chatKeepReason hchat] at hloss
  cases hloss

/-- `git status` fails in a tree git has no record of, and `_is_dirty` reads that as dirty. -/
def FailsUnregistered (readings : Tree → Probes) : Prop :=
  ∀ t : Tree, t.registered = false → (readings t).isDirty = true

/-- The next retirement can account for the checkout: the premises hold of it at its path,
    the row names where it is parked, or it is gone. -/
inductive Retriable (service : WorktreeService) (gate : KeepReasonGate) (readings : Tree → Probes)
    (i : Nat) (path : Path) (s : Site) : Prop where
  | stands (hs : Stands service i path s) (hgate : gate (readings s.tree) = .ok none)
  | named (hs : Named i path s)
  | gone (hs : Gone service i path s)

structure Stuck (service : WorktreeService) (gate : KeepReasonGate) (readings : Tree → Probes)
    (i : Nat) (path : Path) (s : Site) : Prop where
  stands : Stands service i path s
  kept : gate (readings s.tree) ≠ .ok none

theorem putBack_faults (hput : t.putBack faults = true) :
    faults.mkdir = false ∧ faults.rename = false ∧ t.refusesPrune faults = false ∧
      faults.delete = true ∧ faults.restore = false := by
  rw [Tree.putBack] at hput
  simpa [and_assoc] using hput

theorem Stuck.attempt (hs : Stuck service gate readings i path s) :
    Stuck service gate readings i path (s.attempt service gate readings i a).1 := by
  obtain ⟨hstands, htree, -⟩ := attempt_kept (a := a) hs.stands hs.kept
  refine ⟨hstands, ?_⟩
  rw [htree]
  exact hs.kept

/-- An attempt that does not put back what a failed delete left keeps the checkout retriable. -/
theorem Retriable.attempt (hs : Retriable service gate readings i path s)
    (ha : ¬ Spoils service gate readings path s a) :
    Retriable service gate readings i path (s.attempt service gate readings i a).1 := by
  cases hs with
  | named hs => exact .named (attempt_named hs).1
  | gone hs => exact .gone (attempt_gone hs).1
  | stands hs hgate =>
    cases attempt_stands (a := a) hs hgate with
    | kept hstands htree hgot hrefusal => exact .stands hstands (htree ▸ hgate)
    | parked hnamed hgot => exact .named hnamed
    | removed hgone hrefusal hdelete => exact .gone hgone
    | putBack hstands htree hput =>
      refine .stands hstands ?_
      rw [htree]
      by_contra hkept
      exact ha ⟨hs.bytes, hput, hkept⟩

theorem Retriable.spoiled (hs : Retriable service gate readings i path s)
    (ha : Spoils service gate readings path s a) :
    Stuck service gate readings i path (s.attempt service gate readings i a).1 := by
  cases hs with
  | named hs =>
    obtain ⟨-, parked, -, -, -, hne, hbytes, -⟩ := hs.row
    exact absurd (Option.some.inj (hbytes.symm.trans ha.there)) hne
  | gone hs => exact absurd (hs.bytes.symm.trans ha.there) (Option.some_ne_none path).symm
  | stands hs hgate =>
    obtain ⟨hmkdir, hrename, hprune, hdelete, hrestore⟩ := putBack_faults ha.putBack
    cases attempt_stands (a := a) hs hgate with
    | kept hstands htree hgot hrefusal =>
      rcases hgot with h | h | ⟨h, -⟩
      · exact absurd (hmkdir.symm.trans h) false_ne_true
      · exact absurd (hrename.symm.trans h) false_ne_true
      · exact absurd (hprune.symm.trans h) false_ne_true
    | parked hnamed hgot => exact absurd (hrestore.symm.trans hgot) false_ne_true
    | removed hgone hrefusal hgot => exact absurd (hgot.symm.trans hdelete) false_ne_true
    | putBack hstands htree hput =>
      refine ⟨hstands, ?_⟩
      rw [htree]
      exact ha.kept

/-- No attempt of the run put back a tree that the premises do not pass any more. -/
def NeverSpoils (service : WorktreeService) (gate : KeepReasonGate) (readings : Tree → Probes)
    (i : Nat) (path : Path) (s : Site) (attempts : List Attempt) : Prop :=
  ∀ before a after, attempts = before ++ a :: after →
    ¬ Spoils service gate readings path (s.attempts service gate readings i before) a

theorem neverSpoils_cons {rest : List Attempt} :
    NeverSpoils service gate readings i path s (a :: rest) ↔
      ¬ Spoils service gate readings path s a ∧
        NeverSpoils service gate readings i path (s.attempt service gate readings i a).1 rest := by
  constructor
  · intro h
    refine ⟨h [] a rest rfl, fun before b after hrest => ?_⟩
    exact h (a :: before) b after (congrArg (List.cons a) hrest)
  · rintro ⟨hfirst, hrest⟩ before b after hall
    cases before with
    | nil =>
      obtain ⟨rfl, -⟩ := List.cons.inj hall
      exact hfirst
    | cons first before =>
      obtain ⟨rfl, hrest'⟩ := List.cons.inj hall
      exact hrest before b after hrest'

theorem stuck_attempts (attempts : List Attempt) (hs : Stuck service gate readings i path s) :
    Stuck service gate readings i path (s.attempts service gate readings i attempts) := by
  induction attempts generalizing s with
  | nil => exact hs
  | cons a rest ih => exact ih hs.attempt

/-- **What a run of attempts leaves**: a retriable checkout when none of them spoiled it,
    and a stuck one from the first that did. -/
theorem reached_attempts (attempts : List Attempt) (hs : Retriable service gate readings i path s) :
    (NeverSpoils service gate readings i path s attempts ∧
        Retriable service gate readings i path (s.attempts service gate readings i attempts)) ∨
      (¬ NeverSpoils service gate readings i path s attempts ∧
        Stuck service gate readings i path (s.attempts service gate readings i attempts)) := by
  induction attempts generalizing s with
  | nil =>
    refine .inl ⟨fun before a after h => ?_, hs⟩
    simp at h
  | cons a rest ih =>
    rw [neverSpoils_cons]
    by_cases ha : Spoils service gate readings path s a
    · exact .inr ⟨fun h => h.1 ha, stuck_attempts rest (hs.spoiled ha)⟩
    · rcases ih (hs.attempt ha) with ⟨hnever, hreached⟩ | ⟨hspoiled, hreached⟩
      · exact .inl ⟨⟨ha, hnever⟩, hreached⟩
      · exact .inr ⟨fun h => hspoiled h.2, hreached⟩

theorem faultsOf_faultless (ha : Faultless service s a) :
    faultsOf service s.world.disk (s.answers readings a) = {} := by
  have hrename : (a.faults.rename ||
      (s.world.disk (service.parkRoot ++ [a.parkName])).lexists) = false := by
    rw [ha.faults]
    exact ha.free
  show ({ a.faults with
    rename := a.faults.rename ||
      (s.world.disk (service.parkRoot ++ [a.parkName])).lexists } : Faults) = {}
  rw [hrename, ha.faults]

theorem Retriable.answered (hgates : IsGate gate) (hlaw : FailsUnregistered readings)
    (hs : Retriable service gate readings i path s) (ha : Faultless service s a) :
    Answered i path (s.attempt service gate readings i a) := by
  have hgoes : Gone service i path (s.attempt service gate readings i a).1 →
      (s.attempt service gate readings i a).2.map (·.refusal) = some none →
      Answered i path (s.attempt service gate readings i a) := by
    intro hgone hrefusal
    refine ⟨.inl ⟨hgone.bytes, ?_, hrefusal⟩, ?_⟩
    · rw [hgone.away]
      rfl
    · intro hkept
      obtain ⟨outcome, houtcome, hnone⟩ := Option.map_eq_some_iff.mp hrefusal
      rw [houtcome] at hkept
      exact absurd (hnone.symm.trans hkept) (Option.some_ne_none _).symm
  cases hs with
  | gone hs => exact hgoes (attempt_gone hs).1 (attempt_gone hs).2
  | named hs =>
    obtain ⟨hnamed, hrefusal⟩ : Named i path (s.attempt service gate readings i a).1 ∧
        (s.attempt service gate readings i a).2.bind (·.refusal) =
          some (.keep .parkedCheckout) := attempt_named hs
    obtain ⟨worktree, parked, hrow, -, hparked, hne, hbytes, hdir⟩ := hnamed.row
    refine ⟨.inr ⟨parked, worktree, hne, hbytes, hdir, hrow, hparked⟩, ?_⟩
    rw [hrefusal]
    intro h
    cases h
  | stands hs hgate =>
    have hfaults : faultsOf service s.world.disk (s.answers readings a) = {} :=
      faultsOf_faultless ha
    have hreg : s.tree.registered = true := by
      by_contra hreg
      exact hgates.dirty (hlaw _ (eq_false_iff.mpr hreg)) hgate
    have hprune : s.tree.refusesPrune {} = false := by
      rw [Tree.refusesPrune, hreg]
      exact and_false _
    have hattempt := attempt_stands (a := a) hs hgate
    rw [hfaults] at hattempt
    cases hattempt with
    | kept hstands htree hgot hrefusal =>
      rcases hgot with h | h | ⟨h, -⟩
      · cases h
      · cases h
      · exact absurd (hprune.symm.trans h) false_ne_true
    | parked hnamed hgot => cases hgot
    | removed hgone hrefusal hdelete => exact hgoes hgone hrefusal
    | putBack hstands htree hput => cases (putBack_faults hput).2.2.2.1

theorem Stuck.not_answered (hs : Stuck service gate readings i path s) :
    ¬ Answered i path (s.attempt service gate readings i a) := by
  intro hanswered
  obtain ⟨hstands, -, hrefused⟩ := attempt_kept (a := a) hs.stands hs.kept
  rcases hanswered.accounted with ⟨-, -, hsettled⟩ | ⟨parked, -, hne, hbytes, -⟩
  · exact hrefused hsettled
  · exact hne (Option.some.inj (hbytes.symm.trans hstands.bytes))

/-- **When a failed release can be retried.** A checkout was found to hold no loss, and attempts to
    release it followed. A retirement in which no step fails then removes it, or leaves it parked
    and named, and never says that it holds uncommitted work, exactly when no attempt before put
    back what its failed delete had left of a tree with a record. -/
theorem release_retriable_iff (hgates : IsGate gate) (hlaw : FailsUnregistered readings)
    (hs : Stands service i path s) (hfound : gate (readings s.tree) = .ok none)
    (attempts : List Attempt)
    (ha : Faultless service (s.attempts service gate readings i attempts) a) :
    Answered i path
        ((s.attempts service gate readings i attempts).attempt service gate readings i a) ↔
      NeverSpoils service gate readings i path s attempts := by
  rcases reached_attempts attempts (.stands hs hfound) with ⟨hnever, hreached⟩ | ⟨hnot, hreached⟩
  · exact ⟨fun _ => hnever, fun _ => hreached.answered hgates hlaw ha⟩
  · exact ⟨fun h => absurd h hreached.not_answered, fun h => absurd h hnot⟩

/-! ## A tree that was put back -/

def ticketPath : Path := ["r", ".worktrees", "t"]

def ticketSite : Site where
  world := oneCheckout
  tree := ⟨[".git", "a.py"], true⟩
  bytes := some ticketPath

/-- A clean tree whose work landed; `git status` answers as long as it is registered. -/
def landedReadings (t : Tree) : Probes := ⟨.ok none, .ok none, ! t.registered, false, true⟩

theorem failsUnregistered_landedReadings : FailsUnregistered landedReadings := by
  intro t ht
  show (! t.registered) = true
  rw [ht]
  rfl

theorem stands_ticketSite : Stands exampleService 0 ticketPath ticketSite where
  row := ⟨_, rfl, rfl⟩
  inside := by decide
  there := rfl
  bytes := rfl

def plainRelease : Attempt := ⟨{}, "q", fun _ => true⟩

def prunelessRelease : Attempt := ⟨{ prune := true }, "p", fun _ => true⟩

/-- The delete fails before it removed anything, and the tree is put back. -/
def deletelessRelease : Attempt := ⟨{ delete := true }, "p", fun _ => true⟩

/-- A failed prune can be tried again. -/
theorem release_retriable_iff_pruneless : Answered 0 ticketPath
      ((ticketSite.attempts exampleService keepReason landedReadings 0
        [prunelessRelease]).attempt exampleService keepReason landedReadings 0
          plainRelease) := by
  refine (release_retriable_iff (.inl rfl) failsUnregistered_landedReadings stands_ticketSite rfl
    [prunelessRelease] ⟨rfl, by decide +kernel⟩).mpr ?_
  refine neverSpoils_cons.mpr ⟨fun h => ?_, fun before a after h => ?_⟩
  · cases (putBack_faults h.putBack).2.2.2.1
  · simp at h

/-- The first retirement says to delete the checkout again, and the second refuses to. -/
theorem put_back_not_retriable : Stands exampleService 0 ticketPath ticketSite ∧
      keepReason (landedReadings ticketSite.tree) = .ok none ∧
      (ticketSite.attempt exampleService keepReason landedReadings 0
          deletelessRelease).2.map (·.detail) =
        some ("The directory is still at /r/.worktrees/t and is still owned, but part of it " ++
          "may be gone and git no longer lists it as a worktree — delete it again, or remove " ++
          "the directory by hand.") ∧
      Faultless exampleService
        (ticketSite.attempts exampleService keepReason landedReadings 0 [deletelessRelease])
        plainRelease ∧
      ((ticketSite.attempts exampleService keepReason landedReadings 0
          [deletelessRelease]).attempt exampleService keepReason landedReadings 0
            plainRelease).2.bind (·.refusal) = some (.keep .uncommitted) :=
  ⟨stands_ticketSite, rfl, by decide +kernel, ⟨rfl, by decide +kernel⟩, by decide +kernel⟩

end Loregarden.Worktrees
