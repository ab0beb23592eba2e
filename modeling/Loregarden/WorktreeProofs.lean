import Loregarden.WorktreeModel
import Loregarden.ReleaseProofs
import Loregarden.TableProofs

/-! # A checkout that still exists is named by an ACTIVE row

A failed release parks a checkout under a name that only `parked_at` records. Most writes to a row
put an empty path in that column, and the stamp that closes a row asks for the recorded path at
most. So the bytes stay named exactly as long as no call writes to a row whose parked copy is there,
and no call closes a row whose checkout is. A write of either kind is a `RowWrite`; every turn of
every call that fits is one, and what it keeps is proved once. -/

namespace Loregarden.Worktrees

open Disk (Path isRelativeTo)
open Release Runs Tables List Option Function

variable {w w' : World} {worktree : Worktree} {answers : Answers} {i : Nat}
variable {path : Path} {fault : Option StatFault} {service : WorktreeService}

/-! ## What is to hold -/

/-- `parked_at` names a directory that is there. -/
def Parked (w : World) (worktree : Worktree) : Prop :=
  ∃ path, worktree.parkedAt = some path ∧ (w.disk path).isDirectory = true

/-- So does `worktree_path`. -/
def Present (w : World) (worktree : Worktree) : Prop :=
  ∃ path, worktree.worktreePath = some path ∧ (w.disk path).isDirectory = true

/-- Every directory that was a checkout of a row is named by an ACTIVE one. -/
def AllNamed (w : World) : Prop :=
  ∀ path, w.disk path = .directory true →
    ∃ (i : Nat) (worktree : Worktree), w.rows[i]? = some worktree ∧ worktree.state = .active ∧
      (worktree.worktreePath = some path ∨ worktree.parkedAt = some path)

/-- One write: it leaves every `parked_at` whose directory is there, and it closes no row
    whose checkout or parked copy is. -/
structure Careful (w w' : World) : Prop where
  kept : ∀ (i : Nat) worktree after path, w.rows[i]? = some worktree → w'.rows[i]? = some after →
    worktree.parkedAt = some path → (w'.disk path).isDirectory = true →
    after.parkedAt = some path
  closed : ∀ (i : Nat) worktree after, w.rows[i]? = some worktree → w'.rows[i]? = some after →
    worktree.state ≠ .cleanup → after.state = .cleanup → ¬ Present w' after ∧ ¬ Parked w' worktree

/-- A row whose parked copy is there is handed to `_settle` only with its recorded path
    found absent. -/
def SettleFits (w : World) (worktree : Worktree) (answers : Answers) : Prop :=
  Parked w worktree → observedState w.disk answers.stat worktree = .ok .absent

/-- The same for one row of a sweep, which passes over an unfinished ticket's checkout. -/
def ReconcileFits (w : World) (worktree : Worktree) (answers : Answers) : Prop :=
  Parked w worktree → observedState w.disk answers.stat worktree = .ok .absent ∨
    observedState w.disk answers.stat worktree = .ok .present ∧ answers.ticketFinished = false

def SweepFits (service : Option WorktreeService) (answers : Nat → Answers) : World → List Nat → Prop
  | _, [] => True
  | w, i :: rest =>
    (∀ worktree, w.rows[i]? = some worktree → service.isSome = true →
      ReconcileFits w worktree (answers i)) ∧
    SweepFits service answers
      (w.atRow i 0 fun worktree => reconcileRow service w i worktree (answers i)).1 rest

/-- No call writes to a row whose parked copy is there or closes one whose checkout is. -/
def Fits (w : World) : Call → Prop
  | .retire _ _ i answers =>
    ∀ worktree, w.rows[i]? = some worktree → SettleFits w worktree answers
  | .reconcile service answers => SweepFits service answers w (activeRows w)
  | .settleGone service i _ =>
    ∀ worktree, w.rows[i]? = some worktree → service.isSome = true →
      ¬ Parked w worktree ∧ ¬ Present w worktree
  | .releaseChat service chat answers =>
    ∀ row, chatRow w chat = some row → Parked w row.1 →
      service.isSome = true ∧ observedState w.disk answers.stat row.1 = .ok .absent
  | .getOrCreate _ ticketId fault _ _ _ =>
    ∀ row, activeWorktreeForTicket w ticketId = some row →
      isDir w.disk fault row.1 = .ok false → ¬ Parked w row.1 ∧ ¬ Present w row.1

/-! ## One write -/

/-- A write to one ACTIVE row with no parked copy: what the disk loses is what the row
    closes on or parks, and what it gains the row parks. -/
structure RowWrite (w w' : World) (i : Nat) (worktree : Worktree) (f : Worktree → Worktree) :
    Prop where
  row : w.rows[i]? = some worktree
  active : worktree.state = .active
  notParked : ¬ Parked w worktree
  rows : w'.rows = w.rows.modify i f
  samePath : (f worktree).worktreePath = worktree.worktreePath
  disk : ∀ path, (w'.disk path).isDirectory = true → w'.disk path = w.disk path ∨
      (f worktree).parkedAt = some path ∧ (f worktree).state = .active
  state : (f worktree).state = .active ∨ (f worktree).state = .cleanup ∧ ¬ Present w' worktree

namespace RowWrite

variable {f : Worktree → Worktree}

section

variable (h : RowWrite w w' i worktree f)
include h

theorem after : w'.rows[i]? = some (f worktree) := by
  rw [h.rows, getElem?_modify_self, h.row]
  rfl

theorem of_ne {j : Nat} (hj : i ≠ j) : w'.rows[j]? = w.rows[j]? := by
  rw [h.rows]
  exact getElem?_modify_of_ne hj

theorem not_parked_after
    (hpath : worktree.parkedAt = some path) (hdir : (w'.disk path).isDirectory = true) :
    (f worktree).parkedAt = some path ∧ (f worktree).state = .active := by
  rcases h.disk path hdir with hsame | hparked
  · rw [hsame] at hdir
    exact absurd ⟨path, hpath, hdir⟩ h.notParked
  · exact hparked

theorem careful : Careful w w' where
  kept j row after path hrow hafter hpath hdir := by
    by_cases hij : i = j
    · subst hij
      obtain rfl := some.inj (h.row.symm.trans hrow)
      rw [← some.inj (h.after.symm.trans hafter)]
      exact (h.not_parked_after hpath hdir).1
    · rw [h.of_ne hij, hrow] at hafter
      rw [← some.inj hafter]
      exact hpath
  closed j row after hrow hafter hopen hclosed := by
    by_cases hij : i = j
    · subst hij
      obtain rfl := some.inj (h.row.symm.trans hrow)
      obtain rfl := some.inj (h.after.symm.trans hafter)
      have hnone := h.state.resolve_left fun hactive =>
        absurd (hactive.symm.trans hclosed) WorktreeState.noConfusion
      refine ⟨fun ⟨path, hpath, hdir⟩ => ?_, fun ⟨path, hpath, hdir⟩ => ?_⟩
      · rw [h.samePath] at hpath
        exact hnone.2 ⟨path, hpath, hdir⟩
      · have hactive := (h.not_parked_after hpath hdir).2
        exact absurd (hactive.symm.trans hclosed) WorktreeState.noConfusion
    · rw [h.of_ne hij, hrow] at hafter
      rw [← some.inj hafter] at hclosed
      exact absurd hclosed hopen

theorem allNamed (hw : AllNamed w) : AllNamed w' := by
  intro path hdir
  have hisDir : (w'.disk path).isDirectory = true := by
    rw [hdir]
    rfl
  rcases h.disk path hisDir with hsame | ⟨hparked, hactive⟩
  · obtain ⟨j, row, hrow, hactive, hnames⟩ := hw path (hsame.symm.trans hdir)
    by_cases hij : i = j
    · subst hij
      obtain rfl := some.inj (h.row.symm.trans hrow)
      rcases hnames with hpath | hpath
      · -- it is the recorded path, so the row cannot have been closed
        refine ⟨i, f worktree, h.after, ?_, .inl (h.samePath.trans hpath)⟩
        exact h.state.resolve_right fun hclosed => hclosed.2 ⟨path, hpath, hisDir⟩
      · rw [hsame] at hisDir
        exact absurd ⟨path, hpath, hisDir⟩ h.notParked
    · exact ⟨j, row, (h.of_ne hij).trans hrow, hactive, hnames⟩
  · exact ⟨i, f worktree, h.after, hactive, .inr hparked⟩

end

end RowWrite

/-- What one turn of a call does: nothing, or one write to an ACTIVE row. -/
def Turn (w w' : World) (i : Nat) (worktree : Worktree) : Prop :=
  w' = w ∨ ∃ f, RowWrite w w' i worktree f

theorem Careful.refl (w : World) : Careful w w where
  kept i worktree after path hrow hafter hpath _ := by
    rw [← some.inj (hrow.symm.trans hafter)]
    exact hpath
  closed i worktree after hrow hafter hopen hclosed := by
    rw [← some.inj (hrow.symm.trans hafter)] at hclosed
    exact absurd hclosed hopen

section

variable (h : Turn w w' i worktree)
include h

theorem Turn.careful : Careful w w' := by
  rcases h with rfl | ⟨f, hf⟩
  · exact Careful.refl _
  · exact hf.careful

theorem Turn.allNamed (hw : AllNamed w) : AllNamed w' := by
  rcases h with rfl | ⟨f, hf⟩
  · exact hw
  · exact hf.allNamed hw

theorem Turn.of_ne {j : Nat} (hj : i ≠ j) : w'.rows[j]? = w.rows[j]? := by
  rcases h with rfl | ⟨f, hf⟩
  · rfl
  · exact hf.of_ne hj

end

/-! ## The seam -/

/-- A stat that answers `ABSENT` found no directory. -/
theorem not_isDirectory_of_absent {disk : Path → Entry}
    (h : directoryState disk fault path = .ok .absent) : (disk path).isDirectory = false := by
  cases fault with
  | some fault =>
    cases h
  | none =>
    cases hentry : disk path with
    | nothing | file | link target => rfl
    | directory checkout =>
      rw [directoryState, hentry] at h
      exact absurd (Except.ok.inj h) DirectoryState.noConfusion

theorem not_present_of_absent
    (h : observedState w.disk fault worktree = .ok .absent) : ¬ Present w worktree := by
  rintro ⟨path, hpath, hdir⟩
  rw [observedState, hpath] at h
  rw [not_isDirectory_of_absent h] at hdir
  exact absurd hdir Bool.noConfusion

/-- A live directory at `parked_at` is seen whatever the stat answers. -/
theorem holdsLive_of_parked (h : Parked w worktree) (fault : Option StatFault) :
    parkedAtHoldsLiveDirectory w.disk fault worktree = true := by
  obtain ⟨path, hpath, hdir⟩ := h
  rw [parkedAtHoldsLiveDirectory, hpath]
  cases fault with
  | some fault => rfl
  | none =>
    cases hentry : w.disk path with
    | directory checkout =>
      simp only [directoryState, hentry]
      rfl
    | nothing | file | link target =>
      rw [hentry] at hdir
      exact absurd hdir Bool.noConfusion

/-- What a release leaves on the disk: the checkout is gone, where it was, or under the
    park name the error carries. -/
theorem releaseDirectory_spec (service : WorktreeService) (disk : Path → Entry) (path : Path)
    (answers : Answers) :
    (∃ disk', releaseDirectory service disk path answers = (disk', .ok ()) ∧
        (disk' path).isDirectory = false ∧
        ∀ q, (disk' q).isDirectory = true → disk' q = disk q) ∨
      ∃ disk' failed refusal,
        releaseDirectory service disk path answers = (disk', .error (.released failed refusal)) ∧
        ∀ q, (disk' q).isDirectory = true → disk' q = disk q ∨ failed.parkedPath = some q := by
  have hgone : ∀ q, (Function.update disk path Entry.nothing q).isDirectory = true →
      Function.update disk path Entry.nothing q = disk q := by
    intro q hq
    by_cases hqp : q = path
    · rw [hqp, update_self] at hq
      exact absurd hq Bool.noConfusion
    · exact update_of_ne hqp _ _
  obtain ⟨faults, hfaults⟩ : ∃ faults, faults =
      { answers.faults with
        rename := answers.faults.rename ||
          (disk (service.parkRoot ++ [answers.parkName])).lexists } := ⟨_, rfl⟩
  have hidle : (releasedCheckout service disk path answers).phase = .idle := rfl
  rw [releaseDirectory]
  rw [← hfaults]
  rcases Checkout.releaseDirectory_ended hidle faults with
    ⟨hphase, hplace⟩ | ⟨failed, hphase, ⟨hplace, -⟩ | ⟨hplace, hparked⟩⟩
  · left
    rw [hphase, hplace]
    refine ⟨_, rfl, ?_, hgone⟩
    show (Function.update disk path Entry.nothing path).isDirectory = false
    rw [update_self]
    rfl
  · right
    rw [hphase, hplace, releasedCheckout]
    by_cases hthere : (disk path).lexists = true
    · rw [if_pos hthere]
      exact ⟨_, _, _, rfl, fun q _ => .inl rfl⟩
    · rw [if_neg hthere]
      exact ⟨_, _, _, rfl, fun q hq => .inl (hgone q hq)⟩
  · right
    rw [hphase, hplace]
    refine ⟨_, _, _, rfl, fun q hq => ?_⟩
    by_cases hqn : q = service.parkRoot ++ [answers.parkName]
    · rw [hqn]
      exact .inr hparked
    · dsimp only at hq ⊢
      rw [update_of_ne hqn] at hq ⊢
      exact .inl (hgone q hq)

/-- What the seam answers for the row under `i`: it is closed on a path that holds no
    checkout, the release raised and names what it parked, or a stat raised. -/
inductive Removed (w : World) (i : Nat) (worktree : Worktree) :
    World × Except RemoveError Unit → Prop where
  | closed {disk' : Path → Entry}
      (hdisk : ∀ q, (disk' q).isDirectory = true → disk' q = w.disk q)
      (habsent : ¬ Present { w with disk := disk' } worktree) :
      Removed w i worktree (markCleaned { w with disk := disk' } i, .ok ())
  | released {disk' : Path → Entry} {failed : DirectoryReleaseFailed} {refusal : CleanupRefusal}
      (hdisk : ∀ q, (disk' q).isDirectory = true →
        disk' q = w.disk q ∨ failed.parkedPath = some q) :
      Removed w i worktree ({ w with disk := disk' }, .error (.released failed refusal))
  | os : Removed w i worktree (w, .error .os)

theorem refuseIfOutsideBase_error {disk : Path → Entry}
    {error : RemoveError} (h : refuseIfOutsideBase service disk path = .error error) :
    ∃ failed refusal, error = .released failed refusal := by
  rw [refuseIfOutsideBase] at h
  split at h
  all_goals
    split at h
    · cases h
    · exact ⟨_, _, (Except.error.inj h).symm⟩

theorem removed_settleAbsentCheckout (service : WorktreeService) (habsent : ¬ Present w worktree) :
    Removed w i worktree (settleAbsentCheckout service w i worktree) := by
  have hclosed : Removed w i worktree (markCleaned w i, .ok ()) := .closed (fun _ _ => rfl) habsent
  rw [settleAbsentCheckout]
  cases hpath : worktree.worktreePath with
  | none => exact hclosed
  | some path =>
    dsimp only
    cases hjudged : refuseIfOutsideBase service w.disk path with
    | ok _ => exact hclosed
    | error error =>
      obtain ⟨failed, refusal, rfl⟩ := refuseIfOutsideBase_error hjudged
      exact .released fun _ _ => .inl rfl

theorem removed_removeCheckout (service : WorktreeService) (answers : Answers) :
    Removed w i worktree (removeCheckout service w i worktree answers) := by
  rw [removeCheckout]
  cases hpath : worktree.worktreePath with
  | none =>
    refine .closed (fun _ _ => rfl) fun ⟨path, hp, _⟩ => ?_
    rw [hpath] at hp
    cases hp
  | some path =>
    have habsent : ∀ disk' : Path → Entry, (disk' path).isDirectory = false →
        ¬ Present { w with disk := disk' } worktree := by
      rintro disk' hnone ⟨q, hq, hdir⟩
      obtain rfl := some.inj (hpath.symm.trans hq)
      exact absurd (hnone.symm.trans hdir) Bool.noConfusion
    dsimp only
    cases hjudged : refuseIfOutsideBase service w.disk path with
    | error error =>
      obtain ⟨failed, refusal, rfl⟩ := refuseIfOutsideBase_error hjudged
      exact .released fun _ _ => .inl rfl
    | ok _ =>
      cases hstat : directoryState w.disk answers.restat path with
      | error fault => exact .os
      | ok state =>
        dsimp only
        split
        · rcases releaseDirectory_spec service w.disk path answers with
            ⟨disk', hrelease, hnone, hdisk⟩ | ⟨disk', failed, refusal, hrelease, hdisk⟩
          · rw [hrelease]
            exact .closed hdisk (habsent disk' hnone)
          · rw [hrelease]
            exact .released hdisk
        · next hnothing =>
            refine .closed (fun _ _ => rfl) (habsent w.disk ?_)
            cases hentry : w.disk path with
            | directory checkout =>
              rw [hentry] at hnothing
              exact absurd (.inr rfl) hnothing
            | nothing | file | link target => rfl

/-! ## The turns -/

structure Writable (w : World) (i : Nat) (worktree : Worktree) : Prop where
  row : w.rows[i]? = some worktree
  active : worktree.state = .active
  notParked : ¬ Parked w worktree

section

variable (h : Writable w i worktree)
include h

theorem turn_refused {disk' : Path → Entry}
    {refusal : RetirementRefusal} {clause : String} {parkedPath : Option Path}
    {cause : Option CleanupRefusal} {disposition : Option ReleaseDisposition}
    (hdisk : ∀ q, (disk' q).isDirectory = true → disk' q = w.disk q ∨ parkedPath = some q) :
    Turn w (refused { w with disk := disk' } i worktree refusal clause parkedPath cause
      disposition).1 i worktree :=
  .inr ⟨_,
    { row := h.row
      active := h.active
      notParked := h.notParked
      rows := rfl
      samePath := rfl
      disk := fun q hq => (hdisk q hq).imp id fun hparked => ⟨hparked, h.active⟩
      state := .inl h.active }⟩

theorem turn_unreadable : Turn w (unreadable w i worktree).1 i worktree :=
  turn_refused h fun _ _ => .inl rfl

theorem turn_markCleaned (habsent : ¬ Present w worktree) : Turn w (markCleaned w i) i worktree :=
  .inr ⟨_,
    { row := h.row
      active := h.active
      notParked := h.notParked
      rows := rfl
      samePath := rfl
      disk := fun _ _ => .inl rfl
      state := .inr ⟨rfl, habsent⟩ }⟩

theorem turn_settled {disk' : Path → Entry} {outcome : Retirement}
    (hdisk : ∀ q, (disk' q).isDirectory = true → disk' q = w.disk q)
    (habsent : ¬ Present { w with disk := disk' } worktree) :
    Turn w (recordRefusal (markCleaned { w with disk := disk' } i) i outcome) i worktree :=
  .inr ⟨_,
    { row := h.row
      active := h.active
      notParked := h.notParked
      rows := modify_modify_eq _ _ _ _
      samePath := rfl
      disk := fun q hq => .inl (hdisk q hq)
      state := .inr ⟨rfl, habsent⟩ }⟩

/-- `_remove`, handed an absence that is one. -/
theorem turn_remove (service : WorktreeService) (observed : DirectoryState) (answers : Answers)
    (habsent : observed = .absent → ¬ Present w worktree) :
    Turn w (remove service w i worktree observed answers).1 i worktree := by
  rw [remove.eq_def]
  cases observed with
  | absent =>
    have hseam : Removed w i worktree (settleAbsentCheckout service w i worktree) :=
      removed_settleAbsentCheckout service (habsent rfl)
    generalize settleAbsentCheckout service w i worktree = removed at hseam
    cases hseam with
    | closed hdisk hnone => exact turn_settled h hdisk hnone
    | released hdisk => exact turn_refused h hdisk
    | os => exact turn_unreadable h
  | present =>
    have hseam : Removed w i worktree (removeCheckout service w i worktree answers) :=
      removed_removeCheckout service answers
    generalize removeCheckout service w i worktree answers = removed at hseam
    cases hseam with
    | closed hdisk hnone => exact turn_settled h hdisk hnone
    | released hdisk => exact turn_refused h hdisk
    | os => exact turn_unreadable h

end

section

variable (hrow : w.rows[i]? = some worktree)
include hrow

section

variable (hactive : worktree.state = .active)
include hactive

theorem turn_retireWorktree
    (service : WorktreeService) (gate : KeepReasonGate) (hfits : SettleFits w worktree answers) :
    Turn w (retireWorktree service gate w i worktree answers).1 i worktree := by
  have hfree : observedState w.disk answers.stat worktree ≠ .ok .absent →
      Writable w i worktree := fun hseen => ⟨hrow, hactive, fun hp => hseen (hfits hp)⟩
  rw [retireWorktree]
  cases hseen : observedState w.disk answers.stat worktree with
  | error fault =>
    exact turn_unreadable (hfree (by rw [hseen]; exact nofun))
  | ok observed =>
    dsimp only
    split
    · exact .inl rfl
    · next hlive =>
        have hwritable : Writable w i worktree := by
          refine ⟨hrow, hactive, fun hp => hlive ⟨?_, holdsLive_of_parked hp _⟩⟩
          exact Except.ok.inj (hseen.symm.trans (hfits hp))
        split
        · exact turn_refused hwritable fun _ _ => .inl rfl
        · refine turn_remove hwritable service observed answers fun hgone => ?_
          exact not_present_of_absent (hgone ▸ hseen)

theorem turn_settleRowWhoseCheckoutIsGone (service : Option WorktreeService)
    (hfits : service.isSome = true → ¬ Parked w worktree ∧ ¬ Present w worktree) :
    Turn w (settleRowWhoseCheckoutIsGone service w i worktree answers).1 i worktree := by
  cases service with
  | none => exact .inl rfl
  | some service =>
    obtain ⟨hfree, habsent⟩ := hfits rfl
    exact turn_remove ⟨hrow, hactive, hfree⟩ service .absent answers fun _ => habsent

theorem turn_reconcileRow (service : Option WorktreeService)
    (hfits : service.isSome = true → ReconcileFits w worktree answers) :
    Turn w (reconcileRow service w i worktree answers).1 i worktree := by
  cases service with
  | none => exact .inl rfl
  | some service =>
    have hparked := hfits rfl
    rw [reconcileRow]
    cases hseen : observedState w.disk answers.stat worktree with
    | error fault =>
      refine turn_unreadable ⟨hrow, hactive, fun hp => ?_⟩
      rcases hparked hp with hgone | ⟨hthere, -⟩
      · exact absurd (hseen.symm.trans hgone) nofun
      · exact absurd (hseen.symm.trans hthere) nofun
    | ok observed =>
      cases observed with
      | absent =>
        dsimp only
        split
        · exact .inl rfl
        · next hlive =>
            have hfree : ¬ Parked w worktree := fun hp => hlive (holdsLive_of_parked hp _)
            exact turn_remove ⟨hrow, hactive, hfree⟩ service .absent answers fun _ =>
              not_present_of_absent hseen
      | present =>
        dsimp only
        split
        · exact .inl rfl
        · next hfinished =>
            have hwritable : Writable w i worktree := by
              refine ⟨hrow, hactive, fun hp => ?_⟩
              rcases hparked hp with hgone | ⟨-, hopen⟩
              · exact absurd (Except.ok.inj (hseen.symm.trans hgone)) nofun
              · exact hfinished (by rw [hopen]; exact Bool.noConfusion)
            split
            · exact turn_refused hwritable fun _ _ => .inl rfl
            · exact turn_remove hwritable service .present answers nofun

end

end

theorem mem_zipIdx_row {row : Worktree × Nat} (h : row ∈ w.rows.zipIdx) :
    w.rows[row.2]? = some row.1 :=
  mem_zipIdx_iff_getElem?.mp h

theorem turn_releaseChatWorktree (service : Option WorktreeService) (chat : Nat)
    (hfits : ∀ row, chatRow w chat = some row → Parked w row.1 →
      service.isSome = true ∧ observedState w.disk answers.stat row.1 = .ok .absent) :
    ∃ i worktree, Turn w (releaseChatWorktree service w chat answers).1 i worktree := by
  rw [releaseChatWorktree]
  cases hchat : chatRow w chat with
  | none => exact ⟨0, ⟨"", none, none, none, none, "", .active⟩, .inl rfl⟩
  | some row =>
    obtain ⟨worktree, i⟩ := row
    have hparked := hfits _ hchat
    have hrow : w.rows[i]? = some worktree := mem_zipIdx_row (mem_of_find?_eq_some hchat)
    have hfound := List.find?_some hchat
    have hactive : worktree.state = .active := (of_decide_eq_true hfound).2
    refine ⟨i, worktree, ?_⟩
    cases service with
    | none =>
      have hwritable : Writable w i worktree :=
        ⟨hrow, hactive, fun hp => absurd (hparked hp).1 Bool.noConfusion⟩
      exact turn_refused hwritable fun _ _ => .inl rfl
    | some service =>
      have hsettle : SettleFits w worktree answers := fun hp => (hparked hp).2
      have hturn := turn_retireWorktree hrow hactive service chatKeepReason hsettle
      dsimp only
      split
      · exact hturn
      · exact hturn

theorem allNamed_addWorktree (service : WorktreeService) (ticketId : Nat) (id name : String)
    (cut : Cut) (hw : AllNamed w) : AllNamed (addWorktree service w ticketId id name cut).1 := by
  rw [addWorktree]
  split
  · exact hw
  split
  · -- the directory no row was written for was never a row's checkout
    intro path hdir
    by_cases hpath : path = service.worktreeBase ++ [name]
    · dsimp only at hdir
      rw [hpath, update_self] at hdir
      exact absurd (Entry.directory.inj hdir) Bool.noConfusion
    · dsimp only at hdir
      rw [update_of_ne hpath] at hdir
      exact hw path hdir
  · intro path hdir
    by_cases hpath : path = service.worktreeBase ++ [name]
    · exact ⟨_, _, getElem?_append_length, rfl, .inl (by rw [hpath])⟩
    · dsimp only at hdir
      rw [update_of_ne hpath] at hdir
      obtain ⟨j, row, hrow, hnames⟩ := hw path hdir
      exact ⟨j, row, getElem?_append_of_some hrow, hnames⟩

theorem careful_addWorktree (service : WorktreeService) (ticketId : Nat) (id name : String)
    (cut : Cut) : Careful w (addWorktree service w ticketId id name cut).1 := by
  have hsame : ∀ (j : Nat) row after, w.rows[j]? = some row →
      (addWorktree service w ticketId id name cut).1.rows[j]? = some after → after = row := by
    intro j row after hrow hafter
    rw [addWorktree] at hafter
    split at hafter
    · exact some.inj (hafter.symm.trans hrow)
    split at hafter
    · exact some.inj (hafter.symm.trans hrow)
    · exact some.inj (hafter.symm.trans (getElem?_append_of_some hrow))
  constructor
  · intro j row after path hrow hafter hpath _
    rw [hsame j row after hrow hafter]
    exact hpath
  · intro j row after hrow hafter hopen hclosed
    rw [hsame j row after hrow hafter] at hclosed
    exact absurd hclosed hopen

theorem activeRows_nodup (w : World) : (activeRows w).Nodup := by
  have hkeys : (w.rows.zipIdx.map (·.2)).Nodup := by
    rw [zipIdx_map_snd]
    exact nodup_range'
  exact hkeys.sublist (filter_sublist.map _)

theorem active_of_mem_activeRows (h : i ∈ activeRows w) (hrow : w.rows[i]? = some worktree) :
    worktree.state = .active := by
  obtain ⟨row, hmem, rfl⟩ := mem_map.mp h
  obtain ⟨hmem, hstate⟩ := mem_filter.mp hmem
  obtain rfl := some.inj ((mem_zipIdx_row hmem).symm.trans hrow)
  exact of_decide_eq_true hstate

theorem sweep_careful (service : Option WorktreeService) (answers : Nat → Answers)
    {is : List Nat} (hactive : ∀ i ∈ is, ∀ worktree, w.rows[i]? = some worktree →
      worktree.state = .active) (hnodup : is.Nodup) (hfits : SweepFits service answers w is) :
    (∀ turn ∈ reconcileTurns service answers w is, Careful turn.1 turn.2) ∧
      (AllNamed w → AllNamed (reconcileRows service answers w is).1) := by
  induction is generalizing w with
  | nil => exact ⟨nofun, id⟩
  | cons i rest ih =>
    obtain ⟨hnotin, hnodup⟩ := nodup_cons.mp hnodup
    obtain ⟨hfirst, hfits⟩ := hfits
    obtain ⟨w₁, hw₁⟩ : ∃ w₁, (w.atRow i 0 fun worktree =>
        reconcileRow service w i worktree (answers i)).1 = w₁ := ⟨_, rfl⟩
    have hturn : ∃ worktree, Turn w w₁ i worktree := by
      rw [← hw₁, World.atRow]
      cases hrow : w.rows[i]? with
      | none => exact ⟨⟨"", none, none, none, none, "", .active⟩, .inl rfl⟩
      | some worktree =>
        exact ⟨worktree, turn_reconcileRow hrow
          (hactive i mem_cons_self worktree hrow) service (hfirst worktree hrow)⟩
    obtain ⟨worktree, hturn⟩ := hturn
    rw [hw₁] at hfits
    -- the turn wrote to no row that is still to come
    have hlater : ∀ j ∈ rest, ∀ row, w₁.rows[j]? = some row → row.state = .active := by
      intro j hj row hrow
      have hne : i ≠ j := fun hij => hnotin (hij ▸ hj)
      rw [hturn.of_ne hne] at hrow
      exact hactive j (mem_cons_of_mem i hj) row hrow
    obtain ⟨hcareful, hnamed⟩ := ih hlater hnodup hfits
    refine ⟨?_, ?_⟩
    · rw [reconcileTurns, hw₁]
      intro turn hmem
      rcases mem_cons.mp hmem with rfl | hmem
      · exact hturn.careful
      · exact hcareful turn hmem
    · intro hw
      rw [reconcileRows, hw₁]
      exact hnamed (hturn.allNamed hw)

section

variable {ticketId : Nat} {id name : String} {cut : Cut}
  (hfits : Fits w (.getOrCreate service ticketId fault id name cut))
include hfits

theorem turn_missing {row : Worktree × Nat}
    (hrow : activeWorktreeForTicket w ticketId = some row)
    (hdir : isDir w.disk fault row.1 = .ok false) :
    Turn w (markCleaned w row.2) row.2 row.1 := by
  obtain ⟨hfree, habsent⟩ := hfits row hrow hdir
  have hmem := mem_reverse.mp (mem_of_find?_eq_some hrow)
  have hfound := List.find?_some hrow
  exact turn_markCleaned ⟨mem_zipIdx_row hmem, (of_decide_eq_true hfound).2, hfree⟩ habsent

theorem create_careful :
    (∀ turn ∈ createTurns service w ticketId fault id name cut, Careful turn.1 turn.2) ∧
      (AllNamed w → AllNamed (getOrCreateForTicket service w ticketId fault id name cut).1) := by
  rw [createTurns, getOrCreateForTicket]
  cases hrow : activeWorktreeForTicket w ticketId with
  | none =>
    refine ⟨?_, allNamed_addWorktree service ticketId id name cut⟩
    intro turn hmem
    obtain rfl := mem_singleton.mp hmem
    exact careful_addWorktree service ticketId id name cut
  | some row =>
    obtain ⟨existing, i⟩ := row
    dsimp only
    cases hdir : isDir w.disk fault existing with
    | error fault => exact ⟨nofun, fun hw => hw⟩
    | ok there =>
      cases there with
      | true => exact ⟨nofun, fun hw => hw⟩
      | false =>
        have hturn := turn_missing hfits hrow hdir
        refine ⟨?_, fun hw => allNamed_addWorktree service ticketId id name cut
          (hturn.allNamed hw)⟩
        intro turn hmem
        rcases mem_cons.mp hmem with rfl | hmem
        · exact hturn.careful
        · obtain rfl := mem_singleton.mp hmem
          exact careful_addWorktree service ticketId id name cut

end

theorem call_careful {call : Call} (hpossible : Possible w call) (hfits : Fits w call) :
    (∀ turn ∈ turns w call, Careful turn.1 turn.2) ∧ (AllNamed w → AllNamed (w.call call)) := by
  have hone : ∀ {w' : World}, (∃ i worktree, Turn w w' i worktree) →
      (∀ turn ∈ [(w, w')], Careful turn.1 turn.2) ∧ (AllNamed w → AllNamed w') := by
    rintro w' ⟨i, worktree, hturn⟩
    refine ⟨fun turn hmem => ?_, hturn.allNamed⟩
    obtain rfl := mem_singleton.mp hmem
    exact hturn.careful
  have hnoRow : ∃ i worktree, Turn w w i worktree :=
    ⟨0, ⟨"", none, none, none, none, "", .active⟩, .inl rfl⟩
  cases call with
  | retire service gate i answers =>
    refine hone ?_
    rw [World.call, World.atRow]
    cases hrow : w.rows[i]? with
    | none => exact hnoRow
    | some worktree =>
      exact ⟨i, worktree, turn_retireWorktree hrow (hpossible worktree hrow) service gate
        (hfits worktree hrow)⟩
  | settleGone service i answers =>
    refine hone ?_
    rw [World.call, World.atRow]
    cases hrow : w.rows[i]? with
    | none => exact hnoRow
    | some worktree =>
      exact ⟨i, worktree, turn_settleRowWhoseCheckoutIsGone hrow (hpossible worktree hrow)
        service (hfits worktree hrow)⟩
  | releaseChat service chat answers =>
    exact hone (turn_releaseChatWorktree service chat hfits)
  | reconcile service answers =>
    exact sweep_careful service answers
      (fun i hi worktree hrow => active_of_mem_activeRows hi hrow) (activeRows_nodup w) hfits
  | getOrCreate service ticketId fault id name cut => exact create_careful hfits

/-- **In every history of calls that fit, every checkout that still exists is named by an
    ACTIVE row, no write clears a `parked_at` whose directory is there, and no row is closed
    while its checkout or its parked copy is.** -/
theorem checkouts_stay_named {tr : List Call} (h0 : AllNamed w)
    (hr : Run (Guarded Step Fits) w tr w') :
    AllNamed w' ∧ ∀ call, Possible w' call → Fits w' call →
      ∀ turn ∈ turns w' call, Careful turn.1 turn.2 := by
  refine ⟨?_, fun call hpossible hfits => (call_careful hpossible hfits).1⟩
  refine Run.invariant (P := AllNamed) ?_ h0 hr
  rintro w call t hnamed ⟨hfits, hpossible, rfl⟩
  exact (call_careful hpossible hfits).2 hnamed

/-! ## A checkout that is parked and forgotten -/

def exampleService : WorktreeService := ⟨["r", "main"]⟩

def oneCheckout : World where
  rows := [⟨"w", some 0, none, some ["r", ".worktrees", "t"], none, "", .active⟩]
  disk := fun path => if path = ["r", ".worktrees", "t"] then .directory true else .nothing

/-- Every premise holds, the prune fails, and so does the rename back. -/
def parkingAnswers : Answers where
  stat := none
  restat := none
  parkedStat := none
  probes := ⟨.ok none, .ok none, false, false, true⟩
  ticketFinished := true
  faults := { prune := true, restore := true }
  parkName := "p"
  gitFile := true
  registered := true

def parkingCall : Call := .retire exampleService keepReason 0 parkingAnswers

theorem allNamed_oneCheckout : AllNamed oneCheckout := by
  intro path hdir
  refine ⟨0, _, rfl, rfl, .inl ?_⟩
  by_contra hne
  rw [oneCheckout] at hdir
  dsimp only at hdir
  rw [if_neg (fun h => hne (congrArg some h.symm))] at hdir
  cases hdir

theorem possible_parkingCall : Possible oneCheckout parkingCall := by
  intro worktree hrow
  rw [← some.inj hrow]

theorem checkouts_stay_named_parked : AllNamed (oneCheckout.call parkingCall) ∧
      ∀ call, Possible (oneCheckout.call parkingCall) call →
        Fits (oneCheckout.call parkingCall) call →
        ∀ turn ∈ turns (oneCheckout.call parkingCall) call, Careful turn.1 turn.2 := by
  have hfits : Fits oneCheckout parkingCall := by
    rintro worktree hrow ⟨path, hpath, -⟩
    rw [← some.inj hrow] at hpath
    cases hpath
  have hrun : Run (Guarded Step Fits) oneCheckout [parkingCall] (oneCheckout.call parkingCall) :=
    Run.singleton_iff.mpr ⟨hfits, possible_parkingCall, rfl⟩
  exact checkouts_stay_named allNamed_oneCheckout hrun

/-- The next stage of the ticket asks for its checkout. -/
def replacingCall : Call := .getOrCreate exampleService 0 none "w2" "t2" .recorded

/-- The replacement closes the row whose `parked_at` alone records where the bytes are. -/
theorem parked_checkout_forgotten : AllNamed oneCheckout ∧
      Run Step oneCheckout [parkingCall, replacingCall]
        ((oneCheckout.call parkingCall).call replacingCall) ∧
      ¬ AllNamed ((oneCheckout.call parkingCall).call replacingCall) := by
  have hrows : ((oneCheckout.call parkingCall).call replacingCall).rows.map
      (fun row => (row.state, row.worktreePath, row.parkedAt)) =
      [(.cleanup, some ["r", ".worktrees", "t"], some ["r", ".worktrees-releasing", "p"]),
        (.active, some ["r", ".worktrees", "t2"], none)] := by decide +kernel
  have hdisk : ((oneCheckout.call parkingCall).call replacingCall).disk
      ["r", ".worktrees-releasing", "p"] = .directory true := by decide +kernel
  refine ⟨allNamed_oneCheckout, .cons ⟨possible_parkingCall, rfl⟩ (.cons ⟨trivial, rfl⟩ (.nil _)),
    fun hnamed => ?_⟩
  obtain ⟨i, row, hrow, hactive, hnames⟩ := hnamed _ hdisk
  have hmem := mem_map_of_mem (f := fun row : Worktree =>
    (row.state, row.worktreePath, row.parkedAt)) (mem_of_getElem? hrow)
  rw [hrows, hactive] at hmem
  rcases mem_cons.mp hmem with hfirst | hmem
  · exact absurd (Prod.mk.inj hfirst).1 nofun
  · have hsecond := Prod.mk.inj (Prod.mk.inj (mem_singleton.mp hmem)).2
    rcases hnames with hpath | hparked
    · exact absurd (hpath.symm.trans hsecond.1) (by decide)
    · exact absurd (hparked.symm.trans hsecond.2) nofun

end Loregarden.Worktrees
