import Loregarden.RunProofs
import Loregarden.RunVerdictModel

/-! # A run's first final status is its verdict

The guarded update lets one completion in; the bridge writes the same column unguarded.
`first_verdict_stands` proves the verdict, its record and the release of the slot in every
interleaving whose bridge writes are `Harmless`: they change nothing, or they move a run that is
still in flight to a status in flight. -/

namespace Loregarden.RunVerdict

open Runs
open Lanes (RunStatus)

variable {w : World}

/-- What a completion wrote, with the notes of later ones after its stderr. -/
structure Recorded (run : AgentRun) (c : Completion) : Prop where
  stdout : run.stdout = c.stdout
  stderr : ∃ notes, run.stderr = c.recordedStderr ++ notes
  finishedAt : run.finishedAt.isSome = true

/-- How far the accepted completion is, and what it has left behind by then. -/
inductive Progress (w : World) (call : Nat) (c : Completion) : Prop where
  | claimed (h : w.calls call = .claimed c)
  | recorded (h : w.calls call = .recorded c) (hrow : Recorded w.run c)
  | released (h : w.calls call = .released c) (hrow : Recorded w.run c)
      (hslot : w.slotHeld = false)

/-- One completion was accepted, the status is its own, and no other call goes on to
    record anything. -/
structure VerdictOf (w : World) (call : Nat) (c : Completion) : Prop where
  accepted : w.accepted = [(call, c)]
  status : w.run.status = c.status.status
  progress : Progress w call c
  others : ∀ other, other ≠ call → ∀ d, w.calls other ≠ .claimed d ∧ w.calls other ≠ .recorded d

/-- A run is in flight with no call let in, or it has the verdict of one. -/
inductive Settled (w : World) : Prop where
  | inFlight (hlive : w.run.status.live = true) (hnone : w.accepted = [])
      (hidle : ∀ call, w.calls call = .idle)
  | final (call : Nat) (c : Completion) (h : VerdictOf w call c)

@[simp] theorem Outcome.status_live (o : Outcome) : o.status.live = false := by cases o <;> rfl

theorem Initial.settled (h : Initial w) : Settled w := .inFlight h.inFlight h.accepted h.calls

/-- A bridge write that changes nothing, or keeps a run in flight in flight. -/
def Harmless (w : World) : Event → Prop
  | .bridgeWrite bridge => ∀ write seen, w.reads bridge = some (write, seen) →
      seen = write.status ∨ w.run.status = write.status ∨
        write.status.live = true ∧ w.run.status.live = true
  | _ => True

/-! ## The steps, one by one -/

@[simp] theorem setCall_same (w : World) (call : Nat) (phase : Phase) :
    (w.setCall call phase).calls call = phase := if_pos rfl

theorem setCall_other (w : World) {call other : Nat} (phase : Phase) (h : other ≠ call) :
    (w.setCall call phase).calls other = w.calls other := if_neg h

section

variable {call : Nat} {c : Completion} (h : VerdictOf w call c)
include h

theorem VerdictOf.frame {w' : World}
    (haccepted : w'.accepted = w.accepted) (hstatus : w'.run.status = w.run.status)
    (hcall : w'.calls call = w.calls call) (hslot : w'.slotHeld = w.slotHeld)
    (hrow : Recorded w.run c → Recorded w'.run c) (hothers : ∀ other, other ≠ call → ∀ d,
      w'.calls other ≠ .claimed d ∧ w'.calls other ≠ .recorded d) : VerdictOf w' call c where
  accepted := haccepted.trans h.accepted
  status := hstatus.trans h.status
  progress := by
    cases h.progress with
    | claimed hp => exact .claimed (hcall.trans hp)
    | recorded hp hr => exact .recorded (hcall.trans hp) (hrow hr)
    | released hp hr hs => exact .released (hcall.trans hp) (hrow hr) (hslot.trans hs)
  others := hothers

theorem VerdictOf.not_live : w.run.status.live = false := by
  rw [h.status]
  exact c.status.status_live

theorem VerdictOf.not_idle : w.calls call ≠ .idle := by
  intro hidle
  cases h.progress with
  | claimed hp | recorded hp | released hp => exact nomatch hp.symm.trans hidle

end

section

variable (h : Settled w)
include h

theorem Settled.claim (call : Nat) (c : Completion) : Settled (claimCompletion w call c) := by
  unfold claimCompletion
  split
  · exact h
  · rename_i hidle
    cases h with
    | inFlight hlive hnone hidles =>
      rw [if_pos hlive]
      refine .final call c ⟨?_, rfl, .claimed (setCall_same w call _), ?_⟩
      · show w.accepted ++ [(call, c)] = [(call, c)]
        rw [hnone, List.nil_append]
      · intro other hother d
        show (w.setCall call (.claimed c)).calls other ≠ _ ∧ _
        rw [setCall_other w _ hother, hidles other]
        exact ⟨nofun, nofun⟩
    | final first c' hverdict =>
      rw [if_neg (by rw [hverdict.not_live]; exact Bool.false_ne_true)]
      have hne : first ≠ call := by
        rintro rfl
        exact hverdict.not_idle (not_not.mp hidle)
      refine .final first c' (hverdict.frame rfl rfl (setCall_other w _ hne) rfl id ?_)
      intro other hother d
      by_cases hcall : other = call
      · subst hcall
        rw [setCall_same]
        exact ⟨nofun, nofun⟩
      · rw [setCall_other w _ hcall]
        exact hverdict.others other hother d

omit h in
theorem VerdictOf.eq_of_calls {call other : Nat} {c d : Completion} (h : VerdictOf w call c)
    (hother : w.calls other = .claimed d ∨ w.calls other = .recorded d) :
    other = call ∧ (w.calls other = .claimed d → d = c) ∧
      (w.calls other = .recorded d → d = c) := by
  have hcall : other = call := by
    by_contra hne
    rcases hother with hp | hp
    · exact (h.others other hne d).1 hp
    · exact (h.others other hne d).2 hp
  subst hcall
  refine ⟨rfl, fun hd => ?_, fun hd => ?_⟩
  · cases h.progress with
    | claimed hp => exact (Phase.claimed.inj (hp.symm.trans hd)).symm
    | recorded hp | released hp => exact nomatch hp.symm.trans hd
  · cases h.progress with
    | claimed hp | released hp => exact nomatch hp.symm.trans hd
    | recorded hp => exact (Phase.recorded.inj (hp.symm.trans hd)).symm

theorem Settled.record (call : Nat) (now : Int) : Settled (recordCompletion w call now) := by
  unfold recordCompletion
  split
  · rename_i d hd
    cases h with
    | inFlight hlive hnone hidles => exact nomatch (hidles call).symm.trans hd
    | final first c hverdict =>
      obtain ⟨rfl, hsame, -⟩ := hverdict.eq_of_calls (.inl hd)
      obtain rfl := hsame hd
      refine .final call d ⟨hverdict.accepted, rfl, ?_, fun other hother e => ?_⟩
      · exact .recorded (setCall_same w call _) ⟨rfl, ⟨"", (String.append_empty).symm⟩, rfl⟩
      · show (w.setCall call (.recorded d)).calls other ≠ _ ∧ _
        rw [setCall_other w _ hother]
        exact hverdict.others other hother e
  · exact h

theorem Settled.release (call : Nat) : Settled (releaseExecutionSlot w call) := by
  unfold releaseExecutionSlot
  split
  · rename_i d hd
    cases h with
    | inFlight hlive hnone hidles => exact nomatch (hidles call).symm.trans hd
    | final first c hverdict =>
      obtain ⟨rfl, -, hsame⟩ := hverdict.eq_of_calls (.inr hd)
      obtain rfl := hsame hd
      have hrow : Recorded w.run d := by
        cases hverdict.progress with
        | claimed hp | released hp => exact nomatch hp.symm.trans hd
        | recorded _ hrow => exact hrow
      refine .final call d ⟨hverdict.accepted, hverdict.status, ?_, fun other hother e => ?_⟩
      · exact .released (setCall_same w call _) hrow rfl
      · show (w.setCall call (.released d)).calls other ≠ _ ∧ _
        rw [setCall_other w _ hother]
        exact hverdict.others other hother e
  · exact h

omit h in
theorem withNote_eq (stderr note : String) : ∃ added, withNote stderr note = stderr ++ added := by
  unfold withNote
  split
  · rename_i hempty
    exact ⟨note, by rw [hempty, String.empty_append]⟩
  · exact ⟨"\n" ++ note, String.append_assoc ..⟩

theorem Settled.note (call : Nat) (when : String) : Settled (refuseLateCompletion w call when) := by
  unfold refuseLateCompletion
  split
  · rename_i d hd
    cases h with
    | inFlight hlive hnone hidles => exact nomatch (hidles call).symm.trans hd
    | final first c hverdict =>
      have hne : first ≠ call := by
        rintro rfl
        cases hverdict.progress with
        | claimed hp | recorded hp | released hp => exact nomatch hp.symm.trans hd
      refine .final first c (hverdict.frame rfl rfl (setCall_other w _ hne) rfl ?_ ?_)
      · rintro ⟨hout, ⟨notes, herr⟩, hat⟩
        obtain ⟨added, hadded⟩ :=
          withNote_eq w.run.stderr (lateNote when d.status.status w.run.status)
        refine ⟨hout, ⟨notes ++ added, ?_⟩, hat⟩
        show withNote w.run.stderr _ = _
        rw [hadded, herr, String.append_assoc]
      · intro other hother e
        show (w.setCall call .noted).calls other ≠ _ ∧ _
        by_cases hcall : other = call
        · subst hcall
          rw [setCall_same]
          exact ⟨nofun, nofun⟩
        · rw [setCall_other w _ hcall]
          exact hverdict.others other hother e
  · exact h

theorem Settled.setRead (bridge : Nat)
    (read : Option (BridgeWrite × RunStatus)) : Settled (w.setRead bridge read) := by
  cases h with
  | inFlight hlive hnone hidles => exact .inFlight hlive hnone hidles
  | final first c hverdict =>
    exact .final first c (hverdict.frame rfl rfl rfl rfl id hverdict.others)

theorem Settled.status_same {status : RunStatus} (hsame : w.run.status = status) :
    Settled { w with run := { w.run with status := status } } := by
  subst hsame
  exact h

theorem Settled.bridgeWrite (bridge : Nat)
    (hharmless : Harmless w (.bridgeWrite bridge)) : Settled (commitBridgeWrite w bridge) := by
  unfold commitBridgeWrite
  split
  · rename_i write seen hread
    extract_lets w'
    have hw' : Settled w' := h.setRead bridge none
    split
    · exact hw'
    · rename_i hnews
      rcases hharmless write seen hread with hseen | hsame | ⟨hwrite, hlive⟩
      · exact absurd hseen hnews
      · exact hw'.status_same hsame
      · cases hw' with
        | inFlight _ hnone hidles => exact .inFlight hwrite hnone hidles
        | final first c hverdict => exact nomatch hlive.symm.trans hverdict.not_live
  · exact h

theorem Settled.step (e : Event) (hharmless : Harmless w e) : Settled (step w e) := by
  cases e with
  | claim call c => exact h.claim call c
  | record call now => exact h.record call now
  | release call => exact h.release call
  | note call when => exact h.note call when
  | bridgeRead bridge write => exact h.setRead bridge _
  | bridgeWrite bridge => exact h.bridgeWrite bridge hharmless

end

/-! ## The verdict stands -/

theorem VerdictOf.step {call : Nat} {c : Completion} (h : VerdictOf w call c) (e : Event)
    (hharmless : Harmless w e) :
    (step w e).run.status = w.run.status ∧ (step w e).accepted = w.accepted := by
  cases e with
  | claim other d =>
    show (claimCompletion w other d).run.status = _ ∧ (claimCompletion w other d).accepted = _
    unfold claimCompletion
    split
    · exact ⟨rfl, rfl⟩
    · rw [if_neg (by rw [h.not_live]; exact Bool.false_ne_true)]
      exact ⟨rfl, rfl⟩
  | record other now =>
    show (recordCompletion w other now).run.status = _ ∧ (recordCompletion w other now).accepted = _
    unfold recordCompletion
    split
    · rename_i d hd
      obtain ⟨rfl, hsame, -⟩ := h.eq_of_calls (.inl hd)
      rw [hsame hd]
      exact ⟨h.status.symm, rfl⟩
    · exact ⟨rfl, rfl⟩
  | release other =>
    show (releaseExecutionSlot w other).run.status = _ ∧ (releaseExecutionSlot w other).accepted = _
    unfold releaseExecutionSlot
    split <;> exact ⟨rfl, rfl⟩
  | note other when =>
    show (refuseLateCompletion w other when).run.status = _ ∧
      (refuseLateCompletion w other when).accepted = _
    unfold refuseLateCompletion
    split <;> exact ⟨rfl, rfl⟩
  | bridgeRead bridge write => exact ⟨rfl, rfl⟩
  | bridgeWrite bridge =>
    show (commitBridgeWrite w bridge).run.status = _ ∧ (commitBridgeWrite w bridge).accepted = _
    unfold commitBridgeWrite
    split
    · rename_i write seen hread
      split
      · exact ⟨rfl, rfl⟩
      · rename_i hnews
        rcases hharmless write seen hread with hseen | hsame | ⟨-, hlive⟩
        · exact absurd hseen hnews
        · exact ⟨hsame.symm, rfl⟩
        · exact nomatch hlive.symm.trans h.not_live
    · exact ⟨rfl, rfl⟩

def Step (w : World) (e : Event) (w' : World) : Prop := w' = step w e

/-- **The first final status is the verdict**: from a run in flight, through any steps whose
    bridge writes are harmless, the run is in flight with no completion let in, or it has the
    status of the one that was, with its record and its slot as far as that call is; and
    whatever follows, the status stays. -/
theorem first_verdict_stands {s m t : World} {tr₁ tr₂ : List Event} (h0 : Initial s)
    (h₁ : Run (Guarded Step Harmless) s tr₁ m) (h₂ : Run (Guarded Step Harmless) m tr₂ t) :
    Settled m ∧ (m.run.status.live = false →
      t.run.status = m.run.status ∧ t.accepted = m.accepted) := by
  have hkeep : ∀ s e t, Settled s → Guarded Step Harmless s e t → Settled t := by
    rintro s e t hs ⟨hharmless, rfl⟩
    exact hs.step e hharmless
  have hm : Settled m := h₁.invariant hkeep h0.settled
  refine ⟨hm, fun hfinal => ?_⟩
  have hstay := h₂.invariant
    (P := fun t => Settled t ∧ t.run.status = m.run.status ∧ t.accepted = m.accepted) ?_
    ⟨hm, rfl, rfl⟩
  · exact hstay.2
  · rintro u e v ⟨hu, hstatus, haccepted⟩ ⟨hharmless, rfl⟩
    refine ⟨hu.step e hharmless, ?_⟩
    cases hu with
    | inFlight hlive =>
      rw [hstatus, hfinal] at hlive
      exact nomatch hlive
    | final call c hverdict =>
      obtain ⟨hs, ha⟩ := hverdict.step e hharmless
      exact ⟨hs.trans hstatus, ha.trans haccepted⟩

def waiting : World := { run := { status := .awaitingPermission } }

/-- Two calls complete it, and what the bridge has to say between them changes nothing. -/
def cancelledTwice : List Event :=
  [.bridgeRead 0 .resumeAfterApproval, .bridgeWrite 0,
    .claim 1 { status := .cancelled, stderr := "Cancelled by operator" }, .record 1 7,
    .claim 2 { status := .failed, stdout := "late" }, .release 1, .note 2 "now"]

theorem first_verdict_stands_cancelled : Settled (cancelledTwice.foldl step waiting) ∧
      (cancelledTwice.foldl step waiting).run.status = .cancelled := by
  have hrun : Run (Guarded Step Harmless) waiting cancelledTwice
      (cancelledTwice.foldl step waiting) := by
    refine .cons ⟨trivial, rfl⟩ (.cons ⟨?_, rfl⟩ (.cons ⟨trivial, rfl⟩ (.cons ⟨trivial, rfl⟩
      (.cons ⟨trivial, rfl⟩ (.cons ⟨trivial, rfl⟩ (.cons ⟨trivial, rfl⟩ (.nil _)))))))
    rintro write seen ⟨rfl, rfl⟩
    exact .inr (.inr ⟨rfl, rfl⟩)
  exact ⟨(first_verdict_stands ⟨rfl, fun _ => rfl, fun _ => rfl, rfl⟩ hrun (.nil _)).1, rfl⟩

/-- A person rejects the permission: the bridge fails the run itself, and the completion of
    its executor is refused. -/
def rejected : List Event :=
  [.bridgeRead 0 .failAfterRejection, .bridgeWrite 0,
    .claim 1 { status := .failed, stdout := "output", stderr := "Permission denied" },
    .note 1 "now"]

/-- A cancel completes the run, the bridge resumes it, and its executor completes it again. -/
def resumed : List Event :=
  [.bridgeRead 0 .resumeAfterApproval, .claim 1 { status := .cancelled }, .record 1 7,
    .bridgeWrite 0, .claim 2 { status := .succeeded }]

/-- The bridge makes a run final with no completion, so nothing of it is recorded and its
    slot stays held; and it takes a verdict back, so that a second completion is let in. -/
theorem bridge_overrules : Initial waiting ∧
    (∃ t, Run Step waiting rejected t ∧ ¬ Settled t ∧ t.run.status = .failed ∧
      t.accepted = [] ∧ t.run.stdout = "" ∧ t.run.finishedAt = none ∧ t.slotHeld = true) ∧
    ∃ m t, Run Step waiting (resumed.take 3) m ∧ Run Step m (resumed.drop 3) t ∧
      m.run.status = .cancelled ∧ t.run.status = .succeeded ∧ t.accepted.length = 2 := by
  have hrun : ∀ s tr, Run Step s tr (tr.foldl step s) := Run.of_foldl fun _ _ => rfl
  refine ⟨⟨rfl, fun _ => rfl, fun _ => rfl, rfl⟩, ⟨_, hrun _ _, ?_, by decide⟩,
    _, _, hrun _ _, hrun _ _, by decide⟩
  intro hsettled
  cases hsettled with
  | inFlight hlive => exact absurd hlive (by decide)
  | final call c h => exact nomatch h.accepted

end Loregarden.RunVerdict
