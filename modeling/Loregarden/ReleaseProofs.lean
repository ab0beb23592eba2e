import Loregarden.ReleaseModel
import Loregarden.RunProofs

/-! # What a disposition says of a checkout

A release reports the end state of its checkout from which of its steps raised. That is true as long
as its own prune is the one that drops its registration. The prune is repository wide: run while
another checkout is away from its path, it drops that one's registration too. The other release then
finds its own prune refused, renames back, and raises `INTACT` for a checkout git no longer
lists. -/

namespace Loregarden.Release

open Runs Function Checkout

variable {ι : Type*} [DecidableEq ι] {c : Checkout} {s s₀ t : Repo ι}

structure Checkout.Sound (c : Checkout) : Prop where
  atPath : c.place = .atPath
  whole : c.whole
  registered : c.registered
  gitFile : c.gitFile

/-- What a release that is over says of its checkout is so. -/
structure Checkout.Truthful (c : Checkout) : Prop where
  intact : ∀ f, c.phase = .raised f → f.disposition = .intact →
    c.place = .atPath ∧ c.whole = true ∧ c.registered = true ∧ f.parkedPath = none
  restored : ∀ f, c.phase = .raised f → f.disposition = .restored →
    c.place = .atPath ∧ c.registered = false ∧ f.parkedPath = none
  stillParked : ∀ f, c.phase = .raised f → f.disposition = .stillParked →
    c.place = .parked ∧ f.parkedPath = some c.parkName
  returned : c.phase = .returned → c.place = .gone

/-- A step leaves every checkout that is not being released as it is. -/
def Spares (s : Repo ι) (e : Event ι) : Prop :=
  ∀ j, j ≠ e.subject → (s j).phase.underWay = false → s.step e j = s j

/-- A release begins on a checkout as git made it, and a prune that goes through finds
    every other registered checkout at its path. -/
def Fits (s : Repo ι) : Event ι → Prop
  | .claim i _ _ => (s i).phase = .idle → (s i).Sound
  | .prune i fails =>
    (s i).prunes fails = true → ∀ j, j ≠ i → (s j).registered = true → (s j).place = .atPath
  | .delete _ _ => True
  | .restore _ _ => True

/-! ## What is so on the way -/

/-- What is so of a checkout between two steps of its release. -/
def Checkout.Kept (c : Checkout) : Prop :=
  match c.phase with
  | .idle => True
  | .renamed => c.place = .parked ∧ c.whole = true ∧ c.registered = true ∧ c.gitFile = true
  | .pruned => c.place = .parked ∧ c.registered = false
  | .pruneFailed => c.place = .parked ∧ c.whole = true ∧ c.registered = true
  | .deleteFailed => c.place = .parked ∧ c.registered = false
  | .returned => c.place = .gone
  | .raised _ => c.Truthful

namespace Checkout

theorem Kept.truthful (h : c.Kept) : c.Truthful := by
  have hopen : ∀ {p : Phase}, c.phase = p → p.underWay = true ∨ p = .idle → c.Truthful := by
    intro p hp hopen
    refine ⟨fun f hf => ?_, fun f hf => ?_, fun f hf => ?_, fun hf => ?_⟩
    all_goals
      rw [← hp, hf] at hopen
      exact absurd hopen (by simp [Phase.underWay])
  rw [Kept] at h
  cases hp : c.phase with
  | idle => exact hopen hp (.inr rfl)
  | renamed | pruned | pruneFailed | deleteFailed => exact hopen hp (.inl rfl)
  | returned =>
    rw [hp] at h
    refine ⟨fun f hf => ?_, fun f hf => ?_, fun f hf => ?_, fun _ => h⟩
    all_goals exact absurd (hp.symm.trans hf) Phase.noConfusion
  | raised f =>
    rw [hp] at h
    exact h

theorem truthful_raised {f : DirectoryReleaseFailed} (hp : c.phase = .raised f)
    (hintact : f.disposition = .intact →
      c.place = .atPath ∧ c.whole = true ∧ c.registered = true ∧ f.parkedPath = none)
    (hrestored : f.disposition = .restored →
      c.place = .atPath ∧ c.registered = false ∧ f.parkedPath = none)
    (hparked : f.disposition = .stillParked →
      c.place = .parked ∧ f.parkedPath = some c.parkName) : c.Truthful := by
  have hself : ∀ {g}, c.phase = .raised g → g = f := by
    intro g hg
    exact Phase.raised.inj (hg.symm.trans hp)
  refine ⟨fun g hg => ?_, fun g hg => ?_, fun g hg => ?_, fun hret => ?_⟩
  · rw [hself hg]
    exact hintact
  · rw [hself hg]
    exact hrestored
  · rw [hself hg]
    exact hparked
  · exact absurd (hp.symm.trans hret) Phase.noConfusion

theorem kept_refuse (h : c.Sound) (message : String) (outside : Bool) :
    (c.refuse message outside).Kept := by
  show (c.refuse message outside).Truthful
  refine truthful_raised rfl (fun _ => ⟨h.atPath, h.whole, h.registered, rfl⟩) ?_ ?_
  · intro hd
    cases hd
  · intro hd
    cases hd

theorem kept_claim (hc : c.Kept) (h : c.phase = .idle → c.Sound) (mkdirFails renameFails : Bool) :
    (c.claim mkdirFails renameFails).Kept := by
  by_cases hp : c.phase = .idle
  · have hs := h hp
    rw [claim, if_neg (not_not.mpr hp)]
    split
    · exact kept_refuse hs _ _
    split
    · exact kept_refuse hs _ _
    split
    · exact kept_refuse hs _ _
    split
    · exact kept_refuse hs _ _
    · exact ⟨rfl, hs.whole, hs.registered, hs.gitFile⟩
  · rw [claim, if_pos hp]
    exact hc

theorem kept_pruneMetadata (hc : c.Kept) (fails : Bool) : (c.pruneMetadata fails).Kept := by
  by_cases hp : c.phase = .renamed
  · rw [Kept, hp] at hc
    obtain ⟨hplace, hwhole, hreg, hgit⟩ := hc
    rw [pruneMetadata, if_neg (not_not.mpr hp), if_neg (not_not.mpr hgit)]
    split
    · -- its own registration goes with the prune
      show c.dropped.place = .parked ∧ c.dropped.registered = false
      rw [dropped, if_neg (by rw [hplace]; decide)]
      exact ⟨hplace, rfl⟩
    · exact ⟨hplace, hwhole, hreg⟩
  · rw [pruneMetadata, if_pos hp]
    exact hc

theorem kept_rmtree (hc : c.Kept) (fails : Bool) : (c.rmtree fails).Kept := by
  by_cases hp : c.phase = .pruned
  · rw [Kept, hp] at hc
    rw [rmtree, if_neg (not_not.mpr hp)]
    split
    · exact hc
    · show Place.gone = .gone
      rfl
  · rw [rmtree, if_pos hp]
    exact hc

theorem kept_recover (hc : c.Kept) (fails : Bool) : (c.recover fails).Kept := by
  cases hp : c.phase with
  | pruneFailed =>
    rw [Kept, hp] at hc
    obtain ⟨hplace, hwhole, hreg⟩ := hc
    rw [recover, hp]
    cases fails with
    | true =>
      show (c.raiseAs .stillParked).Truthful
      exact truthful_raised rfl nofun nofun fun _ => ⟨hplace, rfl⟩
    | false =>
      show ({ c with place := .atPath }.raiseAs .intact).Truthful
      exact truthful_raised rfl (fun _ => ⟨rfl, hwhole, hreg, rfl⟩) nofun nofun
  | deleteFailed =>
    rw [Kept, hp] at hc
    obtain ⟨hplace, hreg⟩ := hc
    rw [recover, hp]
    cases fails with
    | true =>
      show (c.raiseAs .stillParked).Truthful
      exact truthful_raised rfl nofun nofun fun _ => ⟨hplace, rfl⟩
    | false =>
      show ({ c with place := .atPath }.raiseAs .restored).Truthful
      exact truthful_raised rfl nofun (fun _ => ⟨rfl, hreg, rfl⟩) nofun
  | idle | renamed | pruned | returned | raised f => rwa [recover, hp]

theorem dropped_eq (h : c.registered = true → c.place = .atPath) : c.dropped = c := by
  rw [dropped]
  split
  · rfl
  · next hplace =>
      have hreg : c.registered = false := Bool.eq_false_iff.mpr fun hr => hplace (h hr)
      rw [← hreg]

end Checkout

/-! ## The steps of a repository -/

theorem prune_eq_update {i : ι} {fails : Bool} (h : Fits s (.prune i fails)) :
    s.prune i fails = Function.update s i ((s i).pruneMetadata fails) := by
  funext j
  rw [Repo.prune]
  by_cases hj : j = i
  · rw [if_pos hj, hj, update_self]
  · rw [if_neg hj, update_of_ne hj]
    split
    · next hp => exact dropped_eq (h hp j hj)
    · rfl

theorem kept_update {i : ι} (h : ∀ j, (s j).Kept) (hc : c.Kept) (j : ι) :
    (Function.update s i c j).Kept := by
  by_cases hj : j = i
  · rw [hj, update_self]
    exact hc
  · rw [update_of_ne hj]
    exact h j

theorem kept_step (h : ∀ j, (s j).Kept) (e : Event ι) (hfits : Fits s e) (j : ι) :
    (s.step e j).Kept := by
  cases e with
  | claim i mkdirFails renameFails =>
    exact kept_update h (kept_claim (h i) hfits mkdirFails renameFails) j
  | prune i fails =>
    show (s.prune i fails j).Kept
    rw [prune_eq_update hfits]
    exact kept_update h (kept_pruneMetadata (h i) fails) j
  | delete i fails => exact kept_update h (kept_rmtree (h i) fails) j
  | restore i fails => exact kept_update h (kept_recover (h i) fails) j

theorem spares_of_fits (e : Event ι) (hfits : Fits s e) : Spares s e := by
  intro j hj _
  cases e with
  | claim i mkdirFails renameFails | delete i fails | restore i fails =>
    exact update_of_ne hj _ _
  | prune i fails =>
    show s.prune i fails j = s j
    rw [prune_eq_update hfits]
    exact update_of_ne hj _ _

theorem kept_run {tr : List (Event ι)} (h0 : ∀ i, (s₀ i).phase = .idle)
    (hr : Run (Guarded Step Fits) s₀ tr s) (i : ι) : (s i).Kept := by
  refine Run.invariant (P := fun s : Repo ι => ∀ i, (s i).Kept) ?_ ?_ hr i
  · rintro s e t h ⟨hfits, rfl⟩ j
    exact kept_step h e hfits j
  · intro j
    rw [Checkout.Kept, h0 j]
    trivial

/-- **In every interleaving of releases that fits, every disposition and every return is
    true of its checkout, and no step touches one that is not being released.** -/
theorem releases_tell_truth {tr : List (Event ι)} (h0 : ∀ i, (s₀ i).phase = .idle)
    (hr : Run (Guarded Step Fits) s₀ tr s) :
    (∀ i, (s i).Truthful) ∧ ∀ e, Fits s e → Spares s e :=
  ⟨fun i => (kept_run h0 hr i).truthful, fun e hfits => spares_of_fits e hfits⟩

/-- A checkout of `/r/.worktrees`, as git made it. -/
def freshCheckout (name : String) : Checkout where
  target := ["r", ".worktrees", name]
  base := ["r", ".worktrees"]
  parkRoot := ["r", ".worktrees-releasing"]
  parkName := ["r", ".worktrees-releasing", "park-" ++ name]
  isLink := false
  place := .atPath
  whole := true
  registered := true
  gitFile := true
  phase := .idle

def twoCheckouts : Repo Bool := fun b => freshCheckout (if b then "b" else "a")

theorem releases_tell_truth_one :
    (∀ i, (Repo.step twoCheckouts (.claim true false false) i).Truthful) ∧
      ∀ e, Fits (Repo.step twoCheckouts (.claim true false false)) e →
        Spares (Repo.step twoCheckouts (.claim true false false)) e :=
  have hrun : Run (Guarded Step Fits) twoCheckouts [.claim true false false]
      (Repo.step twoCheckouts (.claim true false false)) :=
    Run.singleton_iff.mpr ⟨fun _ => ⟨rfl, rfl, rfl, rfl⟩, rfl⟩
  releases_tell_truth (fun i => (by cases i <;> rfl)) hrun

/-- Both are renamed, the first prunes, and the second's own prune is refused. -/
def crossedPrunes : List (Event Bool) :=
  [.claim false false false, .claim true false false, .prune false false, .prune true false,
    .restore true false]

/-- A release raises `INTACT` for a checkout git has dropped: the other release's prune ran
    while this one was renamed away. -/
theorem intact_but_dropped : (∀ i, (twoCheckouts i).Sound ∧ (twoCheckouts i).phase = .idle) ∧
      ∃ f, (crossedPrunes.foldl Repo.step twoCheckouts true).phase = .raised f ∧
        f.disposition = .intact ∧
        (crossedPrunes.foldl Repo.step twoCheckouts true).registered = false :=
  ⟨fun i => (by cases i <;> exact ⟨⟨rfl, rfl, rfl, rfl⟩, rfl⟩), _, rfl, rfl, rfl⟩

/-- Where a checkout away from its path loses its registration, its own release goes on to
    say `INTACT`. -/
theorem dropped_lies {j : ι} (hreg : (s j).registered = false)
    (hphase : (s j).phase = .renamed ∧ (s j).gitFile = true ∨ (s j).phase = .pruneFailed) :
    ∃ later : List (Event ι), ¬ (later.foldl Repo.step s j).Truthful := by
  have hrestore : ∀ s : Repo ι, (s j).registered = false → (s j).phase = .pruneFailed →
      ¬ ((s.step (.restore j false)) j).Truthful := by
    intro s hreg hphase htrue
    have hstep : (s.step (.restore j false)) j = { s j with place := .atPath }.raiseAs .intact := by
      show Function.update s j ((s j).recover false) j = _
      rw [update_self, recover, hphase]
      rfl
    rw [hstep] at htrue
    have hnow : (s j).registered = true := (htrue.intact _ rfl rfl).2.2.1
    exact absurd (hnow.symm.trans hreg) Bool.noConfusion
  rcases hphase with ⟨hphase, hgit⟩ | hphase
  · refine ⟨[.prune j false, .restore j false], ?_⟩
    have hstep : (s.step (.prune j false)) j = { s j with phase := .pruneFailed } := by
      show s.prune j false j = _
      rw [Repo.prune, if_pos rfl, pruneMetadata, if_neg (not_not.mpr hphase),
        if_neg (not_not.mpr hgit), if_neg]
      rw [prunes, hreg, Bool.and_false]
      decide
    refine hrestore (s.step (.prune j false)) ?_ ?_
    · rw [hstep]
      exact hreg
    · rw [hstep]
  · exact ⟨[.restore j false], hrestore s hreg hphase⟩

/-- **The condition on a prune leaves out nothing else**: one that does not fit touches a
    checkout that is not being released, or leads on to a false `INTACT`. -/
theorem unfit_prune_lies {tr : List (Event ι)} {i : ι} {fails : Bool}
    (h0 : ∀ i, (s₀ i).phase = .idle) (hr : Run (Guarded Step Fits) s₀ tr s)
    (hunfit : ¬ Fits s (.prune i fails)) :
    ¬ Spares s (.prune i fails) ∨ ∃ (later : List (Event ι)) (j : ι),
        ¬ (later.foldl Repo.step (s.step (.prune i fails)) j).Truthful := by
  obtain ⟨hprunes, j, hj, hreg, hplace⟩ : (s i).prunes fails = true ∧
      ∃ j, j ≠ i ∧ (s j).registered = true ∧ (s j).place ≠ .atPath := by
    rw [Fits] at hunfit
    push Not at hunfit
    exact hunfit
  have hkept := kept_run h0 hr j
  have hstep : (s.step (.prune i fails)) j = { s j with registered := false } := by
    show s.prune i fails j = _
    rw [Repo.prune, if_neg hj, if_pos hprunes, dropped, if_neg hplace]
  have htouched : (s j).phase.underWay = false → ¬ Spares s (.prune i fails) := by
    intro hover hspares
    have hsame := hspares j hj hover
    rw [hstep] at hsame
    exact absurd (congrArg registered hsame) (by rw [hreg]; exact Bool.noConfusion)
  have hlies : (s j).phase = .renamed ∧ (s j).gitFile = true ∨ (s j).phase = .pruneFailed →
      ∃ (later : List (Event ι)) (j : ι),
        ¬ (later.foldl Repo.step (s.step (.prune i fails)) j).Truthful := by
    intro hphase
    obtain ⟨later, hlater⟩ := dropped_lies (s := s.step (.prune i fails)) (j := j)
      (by rw [hstep]) (by rw [hstep]; exact hphase)
    exact ⟨later, j, hlater⟩
  rw [Checkout.Kept] at hkept
  cases hp : (s j).phase with
  | idle | returned | raised f => exact .inl (htouched (by rw [hp]; rfl))
  | renamed =>
    rw [hp] at hkept
    exact .inr (hlies (.inl ⟨hp, hkept.2.2.2⟩))
  | pruneFailed => exact .inr (hlies (.inr hp))
  | pruned | deleteFailed =>
    rw [hp] at hkept
    exact absurd (hreg.symm.trans hkept.2) Bool.noConfusion

namespace Checkout

theorem claim_cases (hp : c.phase = .idle) (mkdirFails renameFails : Bool) :
    (∃ message outside, c.claim mkdirFails renameFails = c.refuse message outside) ∨
      c.place = .atPath ∧
        c.claim mkdirFails renameFails = { c with place := .parked, phase := .renamed } := by
  rw [claim, if_neg (not_not.mpr hp)]
  split
  · exact .inl ⟨_, _, rfl⟩
  split
  · exact .inl ⟨_, _, rfl⟩
  split
  · exact .inl ⟨_, _, rfl⟩
  split
  · exact .inl ⟨_, _, rfl⟩
  · next h =>
      push Not at h
      exact .inr ⟨h.2, rfl⟩

/-- A release that nothing interrupts ends: with the bytes gone, where they were, or under
    the park name it reports. -/
theorem releaseDirectory_ended (hp : c.phase = .idle) (faults : Faults) :
    (c.releaseDirectory faults).phase = .returned ∧ (c.releaseDirectory faults).place = .gone ∨
      ∃ f, (c.releaseDirectory faults).phase = .raised f ∧
        ((c.releaseDirectory faults).place = c.place ∧ f.parkedPath = none ∨
          (c.releaseDirectory faults).place = .parked ∧ f.parkedPath = some c.parkName) := by
  obtain ⟨mkdirFails, renameFails, pruneFails, deleteFails, restoreFails⟩ := faults
  rcases claim_cases hp mkdirFails renameFails with ⟨message, outside, hclaim⟩ | ⟨hplace, hclaim⟩
  · right
    rw [releaseDirectory, hclaim]
    exact ⟨_, rfl, .inl ⟨rfl, rfl⟩⟩
  · obtain ⟨c', hprune⟩ : ∃ c', (c.claim mkdirFails renameFails).pruneMetadata pruneFails = c' :=
      ⟨_, rfl⟩
    have hparked : c'.place = .parked ∧ c'.parkName = c.parkName ∧
        (c'.phase = .pruned ∨ c'.phase = .pruneFailed) := by
      rw [← hprune, hclaim, pruneMetadata, if_neg (not_not.mpr rfl)]
      split
      · exact ⟨rfl, rfl, .inl rfl⟩
      split
      · exact ⟨rfl, rfl, .inl rfl⟩
      · exact ⟨rfl, rfl, .inr rfl⟩
    obtain ⟨hparked, hname, hphase⟩ := hparked
    rw [releaseDirectory, hprune, hplace, ← hname]
    rcases hphase with hphase | hphase
    · rw [rmtree, if_neg (not_not.mpr hphase)]
      cases deleteFails with
      | false => exact .inl ⟨rfl, rfl⟩
      | true =>
        right
        cases restoreFails with
        | true => exact ⟨_, rfl, .inr ⟨hparked, rfl⟩⟩
        | false => exact ⟨_, rfl, .inl ⟨rfl, rfl⟩⟩
    · right
      rw [rmtree, if_pos (by rw [hphase]; exact Phase.noConfusion), recover, hphase]
      cases restoreFails with
      | true => exact ⟨_, rfl, .inr ⟨hparked, rfl⟩⟩
      | false => exact ⟨_, rfl, .inl ⟨rfl, rfl⟩⟩

end Checkout

/-- The prune of the first, while the second is renamed away. -/
theorem unfit_prune_lies_renamed :
    let s := (crossedPrunes.take 2).foldl Repo.step twoCheckouts
    ¬ Spares s (.prune false false) ∨ ∃ (later : List (Event Bool)) (j : Bool),
      ¬ (later.foldl Repo.step (s.step (.prune false false)) j).Truthful :=
  have hrun : Run (Guarded Step Fits) twoCheckouts (crossedPrunes.take 2)
      ((crossedPrunes.take 2).foldl Repo.step twoCheckouts) :=
    .cons ⟨fun _ => ⟨rfl, rfl, rfl, rfl⟩, rfl⟩ (.cons ⟨fun _ => ⟨rfl, rfl, rfl, rfl⟩, rfl⟩ (.nil _))
  unfit_prune_lies (fun i => (by cases i <;> rfl)) hrun
    fun hfits => nomatch hfits rfl true (by decide) rfl

end Loregarden.Release

