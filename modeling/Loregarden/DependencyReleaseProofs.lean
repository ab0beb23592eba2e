import Loregarden.DependencyReleaseModel
import Loregarden.RunProofs

/-! # A prerequisite release fires once per wait

A hold is answered by at most one release before the ticket is held again or runs, and a parked
ticket is released only where a pass has seen it wait since it was parked: `OncePerWait`. The code
reads neither its own release record nor the time of the tag, so both depend on what happens between
two passes: `Steady`. -/

namespace Loregarden.DependencyRelease

open Runs Option Bool World
open List (mem_append mem_singleton)
open Nat (le_succ le_succ_of_le)

/-- Whether a release at `moment` falls to the hold at `held`: no other hold
    and no run lies between. -/
def answers (holds runs : List Time) (held moment : Time) : Bool :=
  held < moment && !(holds.any fun other => held < other && other < moment) &&
    !(runs.any fun run => held < run && run < moment)

namespace World

def releasesOf (w : World) (held : Time) : List Release :=
  w.released.filter fun release => answers w.holds w.runs held release.releasedAt

/-- Whether the ticket was released since its latest hold. -/
def releasedSinceHold (w : World) : Bool :=
  w.latestHoldAt.any fun held => w.released.any fun release => held < release.releasedAt

/-- Whether a drive owns the ticket, or a person stopped its last one. -/
def attended (w : World) : Bool := w.findActive || w.stoppedByAPerson

/-- Whether `release_tickets` takes the ticket. -/
def takes (w : World) : Bool :=
  w.selected && ((w.state = .parked && w.parkedAndReleasable) ||
    (w.inHeldState && w.heldAndReleasable))

end World

/-- **Once per wait, and only for waits.** -/
structure OncePerWait (w : World) : Prop where
  held : ∀ held : Time, held ∈ w.holds → (w.releasesOf held).length ≤ 1
  parked : ∀ release : Release, release ∈ w.released → release.wasParked = true →
    release.holding = [] ∧ ∃ seen ∈ w.seen, seen < release.releasedAt ∧
      ∀ parked ∈ w.parks, parked < release.releasedAt → parked < seen

/-- What the code relies on: a release under an open hold gets the ticket a
    drive, and no second one; a drive does not end by itself before the run
    its release was for; nobody parks a ticket that still carries the tag. -/
def Steady (w : World) : Event → Bool
  | .endDrive status =>
    !(w.openHold && w.releasedSinceHold) || w.stoppedByAPerson || status = .cancelled ||
      status = .queued || status = .running
  | .move .parked => w.state = .parked || !w.tagged
  | .releaseTickets outcome =>
    !w.takes || !w.openHold ||
      ((w.state ≠ .parked || !w.releasedSinceHold) &&
        (w.attended ||
          ((w.state ≠ .parked || !w.runs.isEmpty) && outcome.requeued.isSome &&
            w.resumePlan && outcome.room)))
  | _ => true

/-! ## The log -/

section Log

variable {holds runs : List Time} {held moment now : Time}

theorem answers_hold (h : moment ≤ now) :
    answers (holds ++ [now]) runs held moment = answers holds runs held moment := by
  have hlate : (held < now && now < moment) = false := by
    simpa using fun _ => h
  simp [answers, List.any_append, hlate]

theorem answers_run (h : moment ≤ now) :
    answers holds (runs ++ [now]) held moment = answers holds runs held moment := by
  have hlate : (held < now && now < moment) = false := by
    simpa using fun _ => h
  simp [answers, List.any_append, hlate]

theorem lt_of_answers (h : answers holds runs held moment = true) : held < moment := by
  simp only [answers, and_eq_true, decide_eq_true_eq] at h
  exact h.1.1

theorem latest_of_answers {latest : Time} (h : answers holds runs held moment = true)
    (hholds : ∀ t ∈ holds, t < moment) (hruns : ∀ t ∈ runs, t < moment)
    (hlatest : holds.getLast? = some latest) (hmax : ∀ t ∈ holds, t ≤ latest)
    (hmem : held ∈ holds) : held = latest ∧ (runs.any fun run => held < run) = false := by
  simp only [answers, and_eq_true, not_eq_true', decide_eq_true_eq] at h
  obtain ⟨⟨-, hhold⟩, hrun⟩ := h
  have hin : latest ∈ holds := List.mem_of_getLast? hlatest
  refine ⟨?_, ?_⟩
  · by_contra hne
    have hlt : held < latest := Nat.lt_of_le_of_ne (hmax held hmem) hne
    rw [List.any_eq_false] at hhold
    exact hhold latest hin (by simp [hlt, hholds latest hin])
  · rw [List.any_eq_false] at hrun ⊢
    intro run hmem'
    have := hrun run hmem'
    simpa [hruns run hmem'] using this

end Log

/-- What the log of a world says: every table and record the claim reads. -/
structure SameLog (w w' : World) : Prop where
  holds : w'.holds = w.holds
  runs : w'.runs = w.runs
  released : w'.released = w.released
  parks : w'.parks = w.parks
  seen : w'.seen = w.seen

structure Inv (w : World) : Prop where
  holdsLe : ∀ t ∈ w.holds, t ≤ w.clock
  runsLe : ∀ t ∈ w.runs, t ≤ w.clock
  releasedLe : ∀ release ∈ w.released, release.releasedAt ≤ w.clock
  parksLe : ∀ t ∈ w.parks, t ≤ w.clock
  seenLe : ∀ t ∈ w.seen, t ≤ w.clock
  latest : ∀ latest : Time, w.latestHoldAt = some latest → ∀ t ∈ w.holds, t ≤ latest
  attended : w.openHold = true → w.releasedSinceHold = true → w.attended = true
  tag : w.tagged = true → ∃ seen ∈ w.seen, ∀ parked ∈ w.parks, parked < seen
  once : OncePerWait w

section Events

variable {w w' : World} {now : Time}

theorem SameLog.openHold (h : SameLog w w') : w'.openHold = w.openHold := by
  simp only [World.openHold, World.latestHoldAt, World.ranSince, h.holds, h.runs]

theorem SameLog.releasedSinceHold (h : SameLog w w') :
    w'.releasedSinceHold = w.releasedSinceHold := by
  simp only [World.releasedSinceHold, World.latestHoldAt, h.holds, h.released]

theorem SameLog.oncePerWait (h : SameLog w w') (hw : OncePerWait w) : OncePerWait w' := by
  constructor
  · intro held hmem
    rw [releasesOf, h.holds, h.runs, h.released]
    rw [h.holds] at hmem
    exact hw.held held hmem
  · rw [h.released, h.parks, h.seen]
    exact hw.parked

theorem Inv.of_sameLog (h : Inv w) (hlog : SameLog w w') (hclock : w.clock ≤ w'.clock)
    (hattended : w.openHold = true → w.releasedSinceHold = true → w.attended = true →
      w'.attended = true) (htag : w'.tagged = true → w.tagged = true) : Inv w' where
  holdsLe t ht := Nat.le_trans (h.holdsLe t (hlog.holds ▸ ht)) hclock
  runsLe t ht := Nat.le_trans (h.runsLe t (hlog.runs ▸ ht)) hclock
  releasedLe release hr := Nat.le_trans (h.releasedLe release (hlog.released ▸ hr)) hclock
  parksLe t ht := Nat.le_trans (h.parksLe t (hlog.parks ▸ ht)) hclock
  seenLe t ht := Nat.le_trans (h.seenLe t (hlog.seen ▸ ht)) hclock
  latest := by
    rw [latestHoldAt, hlog.holds]
    exact h.latest
  attended hopen hsince := by
    rw [hlog.openHold] at hopen
    rw [hlog.releasedSinceHold] at hsince
    exact hattended hopen hsince (h.attended hopen hsince)
  tag htagged := by
    rw [hlog.seen, hlog.parks]
    exact h.tag (htag htagged)
  once := hlog.oncePerWait h.once

theorem Inv.hold (h : Inv w) :
    Inv { w with holds := w.holds ++ [w.clock + 1], clock := w.clock + 1 } where
  holdsLe t ht := by
    rcases mem_append.mp ht with ht | ht
    · exact le_succ_of_le (h.holdsLe t ht)
    · exact Nat.le_of_eq (mem_singleton.mp ht)
  runsLe t ht := le_succ_of_le (h.runsLe t ht)
  releasedLe release hr := le_succ_of_le (h.releasedLe release hr)
  parksLe t ht := le_succ_of_le (h.parksLe t ht)
  seenLe t ht := le_succ_of_le (h.seenLe t ht)
  latest latest hlatest t ht := by
    obtain rfl : w.clock + 1 = latest := by
      simpa [latestHoldAt] using hlatest
    rcases mem_append.mp ht with ht | ht
    · exact le_succ_of_le (h.holdsLe t ht)
    · exact Nat.le_of_eq (mem_singleton.mp ht)
  attended hopen hsince := by
    have hnone : ¬ ∃ release ∈ w.released, w.clock + 1 < release.releasedAt := by
      rintro ⟨release, hr, hlt⟩
      exact absurd hlt (Nat.not_lt_of_le (le_succ_of_le (h.releasedLe release hr)))
    exact absurd (by simpa [releasedSinceHold, latestHoldAt] using hsince) hnone
  tag := h.tag
  once := by
    refine ⟨?_, h.once.parked⟩
    intro held hmem
    have hsame : World.releasesOf { w with holds := w.holds ++ [w.clock + 1]
                                           clock := w.clock + 1 } held = w.releasesOf held := by
      refine List.filter_congr ?_
      intro release hr
      exact answers_hold (le_succ_of_le (h.releasedLe release hr))
    rw [hsame]
    rcases mem_append.mp hmem with hmem | hmem
    · exact h.once.held held hmem
    · -- every release came before the hold just recorded
      rw [releasesOf, List.filter_eq_nil_iff.mpr]
      · exact Nat.zero_le _
      · intro release hr hanswers
        have hlt := lt_of_answers hanswers
        rw [mem_singleton.mp hmem] at hlt
        exact absurd hlt (Nat.not_lt_of_le (le_succ_of_le (h.releasedLe release hr)))

theorem Inv.run (h : Inv w) :
    Inv { w with runs := w.runs ++ [w.clock + 1], clock := w.clock + 1 } where
  holdsLe t ht := le_succ_of_le (h.holdsLe t ht)
  runsLe t ht := by
    rcases mem_append.mp ht with ht | ht
    · exact le_succ_of_le (h.runsLe t ht)
    · exact Nat.le_of_eq (mem_singleton.mp ht)
  releasedLe release hr := le_succ_of_le (h.releasedLe release hr)
  parksLe t ht := le_succ_of_le (h.parksLe t ht)
  seenLe t ht := le_succ_of_le (h.seenLe t ht)
  latest := h.latest
  attended hopen _ := by
    have hclosed : ∀ held ∈ w.latestHoldAt, held < w.clock + 1 := by
      intro held hheld
      exact Nat.lt_succ_of_le (h.holdsLe held (List.mem_of_getLast? hheld))
    obtain ⟨held, hheld, hran⟩ := (any_eq_true _ _).mp hopen
    simp [ranSince, hclosed held hheld] at hran
  tag := h.tag
  once := by
    refine ⟨?_, h.once.parked⟩
    intro held hmem
    have hsame : World.releasesOf { w with runs := w.runs ++ [w.clock + 1]
                                           clock := w.clock + 1 } held = w.releasesOf held := by
      refine List.filter_congr ?_
      intro release hr
      exact answers_run (le_succ_of_le (h.releasedLe release hr))
    rw [hsame]
    exact h.once.held held hmem

end Events

/-! ## What a release does to the ticket -/

/-- Neither the log nor the tag moves, and who has a drive keeps one. -/
structure Carries (w w' : World) : Prop where
  log : SameLog w w'
  tagged : w'.tagged = w.tagged
  attended : w.attended = true → w'.attended = true

section Release

variable {w w' w'' : World} {now : Time} {outcome : World.Outcome} {planned : Bool}

theorem Carries.refl (w : World) : Carries w w := ⟨⟨rfl, rfl, rfl, rfl, rfl⟩, rfl, id⟩

theorem Carries.trans (h : Carries w w') (h' : Carries w' w'') : Carries w w'' where
  log := ⟨h'.log.holds.trans h.log.holds, h'.log.runs.trans h.log.runs,
    h'.log.released.trans h.log.released, h'.log.parks.trans h.log.parks,
    h'.log.seen.trans h.log.seen⟩
  tagged := h'.tagged.trans h.tagged
  attended hw := h'.attended (h.attended hw)

theorem carries_requeueStage (h : w.requeueStage outcome = some w') : Carries w w' := by
  obtain ⟨state, -, rfl⟩ := map_eq_some_iff.mp h
  exact ⟨⟨rfl, rfl, rfl, rfl, rfl⟩, rfl, id⟩

theorem carries_requeueAndPlanResume
    (h : w.requeueAndPlanResume outcome = some (w', planned)) : Carries w w' := by
  rw [requeueAndPlanResume] at h
  split at h
  · cases h
    exact Carries.refl w
  · split at h
    · cases h
      exact Carries.refl w
    · obtain ⟨requeued, hrequeued, heq⟩ := map_eq_some_iff.mp h
      cases heq
      exact carries_requeueStage hrequeued

theorem carries_admitResumes : Carries w (w.admitResumes outcome) := by
  rw [admitResumes]
  split
  · split
    · exact Carries.refl w
    · exact ⟨⟨rfl, rfl, rfl, rfl, rfl⟩, rfl, fun _ => rfl⟩
  · exact ⟨⟨rfl, rfl, rfl, rfl, rfl⟩, rfl, id⟩

theorem attended_admitResumes (hroom : outcome.room = true) :
    (w.admitResumes outcome).attended = true := by
  rw [admitResumes, if_pos hroom]
  split
  · rename_i hactive
    rw [attended, hactive]
    rfl
  · rfl

theorem carries_admitPlanned :
    Carries w (admitPlanned outcome (w.requeueAndPlanResume outcome) w) := by
  cases hplan : w.requeueAndPlanResume outcome with
  | none => exact Carries.refl w
  | some pair =>
    obtain ⟨after, planned⟩ := pair
    have hcarries := carries_requeueAndPlanResume hplan
    cases planned with
    | true => exact hcarries.trans carries_admitResumes
    | false => exact hcarries

/-- A plan is made where the requeue goes through, nothing drives the ticket, no
    person stopped it, and no external harness drove it last. -/
theorem requeueAndPlanResume_of_plan (hfree : w.attended = false)
    (hrequeued : outcome.requeued.isSome = true) (hplan : w.resumePlan = true) :
    ∃ after, w.requeueAndPlanResume outcome = some (after, true) := by
  rw [attended, or_eq_false_iff] at hfree
  obtain ⟨state, hstate⟩ := isSome_iff_exists.mp hrequeued
  refine ⟨{ w with state := state }, ?_⟩
  rw [requeueAndPlanResume, hfree.1, hfree.2, requeueStage, hstate]
  show some (({ w with state := state } : World), w.resumePlan) = _
  rw [hplan]

theorem carries_releaseParked :
    Carries { w.recordRelease now with tagged := false } (w.releaseParked now outcome) := by
  rw [releaseParked.eq_def]
  dsimp only
  split
  · rename_i after hplan
    have hcarries : Carries { w.recordRelease now with tagged := false } after := by
      split at hplan
      · exact carries_requeueAndPlanResume hplan
      · cases hplan
        exact Carries.refl _
    split
    · exact hcarries
    · cases hrequeue : after.requeueStage outcome with
      | none => exact hcarries
      | some requeued => exact hcarries.trans (carries_requeueStage hrequeue)
  · split
    · exact carries_admitPlanned
    · exact Carries.refl _

theorem attended_of_plan (hrequeued : outcome.requeued.isSome = true)
    (hplan : w.resumePlan = true) (hroom : outcome.room = true) :
    (admitPlanned outcome (w.requeueAndPlanResume outcome) w).attended = true := by
  cases hfree : w.attended with
  | true => exact carries_admitPlanned.attended hfree
  | false =>
    obtain ⟨after, hafter⟩ := requeueAndPlanResume_of_plan hfree hrequeued hplan
    rw [hafter]
    exact attended_admitResumes hroom

theorem attended_releaseParked (hran : w.runs.isEmpty = false)
    (hrequeued : outcome.requeued.isSome = true) (hplan : w.resumePlan = true)
    (hroom : outcome.room = true) : (w.releaseParked now outcome).attended = true := by
  cases hfree : attended { w.recordRelease now with tagged := false } with
  | true => exact carries_releaseParked.attended hfree
  | false =>
    obtain ⟨after, hafter⟩ := requeueAndPlanResume_of_plan hfree hrequeued hplan
    rw [releaseParked.eq_def]
    dsimp only
    rw [if_pos (by simpa using hran), hafter]
    exact attended_admitResumes hroom

end Release

/-! ## One event -/

section Step

variable {w w' : World} {outcome : World.Outcome}

section

variable (h : Inv w)
include h

theorem length_releasesOf_le {wasParked : Bool} {holding : List TicketId} {held : Time}
    (hmem : held ∈ w.holds) (hfresh : w.openHold = true → w.releasedSinceHold = false) :
    ((w.released ++ ([⟨w.clock + 1, wasParked, holding⟩] : List Release)).filter
      fun release => answers w.holds w.runs held release.releasedAt).length ≤ 1 := by
  have hold := h.once.held held hmem
  rw [List.filter_append]
  by_cases hnew : answers w.holds w.runs held (w.clock + 1) = true
  · -- it falls to the latest hold, which no release has answered
    have hholds : ∀ t ∈ w.holds, t < w.clock + 1 := fun t ht => Nat.lt_succ_of_le (h.holdsLe t ht)
    have hruns : ∀ t ∈ w.runs, t < w.clock + 1 := fun t ht => Nat.lt_succ_of_le (h.runsLe t ht)
    obtain ⟨latest, hlatest⟩ : ∃ latest, w.latestHoldAt = some latest := by
      cases hlast : w.latestHoldAt with
      | none =>
        rw [List.getLast?_eq_none_iff.mp hlast] at hmem
        cases hmem
      | some latest => exact ⟨latest, rfl⟩
    obtain ⟨rfl, hran⟩ := latest_of_answers hnew hholds hruns hlatest (h.latest latest hlatest) hmem
    have hopen : w.openHold = true := by
      rw [openHold, hlatest]
      simpa [ranSince] using hran
    have hnone : (w.released.filter fun release =>
        answers w.holds w.runs held release.releasedAt) = [] := by
      refine List.filter_eq_nil_iff.mpr ?_
      intro release hr hanswers
      have hsince := hfresh hopen
      rw [releasedSinceHold, hlatest] at hsince
      have hnot := List.any_eq_false.mp hsince release hr
      exact hnot (by simpa using lt_of_answers hanswers)
    rw [hnone, List.nil_append]
    exact List.length_filter_le _ _
  · have hnil : ([⟨w.clock + 1, wasParked, holding⟩] : List Release).filter (fun release =>
        answers w.holds w.runs held release.releasedAt) = [] := by
      simpa using hnew
    rw [hnil, List.append_nil]
    exact hold

/-- **A release**, where the latest hold has had none, and where the ticket is
    attended behind it. -/
theorem Inv.release {wasParked : Bool} {holding : List TicketId}
    (hlog : SameLog { w with released := w.released ++ [⟨w.clock + 1, wasParked, holding⟩] } w')
    (hclock : w'.clock = w.clock + 1) (hfresh : w.openHold = true → w.releasedSinceHold = false)
    (hattended : w.openHold = true → w'.attended = true) (htag : w'.tagged = true → w.tagged = true)
    (hparked : wasParked = true → holding = [] ∧ w.tagged = true) : Inv w' where
  holdsLe t ht := by
    rw [hclock]
    exact le_succ_of_le (h.holdsLe t (hlog.holds ▸ ht))
  runsLe t ht := by
    rw [hclock]
    exact le_succ_of_le (h.runsLe t (hlog.runs ▸ ht))
  releasedLe release hr := by
    rw [hclock]
    rw [hlog.released] at hr
    rcases mem_append.mp hr with hr | hr
    · exact le_succ_of_le (h.releasedLe release hr)
    · obtain rfl := mem_singleton.mp hr
      exact Nat.le_refl _
  parksLe t ht := by
    rw [hclock]
    exact le_succ_of_le (h.parksLe t (hlog.parks ▸ ht))
  seenLe t ht := by
    rw [hclock]
    exact le_succ_of_le (h.seenLe t (hlog.seen ▸ ht))
  latest := by
    rw [latestHoldAt, hlog.holds]
    exact h.latest
  attended hopen _ := hattended (hlog.openHold.symm.trans hopen)
  tag htagged := by
    rw [hlog.seen, hlog.parks]
    exact h.tag (htag htagged)
  once := by
    constructor
    · intro held hmem
      rw [releasesOf, hlog.holds, hlog.runs, hlog.released]
      rw [hlog.holds] at hmem
      exact length_releasesOf_le h hmem hfresh
    · rw [hlog.released, hlog.parks, hlog.seen]
      intro release hr hwas
      rcases mem_append.mp hr with hr | hr
      · exact h.once.parked release hr hwas
      · obtain rfl := mem_singleton.mp hr
        obtain ⟨hholding, htagged⟩ := hparked hwas
        obtain ⟨seen, hseen, hparks⟩ := h.tag htagged
        exact ⟨hholding, seen, hseen, Nat.lt_succ_of_le (h.seenLe seen hseen),
          fun parked hp _ => hparks parked hp⟩

omit h in
theorem steady_release (hsteady : Steady w (.releaseTickets outcome) = true)
    (htakes : w.takes = true) (hopen : w.openHold = true) :
    (w.state = .parked → w.releasedSinceHold = false) ∧
      (w.attended = true ∨ ((w.state = .parked → w.runs.isEmpty = false) ∧
        outcome.requeued.isSome = true ∧ w.resumePlan = true ∧ outcome.room = true)) := by
  have hs : ((w.state ≠ .parked || !w.releasedSinceHold) && (w.attended ||
      ((w.state ≠ .parked || !w.runs.isEmpty) && outcome.requeued.isSome &&
        w.resumePlan && outcome.room))) = true := by
    simpa [Steady, htakes, hopen] using hsteady
  obtain ⟨hfirst, hsecond⟩ := and_eq_true_iff.mp hs
  constructor
  · intro hparked
    simpa [hparked] using hfirst
  · rcases or_eq_true_iff.mp hsecond with hattended | hplan
    · exact .inl hattended
    · simp only [and_eq_true] at hplan
      obtain ⟨⟨⟨hran, hrequeued⟩, hplan⟩, hroom⟩ := hplan
      refine .inr ⟨?_, hrequeued, hplan, hroom⟩
      intro hparked
      simpa [hparked] using hran

section

variable (hsteady : Steady w (.releaseTickets outcome) = true) (hselected : w.selected = true)
include hsteady hselected

theorem Inv.releaseParked (hparked : w.state = .parked)
    (hreleasable : w.parkedAndReleasable = true) :
    Inv { releaseParked { w with selected := false } (w.clock + 1) outcome with
      clock := w.clock + 1 } := by
  obtain ⟨htagged, hholding⟩ := and_eq_true_iff.mp hreleasable
  have htakes : w.takes = true := by
    simp [takes, hselected, hparked, hreleasable]
  have hcarries : Carries { World.recordRelease { w with selected := false } (w.clock + 1) with
      tagged := false } (World.releaseParked { w with selected := false } (w.clock + 1) outcome) :=
    carries_releaseParked
  refine h.release ⟨hcarries.log.holds, hcarries.log.runs, hcarries.log.released,
    hcarries.log.parks, hcarries.log.seen⟩ rfl ?_ ?_ ?_ ?_
  · intro hopen
    exact (steady_release hsteady htakes hopen).1 hparked
  · intro hopen
    rcases (steady_release hsteady htakes hopen).2 with hattended | ⟨hran, hrequeued, hplan, hroom⟩
    · exact hcarries.attended hattended
    · exact attended_releaseParked (hran hparked) hrequeued hplan hroom
  · intro htag
    have hdropped := hcarries.tagged
    rw [show tagged _ = true from htag] at hdropped
    cases hdropped
  · intro _
    exact ⟨List.isEmpty_iff.mp hholding, htagged⟩

theorem Inv.releaseHeld (hstate : w.inHeldState = true)
    (hreleasable : w.heldAndReleasable = true) :
    Inv { admitPlanned outcome
        ((recordRelease { w with selected := false } (w.clock + 1)).requeueAndPlanResume
          outcome) (recordRelease { w with selected := false } (w.clock + 1)) with
      clock := w.clock + 1 } := by
  have hnot : w.state ≠ .parked := by
    intro hparked
    rw [inHeldState, hparked] at hstate
    cases hstate
  have htakes : w.takes = true := by
    simp [takes, hselected, hstate, hreleasable]
  simp only [heldAndReleasable, and_eq_true, not_eq_true'] at hreleasable
  obtain ⟨⟨⟨hopen, hactive⟩, hstopped⟩, -⟩ := hreleasable
  have hfree : w.attended = false := by
    rw [World.attended, hactive, hstopped]
    rfl
  have hcarries : Carries (recordRelease { w with selected := false } (w.clock + 1))
      (admitPlanned outcome
        ((recordRelease { w with selected := false } (w.clock + 1)).requeueAndPlanResume
          outcome) (recordRelease { w with selected := false } (w.clock + 1))) :=
    carries_admitPlanned
  refine h.release ⟨hcarries.log.holds, hcarries.log.runs, hcarries.log.released,
    hcarries.log.parks, hcarries.log.seen⟩ rfl ?_ ?_ ?_ ?_
  · intro _
    -- a release since the hold would have left a drive
    by_contra hsince
    have hattended := h.attended hopen (by simpa using hsince)
    rw [hfree] at hattended
    cases hattended
  · intro _
    rcases (steady_release hsteady htakes hopen).2 with hattended | ⟨-, hrequeued, hplan, hroom⟩
    · rw [hfree] at hattended
      cases hattended
    · exact attended_of_plan hrequeued hplan hroom
  · intro htag
    exact hcarries.tagged.symm.trans htag
  · intro hwas
    exact absurd (by simpa using hwas) hnot

end

omit h in
theorem releaseTickets_selected {now : Time} (hselected : w.selected = true) :
    w.releaseTickets now outcome =
      if (w.state = .parked && w.parkedAndReleasable) = true then
        releaseParked { w with selected := false } now outcome
      else if (w.inHeldState && w.heldAndReleasable) = true then
        admitPlanned outcome
          ((recordRelease { w with selected := false } now).requeueAndPlanResume outcome)
          (recordRelease { w with selected := false } now)
      else { w with selected := false } := by
  rw [releaseTickets, hselected]
  rfl

theorem Inv.releaseTickets (hsteady : Steady w (.releaseTickets outcome) = true) :
    Inv (w.after (.releaseTickets outcome)) := by
  have hquiet : ∀ selected, Inv { w with selected := selected, clock := w.clock + 1 } := fun _ =>
    h.of_sameLog ⟨rfl, rfl, rfl, rfl, rfl⟩ (le_succ _) (fun _ _ hattended => hattended) id
  show Inv { w.releaseTickets (w.clock + 1) outcome with clock := w.clock + 1 }
  cases hselected : w.selected with
  | false =>
    have hsame : w.releaseTickets (w.clock + 1) outcome = w := by
      rw [World.releaseTickets, hselected]
      rfl
    rw [hsame]
    exact hquiet w.selected
  | true =>
    rw [releaseTickets_selected hselected]
    by_cases hparked : (w.state = .parked && w.parkedAndReleasable) = true
    · obtain ⟨hstate, hreleasable⟩ := and_eq_true_iff.mp hparked
      rw [if_pos hparked]
      exact h.releaseParked hsteady hselected (by simpa using hstate) hreleasable
    · rw [if_neg hparked]
      by_cases hheld : (w.inHeldState && w.heldAndReleasable) = true
      · obtain ⟨hstate, hreleasable⟩ := and_eq_true_iff.mp hheld
        rw [if_pos hheld]
        exact h.releaseHeld hsteady hselected hstate hreleasable
      · rw [if_neg hheld]
        exact hquiet false

theorem Inv.markParkedWaits : Inv (w.after .markParkedWaits) := by
  show Inv { w.markParkedWaits (w.clock + 1) with clock := w.clock + 1 }
  rw [World.markParkedWaits]
  split
  · split
    · refine { h with
        holdsLe := fun t ht => le_succ_of_le (h.holdsLe t ht)
        runsLe := fun t ht => le_succ_of_le (h.runsLe t ht)
        releasedLe := fun release hr => le_succ_of_le (h.releasedLe release hr)
        parksLe := fun t ht => le_succ_of_le (h.parksLe t ht)
        seenLe := ?_, tag := ?_, once := ?_ }
      · intro t ht
        rcases mem_append.mp ht with ht | ht
        · exact le_succ_of_le (h.seenLe t ht)
        · exact Nat.le_of_eq (mem_singleton.mp ht)
      · intro _
        refine ⟨w.clock + 1, by simp, ?_⟩
        intro parked hparked
        exact Nat.lt_succ_of_le (h.parksLe parked hparked)
      · refine ⟨h.once.held, ?_⟩
        intro release hr hwas
        obtain ⟨hholding, seen, hseen, hlt, hparks⟩ := h.once.parked release hr hwas
        exact ⟨hholding, seen, List.mem_append_left _ hseen, hlt, hparks⟩
    · exact h.of_sameLog ⟨rfl, rfl, rfl, rfl, rfl⟩ (le_succ _) (fun _ _ ha => ha) id
  · refine h.of_sameLog ⟨rfl, rfl, rfl, rfl, rfl⟩ (le_succ _) (fun _ _ ha => ha) ?_
    intro htag
    cases htag

theorem Inv.park (htag : w.tagged = false) :
    Inv { w with state := .parked, parks := w.parks ++ [w.clock + 1], clock := w.clock + 1 } := by
  refine { h with
    holdsLe := fun t ht => le_succ_of_le (h.holdsLe t ht)
    runsLe := fun t ht => le_succ_of_le (h.runsLe t ht)
    releasedLe := fun release hr => le_succ_of_le (h.releasedLe release hr)
    seenLe := fun t ht => le_succ_of_le (h.seenLe t ht)
    parksLe := ?_, tag := ?_, once := ?_ }
  · intro t ht
    rcases mem_append.mp ht with ht | ht
    · exact le_succ_of_le (h.parksLe t ht)
    · exact Nat.le_of_eq (mem_singleton.mp ht)
  · intro htagged
    rw [show w.tagged = true from htagged] at htag
    cases htag
  · refine ⟨h.once.held, ?_⟩
    intro release hr hwas
    obtain ⟨hholding, seen, hseen, hlt, hparks⟩ := h.once.parked release hr hwas
    refine ⟨hholding, seen, hseen, hlt, ?_⟩
    intro parked hparked hbefore
    rcases mem_append.mp hparked with hparked | hparked
    · exact hparks parked hparked hbefore
    · rw [mem_singleton.mp hparked] at hbefore
      exact absurd hbefore (Nat.not_lt_of_le (le_succ_of_le (h.releasedLe release hr)))

theorem Inv.endDrive {status : OrchestrationRunStatus}
    (hsteady : Steady w (.endDrive status) = true) : Inv (w.after (.endDrive status)) := by
  show Inv { (if w.findActive then _ else w : World) with clock := w.clock + 1 }
  cases hactive : w.findActive with
  | false => exact h.of_sameLog ⟨rfl, rfl, rfl, rfl, rfl⟩ (le_succ _) (fun _ _ ha => ha) id
  | true =>
    refine h.of_sameLog ⟨rfl, rfl, rfl, rfl, rfl⟩ (le_succ _) ?_ id
    intro hopen hsince _
    obtain ⟨run, hrun, hlive⟩ := (any_eq_true _ _).mp hactive
    have hstatus : run.cancelRequested = true ∨ status = .cancelled ∨ status = .queued ∨
        status = .running := by
      have hs : (((w.stoppedByAPerson = true ∨ status = .cancelled) ∨ status = .queued) ∨
          status = .running) := by
        simpa [Steady, hopen, hsince] using hsteady
      rcases hs with ((hstopped | hs) | hs) | hs
      · -- a live drive is stopped by its request alone
        rw [stoppedByAPerson, hrun] at hstopped
        cases hcancelled : run.cancelRequested with
        | true => exact .inl rfl
        | false =>
          have hst : run.status = .cancelled := by
            simpa [hcancelled] using hstopped
          rw [OrchestrationRun.active, hst] at hlive
          cases hlive
      · exact .inr (.inl hs)
      · exact .inr (.inr (.inl hs))
      · exact .inr (.inr (.inr hs))
    show ((Option.map _ w.latest).any _ || (Option.map _ w.latest).any _) = true
    rcases hstatus with hs | rfl | rfl | rfl <;> simp [OrchestrationRun.active, *]

end

theorem carries_startDrive {driver : OrchestrationDriver} : Carries w (w.startDrive driver) := by
  rw [startDrive]
  split
  · exact Carries.refl w
  · exact ⟨⟨rfl, rfl, rfl, rfl, rfl⟩, rfl, fun _ => rfl⟩

theorem attended_requestCancel (hactive : w.findActive = true) : attended { w with
      latest := w.latest.map fun run => { run with cancelRequested := true } } = true := by
  obtain ⟨run, hrun, -⟩ := (any_eq_true _ _).mp hactive
  show ((Option.map _ w.latest).any _ || (Option.map _ w.latest).any _) = true
  rw [hrun]
  simp

/-- **One event of a steady run.** -/
theorem Inv.step {e : Event} (h : Inv w) (hsteady : Steady w e = true) : Inv (w.after e) := by
  have hsame : ∀ w' : World, SameLog w w' → w'.clock = w.clock + 1 → w'.tagged = w.tagged →
      (w.attended = true → w'.attended = true) → Inv w' := by
    intro w' hlog hclock htag hattended
    exact h.of_sameLog hlog (hclock ▸ le_succ _) (fun _ _ ha => hattended ha)
      (fun ht => htag ▸ ht)
  cases e with
  | hold =>
    show Inv { (if _ then _ else _ : World) with clock := w.clock + 1 }
    split
    · exact hsame _ ⟨rfl, rfl, rfl, rfl, rfl⟩ rfl rfl id
    · exact h.hold
  | run => exact h.run
  | startDrive driver =>
    have hcarries : Carries w (w.startDrive driver) := carries_startDrive
    exact hsame _ ⟨hcarries.log.holds, hcarries.log.runs, hcarries.log.released,
      hcarries.log.parks, hcarries.log.seen⟩ rfl hcarries.tagged hcarries.attended
  | endDrive status => exact h.endDrive hsteady
  | requestCancel =>
    show Inv { (if _ then _ else _ : World) with clock := w.clock + 1 }
    split
    · rename_i hactive
      exact hsame _ ⟨rfl, rfl, rfl, rfl, rfl⟩ rfl rfl fun _ => attended_requestCancel hactive
    · exact hsame _ ⟨rfl, rfl, rfl, rfl, rfl⟩ rfl rfl id
  | laneStarts =>
    show Inv { (if _ then _ else _ : World) with clock := w.clock + 1 }
    split
    · have hcarries : Carries w (w.startDrive .builtinAutopilot) := carries_startDrive
      exact hsame _ ⟨hcarries.log.holds, hcarries.log.runs, hcarries.log.released,
        hcarries.log.parks, hcarries.log.seen⟩ rfl hcarries.tagged hcarries.attended
    · exact hsame _ ⟨rfl, rfl, rfl, rfl, rfl⟩ rfl rfl id
  | move state =>
    show Inv { (if w.state = state then _ else _ : World) with clock := w.clock + 1 }
    split
    · exact hsame _ ⟨rfl, rfl, rfl, rfl, rfl⟩ rfl rfl id
    · rename_i hmoved
      by_cases hpark : state = .parked
      · subst hpark
        have htag : w.tagged = false := by
          simpa [Steady, hmoved] using hsteady
        exact h.park htag
      · refine hsame _ ⟨rfl, rfl, rfl, ?_, rfl⟩ rfl rfl id
        exact if_neg hpark
  | addEdge dependsOn | overridePrerequisites =>
    show Inv { (if _ then _ else _ : World) with clock := w.clock + 1 }
    split
    · exact hsame _ ⟨rfl, rfl, rfl, rfl, rfl⟩ rfl rfl id
    · exact hsame _ ⟨rfl, rfl, rfl, rfl, rfl⟩ rfl rfl id
  | dropEdge dependsOn | land ticket landed | selectReleasable =>
    exact hsame _ ⟨rfl, rfl, rfl, rfl, rfl⟩ rfl rfl id
  | markParkedWaits => exact h.markParkedWaits
  | releaseTickets outcome => exact h.releaseTickets hsteady

end Step

def Step (w : World) (e : Event) (w' : World) : Prop := w.after e = w'

theorem Inv.start (landed : TicketId → Bool) : Inv { landed := landed } where
  holdsLe _ ht := by cases ht
  runsLe _ ht := by cases ht
  releasedLe _ hr := by cases hr
  parksLe _ ht := by cases ht
  seenLe _ ht := by cases ht
  latest _ hlatest := by cases hlatest
  attended hopen := by cases hopen
  tag htag := by cases htag
  once := ⟨fun _ hmem => (by cases hmem), fun _ hr => (by cases hr)⟩

/-- **In every steady run a release fires once per wait, and only for waits.** -/
theorem once_per_wait {landed : TicketId → Bool} {tr : List Event} {w : World}
    (hr : Run (Guarded Step fun w e => Steady w e = true) { landed := landed } tr w) :
    OncePerWait w := by
  have hinv : Inv w := by
    refine hr.invariant ?_ (Inv.start landed)
    rintro s e t hs ⟨hsteady, rfl⟩
    exact hs.step hsteady
  exact hinv.once

/-- A hold answered by a drive and its run, then a park that was seen waiting. -/
def steadyHistory : List Event :=
  [.addEdge 7, .hold, .land 7 true, .selectReleasable, .releaseTickets ⟨some .inProgress, true⟩,
    .run, .endDrive .succeeded, .addEdge 8, .move .parked, .markParkedWaits, .land 8 true,
    .selectReleasable, .releaseTickets ⟨some .inProgress, true⟩]

theorem steadyHistory_once :
    ((steadyHistory.foldl World.after { landed := fun _ => false }).released.map
      Release.wasParked) = [false, true] ∧
    OncePerWait (steadyHistory.foldl World.after { landed := fun _ => false }) :=
  ⟨by decide +kernel, once_per_wait (Run.of_meets (fun _ _ hsteady => ⟨hsteady, rfl⟩)
      (by decide +kernel : meets World.after Steady { landed := fun _ => false } steadyHistory
        = true))⟩

/-- The prerequisite of a held ticket lands while its lane is full: two passes. -/
def fullLane : List Event :=
  [.addEdge 7, .hold, .land 7 true, .selectReleasable, .releaseTickets ⟨some .inProgress, false⟩,
    .selectReleasable, .releaseTickets ⟨some .inProgress, false⟩]

/-- **One hold, released at every pass.** -/
theorem released_again : ¬ ∀ (landed : TicketId → Bool) (tr : List Event) (w : World),
    Run Step { landed := landed } tr w → OncePerWait w := by
  intro h
  have honce := h (fun _ => false) fullLane _ (Run.of_foldl (fun _ _ => rfl) _ _)
  have hheld := honce.held 2 (by decide +kernel)
  revert hheld
  decide +kernel

end Loregarden.DependencyRelease

