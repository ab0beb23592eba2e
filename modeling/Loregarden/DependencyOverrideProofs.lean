import Loregarden.DependencyReleaseProofs

/-! # What an override releases

`holding_prerequisites` merges a ticket's overrides into one set of ids and one latest time. The
per-override rule: an unmet prerequisite is released by an override that recorded it, and not before
the edge to it was made. The two agree on every edge to a prerequisite that was unmet at each
override since (`Covering`); a prerequisite that was done at one and is reopened behind it is where
they part (`Kept`). -/

namespace Loregarden.DependencyRelease

open Runs List Nat World

namespace World

variable (w : World)

/-- `_overridden_ids`. -/
def overridden (ticket : TicketId) : Bool := w.overrides.any fun made => ticket ∈ made.prerequisites

def startedPast (edge : Edge) : Bool :=
  w.overridden edge.dependsOn && w.overrides.getLast?.any fun latest =>
    edge.createdAt ≤ latest.createdAt

def overridesSince (edge : Edge) : List Override :=
  w.overrides.filter fun made => edge.createdAt ≤ made.createdAt

/-- Whether the prerequisite was recorded once, and every override since the
    edge was made (there is one) left it out. -/
def passedOver (edge : Edge) : Bool :=
  w.overridden edge.dependsOn && !(w.overridesSince edge).isEmpty &&
    !((w.overridesSince edge).any fun made => edge.dependsOn ∈ made.prerequisites)

end World

/-- **An override releases exactly what it saw.** -/
def ReleasesWhatItSaw (w : World) : Prop :=
  ∀ edge ∈ w.unmetPrerequisites, edge.dependsOn ∉ w.holdingPrerequisites ↔
      ∃ made ∈ w.overrides, edge.dependsOn ∈ made.prerequisites ∧ edge.createdAt ≤ made.createdAt

/-- No prerequisite that was passed over is reopened. -/
def Kept (w : World) : Event → Bool
  | .land ticket false =>
    w.edges.all fun edge => edge.dependsOn ≠ ticket || !w.passedOver edge
  | _ => true

/-- What holds in every world of a run whose steps are `Kept`. -/
structure Covering (w : World) : Prop where
  distinct : ∀ edge ∈ w.edges, ∀ other ∈ w.edges, edge.dependsOn = other.dependsOn → edge = other
  edgesLe : ∀ edge ∈ w.edges, edge.createdAt ≤ w.clock
  overridesLe : ∀ made ∈ w.overrides, made.createdAt ≤ w.clock
  latest : ∀ latest ∈ w.overrides.getLast?, ∀ made ∈ w.overrides, made.createdAt ≤ latest.createdAt
  unmet : ∀ edge ∈ w.unmetPrerequisites, w.passedOver edge = false

/-! ## The merged test and the per-override rule -/

section Tests

variable {w : World} {edge : Edge} {ticket : TicketId}

theorem mem_unmetPrerequisites :
    edge ∈ w.unmetPrerequisites ↔ edge ∈ w.edges ∧ w.landed edge.dependsOn = false := by
  simp [unmetPrerequisites]

theorem mem_holdingPrerequisites : ticket ∈ w.holdingPrerequisites ↔
      ∃ edge ∈ w.unmetPrerequisites, w.startedPast edge = false ∧ edge.dependsOn = ticket := by
  rw [holdingPrerequisites]
  cases hlast : w.overrides.getLast? with
  | none => simp [startedPast, hlast]
  | some latest =>
    simp only [mem_map, mem_filter, and_assoc]
    constructor
    · rintro ⟨edge, hmem, hheld, rfl⟩
      refine ⟨edge, hmem, ?_, rfl⟩
      simpa [startedPast, overridden, hlast, imp_iff_not_or] using hheld
    · rintro ⟨edge, hmem, hheld, rfl⟩
      refine ⟨edge, hmem, ?_, rfl⟩
      simpa [startedPast, overridden, hlast, imp_iff_not_or] using hheld

theorem Covering.not_mem_holding (h : Covering w) (hmem : edge ∈ w.unmetPrerequisites) :
    edge.dependsOn ∉ w.holdingPrerequisites ↔ w.startedPast edge = true := by
  rw [mem_holdingPrerequisites]
  constructor
  · intro hfree
    by_contra hheld
    exact hfree ⟨edge, hmem, by simpa using hheld, rfl⟩
  · rintro hpast ⟨other, hother, hheld, hsame⟩
    have hedges := (mem_unmetPrerequisites.mp hmem).1
    obtain rfl := h.distinct other (mem_unmetPrerequisites.mp hother).1 edge hedges hsame
    rw [hpast] at hheld
    cases hheld

theorem mem_overridesSince {made : Override} :
    made ∈ w.overridesSince edge ↔ made ∈ w.overrides ∧ edge.createdAt ≤ made.createdAt := by
  simp [overridesSince]

theorem Covering.overridesSince_ne_nil (h : Covering w) : w.overridesSince edge ≠ [] ↔
      (w.overrides.getLast?.any fun latest => edge.createdAt ≤ latest.createdAt) = true := by
  rw [Option.any_eq_true]
  constructor
  · intro hsome
    obtain ⟨made, hmade⟩ := exists_mem_of_ne_nil _ hsome
    obtain ⟨hmem, hsince⟩ := mem_overridesSince.mp hmade
    cases hlast : w.overrides.getLast? with
    | none =>
      rw [List.getLast?_eq_none_iff.mp hlast] at hmem
      cases hmem
    | some latest =>
      have hle := h.latest latest hlast made hmem
      exact ⟨latest, rfl, by simpa using Nat.le_trans hsince hle⟩
  · rintro ⟨latest, hlast, hsince⟩
    have hmem : latest ∈ w.overridesSince edge :=
      mem_overridesSince.mpr ⟨mem_of_getLast? hlast, by simpa using hsince⟩
    exact ne_nil_of_mem hmem

/-- **The two tests part on the edges that were passed over.** -/
theorem Covering.startedPast_iff (h : Covering w) : w.startedPast edge = true ↔
      (∃ made ∈ w.overrides, edge.dependsOn ∈ made.prerequisites ∧
        edge.createdAt ≤ made.createdAt) ∨ w.passedOver edge = true := by
  have hsince : (w.startedPast edge = true) ↔
      w.overridden edge.dependsOn = true ∧ w.overridesSince edge ≠ [] := by
    rw [startedPast, Bool.and_eq_true, h.overridesSince_ne_nil]
  rw [hsince]
  constructor
  · rintro ⟨hrecorded, hsome⟩
    by_cases hsaw : ∃ made ∈ w.overridesSince edge, edge.dependsOn ∈ made.prerequisites
    · obtain ⟨made, hmade, hin⟩ := hsaw
      obtain ⟨hmem, hle⟩ := mem_overridesSince.mp hmade
      exact .inl ⟨made, hmem, hin, hle⟩
    · have hnone : ((w.overridesSince edge).any fun made =>
          edge.dependsOn ∈ made.prerequisites) = false := by
        simpa using hsaw
      simp [passedOver, hrecorded, hsome, hnone]
  · rintro (⟨made, hmem, hin, hle⟩ | hpassed)
    · refine ⟨?_, ne_nil_of_mem (mem_overridesSince.mpr ⟨hmem, hle⟩)⟩
      exact any_eq_true.mpr ⟨made, hmem, by simpa using hin⟩
    · simp only [passedOver, Bool.and_eq_true, Bool.not_eq_true',
        isEmpty_eq_false_iff] at hpassed
      exact hpassed.1

theorem not_saw_of_passedOver (hpassed : w.passedOver edge = true) :
    ¬ ∃ made ∈ w.overrides, edge.dependsOn ∈ made.prerequisites ∧
      edge.createdAt ≤ made.createdAt := by
  rintro ⟨made, hmem, hin, hle⟩
  simp only [passedOver, Bool.and_eq_true, Bool.not_eq_true'] at hpassed
  have hnot := any_eq_false.mp hpassed.2 made (mem_overridesSince.mpr ⟨hmem, hle⟩)
  exact hnot (by simpa using hin)

theorem Covering.releases (h : Covering w) : ReleasesWhatItSaw w := by
  intro edge hmem
  rw [h.not_mem_holding hmem, h.startedPast_iff, h.unmet edge hmem]
  simp

end Tests

/-! ## What the other events leave alone -/

structure SamePrerequisites (w w' : World) : Prop where
  edges : w'.edges = w.edges
  landed : w'.landed = w.landed
  overrides : w'.overrides = w.overrides

section Frame

variable {w w' w'' : World} {now : Time} {outcome : World.Outcome} {planned : Bool}

theorem SamePrerequisites.refl (w : World) : SamePrerequisites w w := ⟨rfl, rfl, rfl⟩

theorem SamePrerequisites.trans (h : SamePrerequisites w w') (h' : SamePrerequisites w' w'') :
    SamePrerequisites w w'' :=
  ⟨h'.edges.trans h.edges, h'.landed.trans h.landed, h'.overrides.trans h.overrides⟩

theorem same_requeueStage (h : w.requeueStage outcome = some w') : SamePrerequisites w w' := by
  obtain ⟨state, -, rfl⟩ := Option.map_eq_some_iff.mp h
  exact ⟨rfl, rfl, rfl⟩

theorem same_requeueAndPlanResume (h : w.requeueAndPlanResume outcome = some (w', planned)) :
    SamePrerequisites w w' := by
  rw [requeueAndPlanResume] at h
  split at h
  · cases h
    exact .refl w
  · split at h
    · cases h
      exact .refl w
    · obtain ⟨requeued, hrequeued, heq⟩ := Option.map_eq_some_iff.mp h
      cases heq
      exact same_requeueStage hrequeued

theorem same_admitResumes : SamePrerequisites w (w.admitResumes outcome) := by
  rw [admitResumes]
  split
  · split <;> exact ⟨rfl, rfl, rfl⟩
  · exact ⟨rfl, rfl, rfl⟩

theorem same_admitPlanned :
    SamePrerequisites w (admitPlanned outcome (w.requeueAndPlanResume outcome) w) := by
  cases hplan : w.requeueAndPlanResume outcome with
  | none => exact .refl w
  | some pair =>
    obtain ⟨after, planned⟩ := pair
    have hsame := same_requeueAndPlanResume hplan
    cases planned with
    | true => exact hsame.trans same_admitResumes
    | false => exact hsame

theorem same_releaseParked : SamePrerequisites w (w.releaseParked now outcome) := by
  have hrecorded : SamePrerequisites w { w.recordRelease now with tagged := false } :=
    ⟨rfl, rfl, rfl⟩
  refine hrecorded.trans ?_
  rw [releaseParked.eq_def]
  dsimp only
  split
  · rename_i after hplan
    have hsame : SamePrerequisites { w.recordRelease now with tagged := false } after := by
      split at hplan
      · exact same_requeueAndPlanResume hplan
      · cases hplan
        exact .refl _
    split
    · exact hsame
    · cases hrequeue : after.requeueStage outcome with
      | none => exact hsame
      | some requeued => exact hsame.trans (same_requeueStage hrequeue)
  · split
    · exact same_admitPlanned
    · exact .refl _

theorem same_releaseTickets : SamePrerequisites w (w.releaseTickets now outcome) := by
  rw [releaseTickets.eq_def]
  split
  · exact .refl w
  · dsimp only
    have hdone : SamePrerequisites w { w with selected := false } := ⟨rfl, rfl, rfl⟩
    split
    · exact hdone.trans same_releaseParked
    · split
      · have hrecorded : SamePrerequisites w
            (recordRelease { w with selected := false } now) := ⟨rfl, rfl, rfl⟩
        exact hrecorded.trans same_admitPlanned
      · exact hdone

/-- Whether an event writes an edge, a prerequisite's state or an override. -/
def touches : Event → Bool
  | .addEdge _ => true
  | .dropEdge _ => true
  | .land _ _ => true
  | .overridePrerequisites => true
  | _ => false

theorem same_act {e : Event} (he : touches e = false) : SamePrerequisites w (w.act now e) := by
  have hif : ∀ {p : Prop} [Decidable p] {a b : World}, SamePrerequisites w a →
      SamePrerequisites w b → SamePrerequisites w (if p then a else b) := by
    intro p _ a b ha hb
    split
    · exact ha
    · exact hb
  cases e with
  | hold | startDrive driver | move state => exact hif (.refl w) ⟨rfl, rfl, rfl⟩
  | run | selectReleasable => exact ⟨rfl, rfl, rfl⟩
  | endDrive status | requestCancel => exact hif ⟨rfl, rfl, rfl⟩ (.refl w)
  | laneStarts =>
    have hdrive : SamePrerequisites w (w.startDrive .builtinAutopilot) :=
      hif (.refl w) ⟨rfl, rfl, rfl⟩
    exact hif ⟨hdrive.edges, hdrive.landed, hdrive.overrides⟩ (.refl w)
  | addEdge dependsOn | dropEdge dependsOn | land ticket landed | overridePrerequisites => cases he
  | markParkedWaits => exact hif (hif ⟨rfl, rfl, rfl⟩ (.refl w)) ⟨rfl, rfl, rfl⟩
  | releaseTickets outcome => exact same_releaseTickets

end Frame

/-! ## One event -/

section Step

variable {w w' : World} {edge : Edge} {ticket : TicketId}

theorem SamePrerequisites.passedOver (h : SamePrerequisites w w') :
    w'.passedOver edge = w.passedOver edge := by
  simp only [World.passedOver, World.overridden, World.overridesSince, h.overrides]

theorem SamePrerequisites.unmet (h : SamePrerequisites w w') :
    w'.unmetPrerequisites = w.unmetPrerequisites := by
  simp only [unmetPrerequisites, h.edges, h.landed]

section

variable (h : Covering w)
include h

theorem Covering.of_same (hsame : SamePrerequisites w w')
    (hclock : w.clock ≤ w'.clock) : Covering w' where
  distinct := by
    rw [hsame.edges]
    exact h.distinct
  edgesLe edge hmem := Nat.le_trans (h.edgesLe edge (hsame.edges ▸ hmem)) hclock
  overridesLe made hmem := Nat.le_trans (h.overridesLe made (hsame.overrides ▸ hmem)) hclock
  latest := by
    rw [hsame.overrides]
    exact h.latest
  unmet := by
    rw [hsame.unmet]
    intro edge hmem
    rw [hsame.passedOver]
    exact h.unmet edge hmem

theorem Covering.passedOver_fresh (hfresh : w.clock < edge.createdAt) :
    w.passedOver edge = false := by
  have hnone : w.overridesSince edge = [] := by
    refine filter_eq_nil_iff.mpr ?_
    intro made hmem hsince
    have hle : edge.createdAt ≤ w.clock := by
      have hsince : edge.createdAt ≤ made.createdAt := by simpa using hsince
      exact Nat.le_trans hsince (h.overridesLe made hmem)
    exact absurd hfresh (Nat.not_lt_of_le hle)
  simp [passedOver, hnone]

theorem Covering.addEdge (hnew : ∀ edge ∈ w.edges, edge.dependsOn ≠ ticket) :
    Covering { w with edges := w.edges ++ [⟨ticket, w.clock + 1⟩], clock := w.clock + 1 } where
  distinct edge hmem other hother hsame := by
    rcases mem_append.mp hmem with hmem | hmem
    · rcases mem_append.mp hother with hother | hother
      · exact h.distinct edge hmem other hother hsame
      · obtain rfl := mem_singleton.mp hother
        exact absurd hsame (hnew edge hmem)
    · obtain rfl := mem_singleton.mp hmem
      rcases mem_append.mp hother with hother | hother
      · exact absurd hsame.symm (hnew other hother)
      · exact (mem_singleton.mp hother).symm
  edgesLe edge hmem := by
    rcases mem_append.mp hmem with hmem | hmem
    · exact le_succ_of_le (h.edgesLe edge hmem)
    · obtain rfl := mem_singleton.mp hmem
      exact Nat.le_refl _
  overridesLe made hmem := le_succ_of_le (h.overridesLe made hmem)
  latest := h.latest
  unmet edge hmem := by
    obtain ⟨hmem, hopen⟩ := mem_unmetPrerequisites.mp hmem
    rcases mem_append.mp hmem with hmem | hmem
    · exact h.unmet edge (mem_unmetPrerequisites.mpr ⟨hmem, hopen⟩)
    · obtain rfl := mem_singleton.mp hmem
      exact h.passedOver_fresh (lt_succ_self _)

theorem Covering.dropEdge : Covering { w with
      edges := w.edges.filter (fun edge => edge.dependsOn ≠ ticket), clock := w.clock + 1 } where
  distinct edge hmem other hother hsame :=
    h.distinct edge (mem_filter.mp hmem).1 other (mem_filter.mp hother).1 hsame
  edgesLe edge hmem := le_succ_of_le (h.edgesLe edge (mem_filter.mp hmem).1)
  overridesLe made hmem := le_succ_of_le (h.overridesLe made hmem)
  latest := h.latest
  unmet edge hmem := by
    obtain ⟨hmem, hopen⟩ := mem_unmetPrerequisites.mp hmem
    exact h.unmet edge (mem_unmetPrerequisites.mpr ⟨(mem_filter.mp hmem).1, hopen⟩)

/-- **An override**: it records what the merged test holds, so every unmet
    prerequisite is released by it or was released before. -/
theorem Covering.override : Covering { w with
      overrides := w.overrides ++ [⟨w.clock + 1, w.holdingPrerequisites⟩]
      clock := w.clock + 1 } where
  distinct := h.distinct
  edgesLe edge hmem := le_succ_of_le (h.edgesLe edge hmem)
  overridesLe made hmem := by
    rcases mem_append.mp hmem with hmem | hmem
    · exact le_succ_of_le (h.overridesLe made hmem)
    · obtain rfl := mem_singleton.mp hmem
      exact Nat.le_refl _
  latest latest hlatest made hmem := by
    obtain rfl : (⟨w.clock + 1, w.holdingPrerequisites⟩ : Override) = latest := by
      simpa using hlatest
    rcases mem_append.mp hmem with hmem | hmem
    · exact le_succ_of_le (h.overridesLe made hmem)
    · obtain rfl := mem_singleton.mp hmem
      exact Nat.le_refl _
  unmet edge hmem := by
    have hle := h.edgesLe edge (mem_unmetPrerequisites.mp hmem).1
    have hsaw : ∃ made ∈ w.overrides ++ [⟨w.clock + 1, w.holdingPrerequisites⟩],
        edge.dependsOn ∈ made.prerequisites ∧ edge.createdAt ≤ made.createdAt := by
      by_cases hheld : edge.dependsOn ∈ w.holdingPrerequisites
      · exact ⟨_, mem_append_right _ (mem_singleton.mpr rfl), hheld, le_succ_of_le hle⟩
      · obtain ⟨made, hmade, hrecorded⟩ := (h.releases edge hmem).mp hheld
        exact ⟨made, mem_append_left _ hmade, hrecorded⟩
    by_contra hpassed
    exact not_saw_of_passedOver (by simpa using hpassed) hsaw

theorem Covering.land {landed : Bool} (hkept : Kept w (.land ticket landed) = true) :
    Covering { w with
      landed := Function.update w.landed ticket landed, clock := w.clock + 1 } where
  distinct := h.distinct
  edgesLe edge hmem := le_succ_of_le (h.edgesLe edge hmem)
  overridesLe made hmem := le_succ_of_le (h.overridesLe made hmem)
  latest := h.latest
  unmet edge hmem := by
    obtain ⟨hmem, hopen⟩ := mem_unmetPrerequisites.mp hmem
    by_cases hticket : edge.dependsOn = ticket
    · obtain rfl : landed = false := by simpa [hticket] using hopen
      have hall := all_eq_true.mp hkept edge hmem
      show w.passedOver edge = false
      simpa [hticket] using hall
    · refine h.unmet edge (mem_unmetPrerequisites.mpr ⟨hmem, ?_⟩)
      simpa [Function.update_of_ne hticket] using hopen

/-- **One event of a kept run.** -/
theorem Covering.step {e : Event} (hkept : Kept w e = true) : Covering (w.after e) := by
  have hidle : Covering { w with clock := w.clock + 1 } := h.of_same ⟨rfl, rfl, rfl⟩ (le_succ _)
  cases htouches : touches e with
  | false =>
    have hsame : SamePrerequisites w (w.act (w.clock + 1) e) := same_act htouches
    exact h.of_same ⟨hsame.edges, hsame.landed, hsame.overrides⟩ (le_succ _)
  | true =>
    cases e with
    | addEdge dependsOn =>
      show Covering { (if _ then _ else _ : World) with clock := w.clock + 1 }
      split
      · exact hidle
      · rename_i hnew
        exact h.addEdge (by simpa using hnew)
    | dropEdge dependsOn => exact h.dropEdge
    | land ticket landed => exact h.land hkept
    | overridePrerequisites =>
      show Covering { (if _ then _ else _ : World) with clock := w.clock + 1 }
      split
      · exact hidle
      · exact h.override
    | _ => cases htouches

omit h in
theorem Covering.start (landed : TicketId → Bool) : Covering { landed := landed } where
  distinct _ hmem := nomatch hmem
  edgesLe _ hmem := nomatch hmem
  overridesLe _ hmem := nomatch hmem
  latest _ hlatest := nomatch hlatest
  unmet _ hmem := nomatch hmem

theorem Covering.breaks {e : Event} (hkept : Kept w e = false) :
    ¬ ReleasesWhatItSaw (w.after e) := by
  cases e with
  | land ticket landed =>
    cases landed with
    | true => cases hkept
    | false =>
      obtain ⟨edge, hmem, hbad⟩ := all_eq_false.mp hkept
      obtain ⟨rfl, hpassed⟩ : edge.dependsOn = ticket ∧ w.passedOver edge = true := by
        simpa using hbad
      intro hreleases
      have hunmet : edge ∈ (w.after (.land edge.dependsOn false)).unmetPrerequisites := by
        refine mem_unmetPrerequisites.mpr ⟨hmem, ?_⟩
        exact Function.update_self ..
      have hnot := mt (hreleases edge hunmet).mp (not_saw_of_passedOver hpassed)
      have hpast : w.startedPast edge = true := h.startedPast_iff.mpr (.inr hpassed)
      -- only the edge itself can hold the ticket on its prerequisite
      obtain ⟨other, hother, hheld, hsame⟩ := mem_holdingPrerequisites.mp (not_not.mp hnot)
      obtain rfl := h.distinct other (mem_unmetPrerequisites.mp hother).1 edge hmem hsame
      exact absurd (hpast.symm.trans hheld) (by simp)
  | _ => cases hkept

end

end Step

/-- **Overrides release exactly what they saw**, for as long as no prerequisite
    that was passed over is reopened, and no longer. -/
theorem releases_what_it_saw_while_kept {landed : TicketId → Bool} {tr : List Event} {w : World}
    (hr : Run (Guarded Step fun w e => Kept w e = true) { landed := landed } tr w) :
    ReleasesWhatItSaw w ∧ ∀ e : Event, ReleasesWhatItSaw (w.after e) ↔ Kept w e = true := by
  have hcovering : Covering w := by
    refine hr.invariant ?_ (Covering.start landed)
    rintro s e t hs ⟨hkept, rfl⟩
    exact hs.step hkept
  refine ⟨hcovering.releases, ?_⟩
  intro e
  constructor
  · intro hreleases
    by_contra hkept
    exact hcovering.breaks (by simpa using hkept) hreleases
  · intro hkept
    exact (hcovering.step hkept).releases

/-- A prerequisite is overridden, linked again, overridden again and reopened. -/
def keptHistory : List Event :=
  [.addEdge 7, .overridePrerequisites, .dropEdge 7, .addEdge 7, .addEdge 8,
    .overridePrerequisites, .land 7 true, .land 7 false]

theorem keptHistory_releases :
    (keptHistory.foldl World.after { landed := fun _ => false }).overrides.map
      Override.prerequisites = [[7], [7, 8]] ∧
    ReleasesWhatItSaw (keptHistory.foldl World.after { landed := fun _ => false }) :=
  ⟨by decide +kernel, (releases_what_it_saw_while_kept (Run.of_meets (fun _ _ hkept => ⟨hkept, rfl⟩)
      (by decide +kernel : meets World.after Kept { landed := fun _ => false } keptHistory
        = true))).1⟩

/-- Linked again, the prerequisite is done while the next one is overridden. -/
def reopened : List Event :=
  [.addEdge 7, .overridePrerequisites, .dropEdge 7, .addEdge 7, .land 7 true, .addEdge 8,
    .overridePrerequisites, .land 7 false]

/-- **No override saw the edge, and it does not hold.** -/
theorem reopened_starts_anyway : ¬ ∀ (landed : TicketId → Bool) (tr : List Event) (w : World),
    Run Step { landed := landed } tr w → ReleasesWhatItSaw w := by
  intro h
  have hreleases := h (fun _ => false) reopened _ (Run.of_foldl (fun _ _ => rfl) _ _)
  have hseven := (hreleases ⟨7, 4⟩ (by decide +kernel)).mp (by decide +kernel)
  revert hseven
  decide +kernel

end Loregarden.DependencyRelease

