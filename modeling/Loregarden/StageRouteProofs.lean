import Loregarden.StageGroupProofs

/-! # Where a route leaves the cursor and the stages

    A passing route walks on past the stages its ticket skips, and the last hop of the walk says
    whether the route leads back. A reject goes where the agent, the template or the fallback
    sends it, and resets the span it goes back over.

    * `WalksOver.walked`: what the walk passes over, and the hop it ends with;
    * `pass_settles_iff`: when a passing route settles what it leaves;
    * `reject_moves_back_iff`: when a reject moves back. -/

namespace Loregarden.Stages

open List Option Nat

variable {stages : List WorkflowStageDef} {transitions : List Transition} {ticket : Ticket}
  {m m' : StageMap} {r : RouteRequest} {plan : StageRoutePlan} {key fromKey toKey branchTo : String}

/-! ## A reject -/

section

variable (hkeys : (stages.map (·.key)).Nodup)
include hkeys

omit hkeys in
theorem isUpstreamRoute_iff : isUpstreamRoute stages fromKey toKey = true ↔
    ∃ i j, stageIndex stages fromKey = some i ∧ stageIndex stages toKey = some j ∧ j < i := by
  rw [isUpstreamRoute]
  cases stageIndex stages fromKey <;> cases stageIndex stages toKey <;> simp

/-- The cursor is not ahead of the stage, and the span from the one to the other is pending. -/
def MovesBack (stages : List WorkflowStageDef) (m m' : StageMap) (fromKey toKey : String) : Prop :=
  ∃ j i, stageIndex stages toKey = some j ∧ stageIndex stages fromKey = some i ∧ j ≤ i ∧
    ∀ key p, stageIndex stages key = some p → m' key = if j ≤ p ∧ p ≤ i then .pending else m key

theorem resetUpstreamStages_apply {i j p : Nat} (hfrom : stageIndex stages fromKey = some i)
    (hto : stageIndex stages toKey = some j) (hle : j ≤ i) (hp : stageIndex stages key = some p) :
    resetUpstreamStages m stages fromKey toKey key =
      if j ≤ p ∧ p ≤ i then .pending else m key := by
  rw [resetUpstreamStages, hfrom, hto]
  dsimp only
  rw [if_neg (Nat.not_lt_of_le hle)]
  refine if_congr ?_ rfl rfl
  rw [mem_slice hkeys]
  constructor
  · rintro ⟨q, hq, hjq, hqi⟩
    cases hp.symm.trans hq
    exact ⟨hjq, le_of_lt_succ hqi⟩
  · rintro ⟨hjp, hpi⟩
    exact ⟨p, hp, hjp, lt_succ_of_le hpi⟩

theorem movesBack_reset_iff (hfrom : fromKey ∈ stages.map (·.key)) :
    MovesBack stages m (resetUpstreamStages m stages fromKey toKey) fromKey toKey ↔
      toKey ∈ stages.map (·.key) ∧ routesForward stages fromKey toKey = false := by
  obtain ⟨i, hi⟩ := exists_stageIndex hfrom
  constructor
  · rintro ⟨j, i', hj, hi', hle, -⟩
    refine ⟨mem_of_stageIndex hj, ?_⟩
    cases hi.symm.trans hi'
    rw [routesForward, hi, hj]
    exact decide_eq_false (Nat.not_lt_of_le hle)
  · rintro ⟨hto, hnot⟩
    obtain ⟨j, hj⟩ := exists_stageIndex hto
    rw [routesForward, hi, hj] at hnot
    have hle : j ≤ i := Nat.le_of_not_lt (of_decide_eq_false hnot)
    exact ⟨j, i, hj, hi, hle, fun key p hp => resetUpstreamStages_apply hkeys hi hj hle hp⟩

/-- The agent names a stage it may send the work back to. -/
def NamesStage (stages : List WorkflowStageDef) (r : RouteRequest) : Prop :=
  r.nextStageKey ≠ "" ∧ r.nextStageKey ∈ stages.map (·.key) ∧
    routesForward stages r.fromKey r.nextStageKey = false

/-- The agent names such a stage, or a template route for rejects goes to one. -/
def RejectsBack (stages : List WorkflowStageDef) (transitions : List Transition)
    (r : RouteRequest) : Prop :=
  NamesStage stages r ∨
    ∀ target, resolveTransitionTarget transitions r.fromKey "reject" = some target →
      target.1 ∈ stages.map (·.key) ∧ routesForward stages r.fromKey target.1 = false

omit hkeys in
theorem validateRouteTarget_ok {misroute : String} (h : validateRouteTarget stages r = .ok misroute)
    (hnext : r.nextStageKey ≠ "") (hout : r.outcome = "reject") :
    misroute = "" ↔ NamesStage stages r := by
  rw [validateRouteTarget] at h
  rw [NamesStage, and_iff_right hnext]
  by_cases hmem : r.nextStageKey ∈ stages.map (·.key)
  · by_cases hahead : routesForward stages r.fromKey r.nextStageKey = true
    · rw [if_neg (not_not.mpr hmem), if_neg (not_not.mpr hout), if_pos hahead] at h
      split at h
      · cases h
      · cases h
        have htext : s!"Rework stage '{r.nextStageKey}' must not come after stage '{r.fromKey}'"
            ≠ "" := by
          intro hempty
          rw [String.append_eq_empty_iff] at hempty
          exact absurd hempty.2 (by decide)
        refine iff_of_false htext fun hok => ?_
        rw [hahead] at hok
        cases hok.2
    · rw [if_neg (not_not.mpr hmem), if_neg (not_not.mpr hout), if_neg hahead] at h
      cases h
      exact ⟨fun _ => ⟨hmem, Bool.not_eq_true _ ▸ hahead⟩, fun _ => rfl⟩
  · rw [if_pos hmem] at h
    split at h
    · cases h
    · cases h
      have htext : s!"Unknown target stage '{r.nextStageKey}'" ≠ "" := by
        intro hempty
        rw [String.append_eq_empty_iff] at hempty
        exact absurd hempty.2 (by decide)
      exact iff_of_false htext fun hok => hmem hok.1

/-! ## Where a request goes -/

def fallbackPlan (stages : List WorkflowStageDef) (r : RouteRequest) : Option StageRoutePlan :=
  if r.outcome = "reject" then
    ((rejectFallbackKey stages r.fromKey r.nextAgent).filter (· ≠ "")).map fun key =>
      { fromKey := r.fromKey, toKey := key, outcome := r.outcome, upstream := true }
  else none

omit hkeys in
theorem routed_ok (h : routed stages transitions ticket r = .ok (plan, branchTo)) :
    ∃ next found, (next = r.nextStageKey ∧ (next ≠ "" → validateRouteTarget stages r = .ok "") ∨
        next = "" ∧ ∃ misroute, misroute ≠ "" ∧ validateRouteTarget stages r = .ok misroute) ∧
      branchTo = classifyBranchTarget stages ticket r.fromKey r.outcome next ∧
      resolveNextStageKey stages transitions r.fromKey r.outcome
        (if next ≠ "" then next else branchTo) = .ok found ∧
      (found <|> fallbackPlan stages r) = some plan := by
  rw [routed] at h
  simp only [bind, Except.bind, pure, Except.pure, throw, throwThe, MonadExceptOf.throw] at h
  split at h
  · cases h
  · split at h
    · split at h
      · cases h
      · rename_i misroute hvalid
        split at h
        · cases h
        · rename_i found hfound
          split at h
          · cases h
          · rename_i plan' hplan
            cases h
            refine ⟨_, found, ?_, rfl, hfound, hplan⟩
            by_cases hmisroute : misroute = ""
            · rw [if_neg (not_not.mpr hmisroute)]
              exact .inl ⟨rfl, fun _ => hmisroute ▸ hvalid⟩
            · rw [if_pos hmisroute]
              exact .inr ⟨rfl, misroute, hmisroute, hvalid⟩
    · rename_i hnext
      split at h
      · cases h
      · rename_i found hfound
        split at h
        · cases h
        · rename_i plan' hplan
          cases h
          exact ⟨r.nextStageKey, found, .inl ⟨rfl, fun hne => absurd hne hnext⟩, rfl, hfound, hplan⟩

omit hkeys in
/-- Where a reject goes: to the stage the agent names, else where the template routes it, else
    to the fallback. -/
theorem routed_reject (hout : r.outcome = "reject")
    (h : routed stages transitions ticket r = .ok (plan, branchTo)) :
    (NamesStage stages r ∧ plan.toKey = r.nextStageKey) ∨ ¬ NamesStage stages r ∧
      ((∃ target, resolveTransitionTarget transitions r.fromKey "reject" = some target ∧
          plan.toKey = target.1) ∨
        resolveTransitionTarget transitions r.fromKey "reject" = none ∧
          rejectFallbackKey stages r.fromKey r.nextAgent = some plan.toKey) := by
  obtain ⟨next, found, hnext, hbranch, hfound, hplan⟩ := routed_ok h
  have hbranch : branchTo = "" := by
    rw [hbranch, classifyBranchTarget, if_pos (.inl (by rw [hout]; decide))]
  have hnames : NamesStage stages r → next = r.nextStageKey := by
    intro hnames
    rcases hnext with ⟨heq, -⟩ | ⟨-, misroute, hne, hvalid⟩
    · exact heq
    · exact absurd ((validateRouteTarget_ok hvalid hnames.1 hout).mpr hnames) hne
  by_cases hempty : next = ""
  · rw [if_neg (not_not.mpr hempty), hbranch, resolveNextStageKey, if_pos rfl] at hfound
    cases hfound
    have hnot : ¬ NamesStage stages r := fun h => h.1 ((hnames h).symm.trans hempty)
    refine .inr ⟨hnot, ?_⟩
    rw [resolveNextStage, hout] at hplan
    cases htarget : resolveTransitionTarget transitions r.fromKey "reject" with
    | some target =>
      rw [htarget] at hplan
      cases hplan
      exact .inl ⟨target, rfl, rfl⟩
    | none =>
      rw [htarget] at hplan
      rw [if_pos rfl, fallbackPlan, if_pos hout, orElse_apply, orElse_none] at hplan
      obtain ⟨key, hkey, rfl⟩ := map_eq_some_iff.mp hplan
      exact .inr ⟨rfl, (filter_eq_some_iff.mp hkey).1⟩
  · rcases hnext with ⟨rfl, hvalid⟩ | ⟨heq, -⟩
    · rw [if_pos hempty, resolveNextStageKey, if_neg hempty] at hfound
      split at hfound
      · cases hfound
      · cases hfound
        cases hplan
        exact .inl ⟨(validateRouteTarget_ok (hvalid hempty) hempty hout).mp rfl, rfl⟩
    · exact absurd heq hempty

theorem rejectFallbackKey_back {nextAgent : String} (hfrom : fromKey ∈ stages.map (·.key))
    (h : rejectFallbackKey stages fromKey nextAgent = some toKey) :
    toKey ∈ stages.map (·.key) ∧ routesForward stages fromKey toKey = false := by
  obtain ⟨i, hi⟩ := exists_stageIndex hfrom
  rw [rejectFallbackKey] at h
  split at h
  · cases h
    refine ⟨hfrom, ?_⟩
    rw [routesForward, hi]
    exact decide_eq_false (lt_irrefl i)
  · rw [previousStageKey, hi] at h
    split at h
    · rename_i idx hidx
      cases hidx
      have hto := stageIndex_of_getElem? hkeys h
      refine ⟨mem_of_stageIndex hto, ?_⟩
      rw [routesForward, hi, hto]
      exact decide_eq_false (Nat.not_lt_of_le (Nat.le_succ idx))
    · cases h

end

/-- **A reject moves back**, exactly where the agent names a stage it may, or the template's
    route for rejects goes to one. -/
theorem reject_moves_back_iff (hkeys : (stages.map (·.key)).Nodup)
    (hfrom : r.fromKey ∈ stages.map (·.key)) (hout : r.outcome = "reject")
    (h : applyStageRoute stages transitions ticket m r = (m', .ok plan)) :
    MovesBack stages m m' r.fromKey plan.toKey ↔ RejectsBack stages transitions r := by
  rw [applyStageRoute] at h
  cases hrouted : routed stages transitions ticket r with
  | error reason =>
    rw [hrouted] at h
    cases h
  | ok p =>
    obtain ⟨first, branchTo⟩ := p
    have hwalk : advancePastSkipped stages transitions ticket first r.outcome = (first, []) := by
      rw [advancePastSkipped, if_pos (by rw [hout]; decide)]
    rw [hrouted] at h
    dsimp only at h
    rw [hwalk, if_pos (.inr hout)] at h
    cases h
    rw [movesBack_reset_iff hkeys hfrom, RejectsBack]
    rcases routed_reject hout hrouted with ⟨hnames, hto⟩ | ⟨hnot, ⟨target, htarget, hto⟩ |
      ⟨hnone, hfallback⟩⟩
    · rw [hto]
      exact iff_of_true hnames.2 (.inl hnames)
    · rw [hto, or_iff_right hnot]
      constructor
      · intro hback target' htarget'
        cases htarget.symm.trans htarget'
        exact hback
      · intro hall
        exact hall target htarget
    · refine iff_of_true (rejectFallbackKey_back hkeys hfrom hfallback) (.inr ?_)
      intro target htarget
      cases hnone.symm.trans htarget

/-- A review that sends the work back to the stage before it. -/
def reviewStages : List WorkflowStageDef :=
  [{ key := "implement", order := 1 }, { key := "review", order := 2 },
    { key := "publish", order := 3 }]

def rejectsTo (toKey : String) : List Transition :=
  [{ source := some "review", target := toKey, when_ := "reject" }]

def rejectedReview : RouteRequest where
  fromKey := "review"
  outcome := "reject"

theorem reject_moves_back_iff_review : MovesBack reviewStages (fun _ => .done)
      (applyStageRoute reviewStages (rejectsTo "implement") {} (fun _ => .done) rejectedReview).1
      "review" "implement" := by
  have hback : RejectsBack reviewStages (rejectsTo "implement") rejectedReview := by
    refine .inr fun target htarget => ?_
    have hto : resolveTransitionTarget (rejectsTo "implement") "review" "reject"
        = some ("implement", "") := by decide
    cases hto.symm.trans htarget
    decide
  have hroute : applyStageRoute reviewStages (rejectsTo "implement") {} (fun _ => .done)
        rejectedReview =
      ((applyStageRoute reviewStages (rejectsTo "implement") {} (fun _ => .done) rejectedReview).1,
        .ok ⟨"review", "implement", "reject", true, ""⟩) := Prod.ext rfl rfl
  exact (reject_moves_back_iff (by decide) (by decide) rfl hroute).mpr hback

/-- A template whose route for rejects goes ahead moves the cursor ahead, and resets nothing. -/
theorem reject_moves_ahead :
    ¬ ∀ (stages : List WorkflowStageDef) (transitions : List Transition) (ticket : Ticket)
      (m m' : StageMap) (r : RouteRequest) (plan : StageRoutePlan),
      (stages.map (·.key)).Nodup → r.fromKey ∈ stages.map (·.key) → r.outcome = "reject" →
        applyStageRoute stages transitions ticket m r = (m', .ok plan) →
          MovesBack stages m m' r.fromKey plan.toKey := by
  intro hall
  obtain ⟨j, i, hj, hi, hle, -⟩ := hall reviewStages (rejectsTo "publish") {} (fun _ => .done) _
    rejectedReview _ (by decide) (by decide) rfl rfl
  cases hj
  cases hi
  exact absurd hle (by decide)

/-- A walk from a plan: the stages it passes over, and the hop it ends with. -/
structure Walked (stages : List WorkflowStageDef) (transitions : List Transition) (ticket : Ticket)
    (plan : StageRoutePlan) (passed : List String) (landed : StageRoutePlan) : Prop where
  stays : passed = [] → landed = plan
  last : ∀ last, passed.getLast? = some last →
    resolveNextStage stages transitions last "pass" = some landed
  skips : ∀ key ∈ passed, ∃ target, stages.reverse.find? (·.key = key) = some target ∧
    shouldSkipStage ticket target stages = true ∧ isTerminalStage target = false

theorem WalksOver.walked {landed : StageRoutePlan} {passed : List String}
    (h : WalksOver stages transitions ticket plan landed passed) :
    Walked stages transitions ticket plan passed landed := by
  induction h with
  | start => exact ⟨fun _ => rfl, fun _ h => (by cases h), fun _ h => (by cases h)⟩
  | hop _ hhop ih =>
    obtain ⟨target, htarget, hskip, hterminal, honward, -⟩ := hhop
    refine ⟨fun h => absurd h (by simp), fun last hlast => ?_, fun key hkey => ?_⟩
    · obtain rfl := some.inj (getLast?_concat.symm.trans hlast)
      exact honward
    · rcases mem_append.mp hkey with hkey | hkey
      · exact ih.skips key hkey
      · obtain rfl := mem_singleton.mp hkey
        exact ⟨target, htarget, hskip, hterminal⟩

theorem advancePastSkipped_spec (hpass : r.outcome = "pass") : Walked stages transitions ticket plan
      (advancePastSkipped stages transitions ticket plan r.outcome).2
      (advancePastSkipped stages transitions ticket plan r.outcome).1 := by
  have hwalk := walk_iff.mp (Eq.refl (advancePastSkipped stages transitions ticket plan r.outcome))
  rw [Walk, if_pos hpass] at hwalk
  exact hwalk.1.walked

/-! ## A passing route -/

/-- Behind a passing route: its stage and those passed over are settled, none of these ends the
    workflow, and all others stand as they did, but for what a branch jumped over. -/
def PassSettles (stages : List WorkflowStageDef) (transitions : List Transition) (ticket : Ticket)
    (m m' : StageMap) (r : RouteRequest) : Prop :=
  ∃ first branchTo, routed stages transitions ticket r = .ok (first, branchTo) ∧
    let walk := advancePastSkipped stages transitions ticket first r.outcome
    (m' r.fromKey = .done ∨ m' r.fromKey = .wontDo) ∧ (∀ key ∈ walk.2, m' key = .wontDo) ∧
      (∀ stage ∈ stages, stage.key ∈ walk.2 → isTerminalStage stage = false) ∧
      ∀ key ∈ stages.map (·.key), key ≠ r.fromKey → key ∉ walk.2 →
        m' key = if branchTo ≠ "" ∧ key ∈ between stages r.fromKey walk.1.toKey ∧ m key = .pending
          then .wontDo else m key

/-- The last stage passed over has a route of its own that leads back. -/
def TurnsBack (stages : List WorkflowStageDef) (transitions : List Transition) (ticket : Ticket)
    (r : RouteRequest) : Prop :=
  ∃ first branchTo last, routed stages transitions ticket r = .ok (first, branchTo) ∧
    (advancePastSkipped stages transitions ticket first r.outcome).2.getLast? = some last ∧
    (resolveNextStage stages transitions last "pass").any (·.upstream) = true

/-- The route leaves its stage, and nothing of what it leaves is unsettled. -/
def AlreadySettled (stages : List WorkflowStageDef) (transitions : List Transition)
    (ticket : Ticket) (m : StageMap) (r : RouteRequest) : Prop :=
  ∃ first branchTo, routed stages transitions ticket r = .ok (first, branchTo) ∧
    let walk := advancePastSkipped stages transitions ticket first r.outcome
    walk.1.toKey ≠ r.fromKey ∧ (m r.fromKey = .done ∨ m r.fromKey = .wontDo) ∧
      (∀ key ∈ walk.2, m key = .wontDo) ∧
      (branchTo ≠ "" → ∀ key ∈ between stages r.fromKey walk.1.toKey, m key ≠ .pending)

theorem resolveTransitionTarget_ne {outcome : String} {target : String × String}
    (h : resolveTransitionTarget transitions key outcome = some target) : target.1 ≠ "" := by
  have hfilter : ∀ o : Option (String × String), o.filter (·.1 ≠ "") = some target →
      target.1 ≠ "" := fun o ho => of_decide_eq_true (filter_eq_some_iff.mp ho).2
  have hitem : ∀ item : Transition, (if item.target ≠ "" then some (item.target, item.agentId)
      else none) = some target → target.1 ≠ "" := by
    intro item hitem
    split at hitem
    · rename_i hne
      cases hitem
      exact hne
    · cases hitem
  rw [resolveTransitionTarget] at h
  split at h
  · cases h
  · split at h
    · exact hfilter _ h
    · split at h
      · rename_i routed hrouted
        cases h
        exact hfilter _ hrouted
      · split at h
        · split at h
          · rename_i hne
            cases h
            exact hne
          · split at h
            · exact hitem _ h
            · cases h
        · exact hitem _ h
        · cases h

theorem resolveNextStage_spec {outcome : String}
    (h : resolveNextStage stages transitions key outcome = some plan) :
    plan.toKey ≠ "" ∧ (plan.upstream = true → isUpstreamRoute stages key plan.toKey = true) := by
  rw [resolveNextStage] at h
  split at h
  · rename_i toKey agentId htarget
    cases h
    exact ⟨resolveTransitionTarget_ne htarget, id⟩
  · split at h
    · cases h
    · obtain ⟨linear, hlinear, rfl⟩ := map_eq_some_iff.mp h
      exact ⟨of_decide_eq_true (filter_eq_some_iff.mp hlinear).2, fun h => (by cases h)⟩

theorem routed_pass (hpass : r.outcome = "pass")
    (h : routed stages transitions ticket r = .ok (plan, branchTo)) :
    plan.toKey ≠ "" ∧
      (plan.upstream = true → isUpstreamRoute stages r.fromKey plan.toKey = true) := by
  obtain ⟨next, found, -, -, hfound, hplan⟩ := routed_ok h
  rw [fallbackPlan, if_neg (by rw [hpass]; decide)] at hplan
  have hplan : found = some plan := by
    cases found with
    | none => cases hplan
    | some p => exact hplan
  subst hplan
  generalize (if next ≠ "" then next else branchTo) = explicitTo at hfound
  rw [resolveNextStageKey] at hfound
  by_cases hempty : explicitTo = ""
  · rw [if_pos hempty] at hfound
    exact resolveNextStage_spec (Except.ok.inj hfound)
  · rw [if_neg hempty] at hfound
    split at hfound
    · cases hfound
    · cases hfound
      exact ⟨hempty, id⟩

theorem turnsBack_iff (hpass : r.outcome = "pass")
    (hrouted : routed stages transitions ticket r = .ok (plan, branchTo))
    (hnot : isUpstreamRoute stages r.fromKey
      (advancePastSkipped stages transitions ticket plan r.outcome).1.toKey = false) :
    (advancePastSkipped stages transitions ticket plan r.outcome).1.upstream = true ↔
      TurnsBack stages transitions ticket r := by
  have hwalked := @advancePastSkipped_spec stages transitions ticket r plan hpass
  constructor
  · intro hup
    cases hlast : (advancePastSkipped stages transitions ticket plan r.outcome).2.getLast? with
    | none =>
      have hstays := hwalked.stays (List.getLast?_eq_none_iff.mp hlast)
      rw [hstays] at hup hnot
      rw [(routed_pass hpass hrouted).2 hup] at hnot
      cases hnot
    | some last =>
      refine ⟨plan, branchTo, last, hrouted, hlast, ?_⟩
      rw [hwalked.last last hlast]
      exact hup
  · rintro ⟨plan', branchTo', last, hrouted', hlast, hup⟩
    cases hrouted.symm.trans hrouted'
    rw [hwalked.last last hlast] at hup
    exact hup

theorem Walked.not_terminal {passed : List String} {landed : StageRoutePlan}
    (h : Walked stages transitions ticket plan passed landed) (hkeys : (stages.map (·.key)).Nodup)
    {stage : WorkflowStageDef} (hstage : stage ∈ stages) (hmem : stage.key ∈ passed) :
    isTerminalStage stage = false := by
  obtain ⟨target, htarget, -, hterminal⟩ := h.skips stage.key hmem
  have htargets : target ∈ stages := mem_reverse.mp (mem_of_find?_eq_some htarget)
  have hkey : target.key = stage.key := by simpa using List.find?_some htarget
  rw [← inj_on_of_nodup_map hkeys htargets hstage hkey]
  exact hterminal

theorem mem_between (hkeys : (stages.map (·.key)).Nodup) (h : key ∈ between stages fromKey toKey) :
    key ∈ stages.map (·.key) ∧ key ≠ fromKey := by
  obtain ⟨i, p, -, hi, hp, -, hlt, -⟩ := (mem_between_iff hkeys).mp h
  refine ⟨mem_of_stageIndex hp, ?_⟩
  rintro rfl
  cases hi.symm.trans hp
  exact lt_irrefl i hlt

theorem passSettles_reset_iff {walk : StageRoutePlan × List String} {j : Nat}
    (hkeys : (stages.map (·.key)).Nodup) (hfrom : r.fromKey ∈ stages.map (·.key))
    (hpass : r.outcome = "pass")
    (hrouted : routed stages transitions ticket r = .ok (plan, branchTo))
    (hwalk : advancePastSkipped stages transitions ticket plan r.outcome = walk)
    (hj : stageIndex stages walk.1.toKey = some j)
    (hnot : isUpstreamRoute stages r.fromKey walk.1.toKey = false) :
    PassSettles stages transitions ticket m
        (resetUpstreamStages m stages r.fromKey walk.1.toKey) r ↔
      AlreadySettled stages transitions ticket m r := by
  obtain ⟨i, hi⟩ := exists_stageIndex hfrom
  have hle : i ≤ j := by
    rw [isUpstreamRoute, hi, hj] at hnot
    exact Nat.le_of_not_lt (of_decide_eq_false hnot)
  rcases lt_or_eq_of_le hle with hlt | rfl
  · have hreset : resetUpstreamStages m stages r.fromKey walk.1.toKey = m := by
      rw [resetUpstreamStages, hi, hj]
      exact if_pos hlt
    have hne : walk.1.toKey ≠ r.fromKey := by
      intro heq
      rw [heq, hi] at hj
      cases hj
      exact lt_irrefl _ hlt
    rw [hreset]
    constructor
    · rintro ⟨plan', branchTo', hrouted', hsettled, hpassed, -, hrest⟩
      refine ⟨plan', branchTo', hrouted', ?_, hsettled, hpassed, ?_⟩
      · cases hrouted.symm.trans hrouted'
        rw [hwalk]
        exact hne
      · intro hbranch key hkey hpending
        obtain ⟨hmem, hkeyne⟩ := mem_between hkeys hkey
        have hout : key ∉ (advancePastSkipped stages transitions ticket plan' r.outcome).2 := by
          intro hin
          rw [hpassed key hin] at hpending
          cases hpending
        have hdone := hrest key hmem hkeyne hout
        rw [if_pos ⟨hbranch, hkey, hpending⟩, hpending] at hdone
        cases hdone
    · rintro ⟨plan', branchTo', hrouted', -, hsettled, hpassed, hbetween⟩
      refine ⟨plan', branchTo', hrouted', hsettled, hpassed, ?_, ?_⟩
      · intro stage hstage hmem
        exact (advancePastSkipped_spec hpass).not_terminal hkeys hstage hmem
      · intro key _ _ _
        rw [if_neg fun hcond => hbetween hcond.1 key hcond.2.1 hcond.2.2]
  · have heq : walk.1.toKey = r.fromKey := stageIndex_inj hj hi
    constructor
    · rintro ⟨plan', branchTo', -, hsettled, -⟩
      have hpending := resetUpstreamStages_apply (m := m) hkeys hi hj (le_refl i) hi
      rw [if_pos ⟨le_refl i, le_refl i⟩] at hpending
      rw [hpending] at hsettled
      rcases hsettled with h | h <;> cases h
    · rintro ⟨plan', branchTo', hrouted', hne, -⟩
      cases hrouted.symm.trans hrouted'
      rw [hwalk] at hne
      exact absurd heq hne

theorem recordPassedOver_apply {passed : List String} (hto : toKey ≠ "") :
    recordPassedOver stages m passed (if branchTo ≠ "" then fromKey else "")
        (if branchTo ≠ "" then toKey else "") key =
      if key ∈ passed then .wontDo
      else if branchTo ≠ "" ∧ key ∈ between stages fromKey toKey ∧ m key = .pending then .wontDo
      else m key := by
  rw [recordPassedOver]
  by_cases hbranch : branchTo ≠ ""
  · rw [if_pos hbranch, if_pos hbranch, if_pos hto, skipIntermediateStages]
    by_cases hpassed : key ∈ passed
    · rw [if_pos hpassed, if_pos hpassed, if_neg fun h => StageStatus.noConfusion h.2]
    · rw [if_neg hpassed, if_neg hpassed]
      exact if_congr (and_iff_right hbranch).symm rfl rfl
  · rw [if_neg hbranch, if_neg hbranch, if_neg (not_not.mpr rfl)]
    exact if_congr Iff.rfl rfl (if_neg fun h => hbranch h.1).symm

/-- **A passing route settles what it leaves**, exactly where the stages it passes over do not
    turn it back, or all of it is settled already. -/
theorem pass_settles_iff (hkeys : (stages.map (·.key)).Nodup)
    (hfrom : r.fromKey ∈ stages.map (·.key)) (hpass : r.outcome = "pass")
    (h : applyStageRoute stages transitions ticket m r = (m', .ok plan))
    (hnot : isUpstreamRoute stages r.fromKey plan.toKey = false) :
    PassSettles stages transitions ticket m m' r ↔
      ¬ TurnsBack stages transitions ticket r ∨ AlreadySettled stages transitions ticket m r := by
  rw [applyStageRoute] at h
  cases hrouted : routed stages transitions ticket r with
  | error reason =>
    rw [hrouted] at h
    cases h
  | ok p =>
    obtain ⟨first, branchTo⟩ := p
    rw [hrouted] at h
    dsimp only at h
    have hwalked := @advancePastSkipped_spec stages transitions ticket r first hpass
    have hfirst := routed_pass hpass hrouted
    have hturns := fun hnot => @turnsBack_iff stages transitions ticket r first branchTo hpass
      hrouted hnot
    set walk := advancePastSkipped stages transitions ticket first r.outcome with hwalk
    have hreject : r.outcome ≠ "reject" := by
      rw [hpass]
      decide
    have hto : walk.1.toKey ≠ "" := by
      cases hlast : walk.2.getLast? with
      | none =>
        rw [hwalked.stays (List.getLast?_eq_none_iff.mp hlast)]
        exact hfirst.1
      | some last => exact (resolveNextStage_spec (hwalked.last last hlast)).1
    by_cases hup : walk.1.upstream = true
    · rw [if_pos (.inl hup)] at h
      cases h
      have hback : TurnsBack stages transitions ticket r := (hturns hnot).mp hup
      obtain ⟨j, hj⟩ : ∃ j, stageIndex stages walk.1.toKey = some j := by
        obtain ⟨_, _, last, hrouted', hlast, hlanded⟩ := hback
        cases hrouted.symm.trans hrouted'
        have hroute := (resolveNextStage_spec (hwalked.last last hlast)).2 hup
        obtain ⟨-, j, -, hj, -⟩ := isUpstreamRoute_iff.mp hroute
        exact ⟨j, hj⟩
      rw [passSettles_reset_iff hkeys hfrom hpass hrouted hwalk.symm hj hnot,
        or_iff_right (not_not.mpr hback)]
    · rw [if_neg (not_or.mpr ⟨hup, hreject⟩)] at h
      have hrecord : ∀ key, recordPassedOver stages m walk.2
          (if branchTo ≠ "" then r.fromKey else "") (if branchTo ≠ "" then walk.1.toKey else "")
            key = _ := fun key => recordPassedOver_apply hto
      generalize recordPassedOver stages m walk.2 (if branchTo ≠ "" then r.fromKey else "")
        (if branchTo ≠ "" then walk.1.toKey else "") = passed at h hrecord
      -- whatever the stage itself is, the others are as they were recorded
      have hother : (m' r.fromKey = .done ∨ m' r.fromKey = .wontDo) ∧ plan = walk.1 ∧
          (r.fromKey ∈ walk.2 → m' r.fromKey = .wontDo) ∧
          ∀ key, key ≠ r.fromKey → m' key = passed key := by
        rw [setStageStatus, if_pos hfrom] at h
        by_cases hwont : passed r.fromKey = .wontDo
        · rw [if_pos hwont] at h
          cases h
          exact ⟨.inr hwont, rfl, fun _ => hwont, fun _ _ => rfl⟩
        · rw [if_neg hwont] at h
          cases h
          refine ⟨.inl (Function.update_self ..), rfl, fun hin => ?_,
            fun key hne => Function.update_of_ne hne ..⟩
          exact absurd ((hrecord r.fromKey).trans (if_pos hin)) hwont
      obtain ⟨hsettled, rfl, hself, hother⟩ := hother
      refine iff_of_true ?_ (.inl fun hback => hup ((hturns hnot).mpr hback))
      refine ⟨first, branchTo, hrouted, hsettled, ?_, ?_, ?_⟩
      · intro key hkey
        by_cases heq : key = r.fromKey
        · subst heq
          exact hself hkey
        · rw [hother key heq, hrecord key]
          exact if_pos hkey
      · intro stage hstage hmem
        exact hwalked.not_terminal hkeys hstage hmem
      · intro key _ hne hout
        rw [hother key hne, hrecord key]
        exact if_neg hout

/-- An outline that a described ticket does not need stands last, and the draft it is for is in
    front of it. -/
def outlineStages : List WorkflowStageDef :=
  [{ key := "intake", order := 1 }, { key := "draft", order := 2 },
    { key := "outline", order := 3, skipWhen := "has_description" }]

/-- The intake goes to the outline, and the outline to some stage. -/
def outlineTo (toKey : String) : List Transition :=
  [{ source := some "intake", target := "outline", when_ := "pass" },
    { source := some "outline", target := toKey, when_ := "pass" }]

def described : Ticket where
  description := "what it is about"

def passedIntake : RouteRequest where
  fromKey := "intake"

theorem pass_settles_iff_plain : PassSettles outlineStages [] described (fun _ => .pending)
      (applyStageRoute outlineStages [] described (fun _ => .pending) passedIntake).1
      passedIntake := by
  have hroute : applyStageRoute outlineStages [] described (fun _ => .pending) passedIntake =
      ((applyStageRoute outlineStages [] described (fun _ => .pending) passedIntake).1,
        .ok ⟨"intake", "draft", "pass", false, ""⟩) := Prod.ext rfl (by decide +kernel)
  have hstays : ¬ TurnsBack outlineStages [] described passedIntake := by
    rintro ⟨first, branchTo, last, hrouted, hlast, -⟩
    have hdraft : routed outlineStages [] described passedIntake =
        .ok (⟨"intake", "draft", "pass", false, ""⟩, "") := by decide +kernel
    cases hdraft.symm.trans hrouted
    have hnone : (advancePastSkipped outlineStages [] described
        ⟨"intake", "draft", "pass", false, ""⟩ "pass").2.getLast? = none := by decide +kernel
    cases hnone.symm.trans hlast
  exact (pass_settles_iff (by decide) (by decide) rfl hroute (by decide +kernel)).mpr
    (.inl hstays)

/-- The outline leads back to the draft: nothing is settled, neither the intake nor the outline. -/
theorem pass_leaves_unsettled :
    ¬ ∀ (stages : List WorkflowStageDef) (transitions : List Transition) (ticket : Ticket)
      (m m' : StageMap) (r : RouteRequest) (plan : StageRoutePlan),
      (stages.map (·.key)).Nodup → r.fromKey ∈ stages.map (·.key) → r.outcome = "pass" →
        applyStageRoute stages transitions ticket m r = (m', .ok plan) →
          isUpstreamRoute stages r.fromKey plan.toKey = false →
            PassSettles stages transitions ticket m m' r := by
  intro hall
  have hroute : applyStageRoute outlineStages (outlineTo "draft") described (fun _ => .pending)
      passedIntake = ((applyStageRoute outlineStages (outlineTo "draft") described
        (fun _ => .pending) passedIntake).1, .ok ⟨"outline", "draft", "pass", true, ""⟩) :=
    Prod.ext rfl (by decide +kernel)
  obtain ⟨-, -, -, hsettled, -⟩ := hall outlineStages (outlineTo "draft") described
    (fun _ => .pending) _ passedIntake _ (by decide) (by decide) rfl hroute (by decide +kernel)
  have hpending : (applyStageRoute outlineStages (outlineTo "draft") described
      (fun _ => .pending) passedIntake).1 "intake" = .pending := by decide +kernel
  rcases hsettled with h | h
  · cases h
  · cases h

end Loregarden.Stages
