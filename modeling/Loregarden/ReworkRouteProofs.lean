import Loregarden.ReworkRouteModel
import Loregarden.StageRouteProofs

/-! # The rework loop is bounded where it lands

A round is counted under the stage `Settlement.ledgerKey` predicts, and the ticket goes where
`Settlement.route` says. Where the two agree (`ledgerKey_of_route`) the ledger of a stage bounds the
rounds that land on it (`landed_le`), and its agent reads each of them in full
(`feedbackLines_shows`).

They do not agree everywhere: a run that names no stage of the template is counted under the
fallback of its own stage, whatever reject route the template has. -/

namespace Loregarden.Rework

open Text Ranked List Option Bool
open Stages (WorkflowStageDef Transition RouteRequest pyStrip transitionWhen previousStageKey
  routesForward rejectFallbackKey resolveTransitionTarget NamesStage)

variable {stages : List WorkflowStageDef} {transitions : List Transition} {times : Nat → Int}
  {ledger : Ledger} {k target : String}
variable {dest : String} {s : Settlement} {row : Artifact}

/-- Whether a reject may name the stage: it is one, and not one ahead. -/
def validTarget (stages : List WorkflowStageDef) (fromKey nextStageKey : String) : Bool :=
  nextStageKey ∈ stages.map (·.key) && !routesForward stages fromKey nextStageKey

/-- The agent named a stage it may send work back to, or none; and where a run that named
    none of the template's is at a stage with a reject route, that is the fallback too. -/
def Settlement.keyed (stages : List WorkflowStageDef) (transitions : List Transition) :
    Settlement → Bool
  | .single fromKey named agent _ _ =>
    if named ≠ "" ∧ named ∈ stages.map (·.key) then !routesForward stages fromKey named
    else (rejectTransition transitions fromKey).all fun route =>
      (rejectFallbackKey stages fromKey agent).getD "" = route.1
  | .parallel fromKey results _ _ =>
    agentToKey results = "" || validTarget stages fromKey (agentToKey results)

theorem rejectTransition_eq (fromKey : String) :
    rejectTransition transitions fromKey =
      ((transitions.find? fun t => t.source = some fromKey ∧ transitionWhen t = "reject").map
        fun t => (t.target, t.agentId)).filter fun route => route.1 ≠ "" := by
  have hfind : transitions.find? (fun t => t.source = some fromKey ∧ transitionWhen t = "reject") =
      (transitions.filter fun t => t.source = some fromKey).find? fun t =>
        transitionWhen t = "reject" := by
    simp only [find?_filter, decide_eq_true_eq]
  rw [hfind, rejectTransition, resolveTransitionTarget]
  split
  · rename_i hnone
    rw [hnone]
    rfl
  · rw [if_pos rfl, Stages.pick, findSome?_cons]
    cases find? _ _ <;> rfl

theorem rejectTransition_ne {fromKey : String} {route : String × String}
    (h : rejectTransition transitions fromKey = some route) : route.1 ≠ "" := by
  rw [rejectTransition_eq] at h
  exact of_decide_eq_true (filter_eq_some_iff.mp h).2

/-- Where a reject goes that names no stage, or one it is refused. -/
theorem unnamed_toKey {r : RouteRequest} (hout : r.outcome = "reject") :
    (Stages.resolveNextStage stages transitions r.fromKey r.outcome <|>
        Stages.fallbackPlan stages r).map (·.toKey) =
      match rejectTransition transitions r.fromKey with
      | some route => some route.1
      | none => (rejectFallbackKey stages r.fromKey r.nextAgent).filter fun key => key ≠ "" := by
  rw [Stages.resolveNextStage, Stages.fallbackPlan, hout, ← rejectTransition]
  cases rejectTransition transitions r.fromKey with
  | some route => rfl
  | none =>
    rw [if_pos rfl, if_pos rfl]
    cases (rejectFallbackKey stages r.fromKey r.nextAgent).filter fun key => key ≠ "" <;> rfl

/-- Where a reject goes: to the stage it names, else where the template routes it, else to the
    fallback. -/
theorem routed_reject_eq {r : RouteRequest} (hout : r.outcome = "reject")
    (hlax : r.strict = false) :
    (Stages.routed stages transitions {} r).toOption.map (fun route => route.1.toKey) =
      if r.nextStageKey ≠ "" ∧ validTarget stages r.fromKey r.nextStageKey = true then
        some r.nextStageKey
      else match rejectTransition transitions r.fromKey with
        | some route => some route.1
        | none => (rejectFallbackKey stages r.fromKey r.nextAgent).filter fun key => key ≠ "" := by
  have hbranch : Stages.classifyBranchTarget stages {} r.fromKey r.outcome = fun _ => "" := by
    funext next
    rw [hout]
    rfl
  have hvalid : ∀ misroute, Stages.validateRouteTarget stages r = .ok misroute →
      r.nextStageKey ≠ "" →
        (misroute = "" ↔ validTarget stages r.fromKey r.nextStageKey = true) := by
    intro misroute hok hne
    rw [Stages.validateRouteTarget_ok hok hne hout, NamesStage, validTarget, and_eq_true]
    simp [hne]
  have hlax' : ¬ (r.strict = true ∧ r.fromKey ∉ stages.map (·.key)) := by simp [hlax]
  have hfallback : (if r.outcome = "reject" then
      ((rejectFallbackKey stages r.fromKey r.nextAgent).filter (· ≠ "")).map fun key =>
        ({ fromKey := r.fromKey, toKey := key, outcome := r.outcome, upstream := true } :
          Stages.StageRoutePlan)
      else none) = Stages.fallbackPlan stages r := rfl
  rw [Stages.routed, if_neg hlax']
  simp only [bind, Except.bind, pure, Except.pure, throw, throwThe, MonadExceptOf.throw, hbranch,
    hfallback]
  by_cases hnext : r.nextStageKey = ""
  · have hnot : ¬ (r.nextStageKey ≠ "" ∧ validTarget stages r.fromKey r.nextStageKey = true) :=
      fun h => h.1 hnext
    rw [if_neg (not_not.mpr hnext), if_neg hnot, ← unnamed_toKey hout]
    simp only [hnext, Stages.resolveNextStageKey, ite_self, if_pos]
    cases Stages.resolveNextStage stages transitions r.fromKey r.outcome <|>
      Stages.fallbackPlan stages r <;> rfl
  · obtain ⟨misroute, hok⟩ : ∃ misroute, Stages.validateRouteTarget stages r = .ok misroute := by
      rw [Stages.validateRouteTarget]
      exact ⟨_, if_neg fun h => by simp [hlax] at h⟩
    rw [if_pos hnext, hok]
    by_cases htarget : validTarget stages r.fromKey r.nextStageKey = true
    · obtain rfl := (hvalid _ hok hnext).mpr htarget
      rw [if_pos ⟨hnext, htarget⟩]
      simp only [Stages.resolveNextStageKey, ne_eq, not_true_eq_false, if_false, hnext,
        not_false_eq_true, if_true]
      have hmem : r.nextStageKey ∈ stages.map (·.key) :=
        of_decide_eq_true (and_eq_true_iff.mp htarget).1
      rw [if_neg (not_not.mpr hmem)]
      rfl
    · have hrefused : misroute ≠ "" := fun h => htarget ((hvalid _ hok hnext).mp h)
      rw [if_neg fun h => htarget h.2, ← unnamed_toKey hout]
      simp only [hrefused, Stages.resolveNextStageKey, ne_eq, not_false_eq_true, if_true,
        not_true_eq_false, if_false]
      cases Stages.resolveNextStage stages transitions r.fromKey r.outcome <|>
        Stages.fallbackPlan stages r <;> rfl

theorem applyStageRoute_eq (fromKey named agent : String) :
    applyStageRoute stages transitions fromKey named agent =
      (if named ≠ "" ∧ validTarget stages fromKey named = true then some named
        else match rejectTransition transitions fromKey with
          | some route => some route.1
          | none => (rejectFallbackKey stages fromKey agent).filter fun key => key ≠ "").filter
        fun key => pyStrip agent = "" || key ∈ stages.map (·.key) ||
          fromKey ∈ stages.map (·.key) :=
  congrArg (Option.filter _) (routed_reject_eq rfl rfl)

theorem applyStageRoute_cases {fromKey named agent : String}
    (h : applyStageRoute stages transitions fromKey named agent = some dest) :
    dest ≠ "" ∧ ((named ≠ "" ∧ validTarget stages fromKey named = true ∧ dest = named) ∨
      (¬ (named ≠ "" ∧ validTarget stages fromKey named = true) ∧
        ((∃ route, rejectTransition transitions fromKey = some route ∧ dest = route.1) ∨
          rejectTransition transitions fromKey = none ∧
            rejectFallbackKey stages fromKey agent = some dest))) := by
  rw [applyStageRoute_eq] at h
  obtain ⟨hto, -⟩ := filter_eq_some_iff.mp h
  by_cases hnamed : named ≠ "" ∧ validTarget stages fromKey named = true
  · rw [if_pos hnamed] at hto
    obtain rfl := some_inj.mp hto
    exact ⟨hnamed.1, .inl ⟨hnamed.1, hnamed.2, rfl⟩⟩
  · rw [if_neg hnamed] at hto
    cases hroute : rejectTransition transitions fromKey with
    | some route =>
      rw [hroute] at hto
      obtain rfl := some_inj.mp hto
      exact ⟨rejectTransition_ne hroute, .inr ⟨hnamed, .inl ⟨route, rfl, rfl⟩⟩⟩
    | none =>
      rw [hroute] at hto
      obtain ⟨hfallback, hne⟩ := filter_eq_some_iff.mp hto
      exact ⟨of_decide_eq_true hne, .inr ⟨hnamed, .inr ⟨rfl, hfallback⟩⟩⟩

theorem rejectFallbackKey_no_agent (fromKey : String) :
    rejectFallbackKey stages fromKey "" = previousStageKey stages fromKey := by
  have hblank : pyStrip "" = "" := by decide
  rw [rejectFallbackKey]
  exact if_neg fun h => h.1 hblank

/-- **Prediction and route agree**, where the settlement is keyed. -/
theorem ledgerKey_of_route
    (hkeyed : s.keyed stages transitions = true) (h : s.route stages transitions = some dest) :
    s.ledgerKey stages transitions = dest := by
  cases s with
  | single fromKey named agent context sha =>
    obtain ⟨-, hcase⟩ := applyStageRoute_cases h
    show reworkTarget stages fromKey named agent = dest
    unfold reworkTarget
    rw [Settlement.keyed] at hkeyed
    by_cases hin : named ≠ "" ∧ named ∈ stages.map (·.key)
    · rw [if_pos hin] at hkeyed ⊢
      have hvalid : validTarget stages fromKey named = true := by
        rw [validTarget, hkeyed, Bool.and_true]
        exact decide_eq_true hin.2
      rcases hcase with ⟨-, -, rfl⟩ | ⟨hnot, -⟩
      · rfl
      · exact absurd ⟨hin.1, hvalid⟩ hnot
    · rw [if_neg hin] at hkeyed ⊢
      rcases hcase with ⟨hne, hvalid, -⟩ | ⟨-, ⟨route, hroute, rfl⟩ | ⟨-, hfallback⟩⟩
      · exact absurd ⟨hne, of_decide_eq_true (and_eq_true_iff.mp hvalid).1⟩ hin
      · rw [hroute] at hkeyed
        exact of_decide_eq_true hkeyed
      · rw [hfallback]
        rfl
  | parallel fromKey results unlinked sha =>
    obtain ⟨-, hcase⟩ := applyStageRoute_cases h
    show orElse (parallelAsk transitions fromKey results).1 _ = dest
    rw [Settlement.keyed] at hkeyed
    by_cases hnamed : agentToKey results = ""
    · have hask : (parallelAsk transitions fromKey results).1 =
          ((rejectTransition transitions fromKey).map Prod.fst).getD "" := if_pos hnamed
      rcases hcase with ⟨hne, -, rfl⟩ | ⟨-, ⟨route, hroute, rfl⟩ | ⟨hnone, hfallback⟩⟩
      · exact if_neg hne
      · rw [hask, hroute]
        exact if_neg (rejectTransition_ne hroute)
      · -- no agent goes with a template route that is not there
        have hagent : (parallelAsk transitions fromKey results).2 = "" := by
          show ((rejectTransition transitions fromKey).map Prod.snd).getD "" = ""
          rw [hnone]
          rfl
        rw [hagent, rejectFallbackKey_no_agent] at hfallback
        rw [hask, hnone, hfallback]
        rfl
    · have hask : (parallelAsk transitions fromKey results).1 = agentToKey results := if_neg hnamed
      have hvalid : validTarget stages fromKey (agentToKey results) = true := by
        simpa [hnamed] using hkeyed
      rw [hask] at hcase ⊢
      rcases hcase with ⟨hne, -, rfl⟩ | ⟨hnot, -⟩
      · exact if_neg hne
      · exact absurd ⟨hnamed, hvalid⟩ hnot

/-! ## Counting rounds -/

def Past (times : Nat → Int) (ledger : Ledger) : Prop :=
  ∀ row ∈ ledger, row.createdAt < times ledger.length

theorem Past.add (hincreasing : Increasing times) (h : Past times ledger) (entry : Entry) :
    Past times (add times ledger target entry) := by
  intro row hrow
  have hlength : (Rework.add times ledger target entry).length = ledger.length + 1 := by
    simp [Rework.add]
  rw [hlength]
  rcases mem_append.mp hrow with hold | hnew
  · exact (h row hold).trans (hincreasing _ _ (Nat.lt_succ_self _))
  · rw [mem_singleton.mp hnew]
    exact hincreasing _ _ (Nat.lt_succ_self _)

theorem mem_entries : row ∈ entries ledger target ↔
      row ∈ ledger ∧ row.isFeedback = true ∧ row.targetStage = target := by
  rw [entries, mem_ranked, mem_filter, and_eq_true, decide_eq_true_iff]

theorem entries_feedback (hpast : Past times ledger) (fromStage context sha : String) :
    entries (add times ledger target (.feedback fromStage context sha)) k =
      if target = k then
        entries ledger k ++ [⟨target, times ledger.length, .feedback fromStage context sha⟩]
      else entries ledger k := by
  rw [entries, add, filter_append]
  by_cases htarget : target = k
  · rw [if_pos htarget, filter_cons_of_pos (by simp [Artifact.isFeedback, htarget]),
      filter_nil, ranked_snoc]
    · rfl
    · exact fun row hrow => (hpast row (mem_filter.mp hrow).1).le
  · rw [if_neg htarget, filter_cons_of_neg (by simp [htarget]), filter_nil, append_nil]
    rfl

theorem newestResetAt_feedback (fromStage context sha : String) :
    newestResetAt (add times ledger target (.feedback fromStage context sha)) k =
      newestResetAt ledger k := by
  rw [newestResetAt, add, filter_append,
    filter_cons_of_neg (by simp [Artifact.isFeedback]), filter_nil, append_nil]
  rfl

theorem newestResetAt_lt (hpast : Past times ledger) {reset : Int}
    (h : newestResetAt ledger k = some reset) : reset < times ledger.length := by
  obtain ⟨row, hrow, rfl⟩ := mem_map.mp (List.max?_mem h)
  exact hpast row (mem_filter.mp hrow).1

theorem reworkRerouteCount_feedback (hpast : Past times ledger) (fromStage context sha : String) :
    reworkRerouteCount (add times ledger target (.feedback fromStage context sha)) k =
      reworkRerouteCount ledger k + if target = k then 1 else 0 := by
  rw [reworkRerouteCount, reworkRerouteCount, newestResetAt_feedback, entries_feedback hpast]
  split
  · have hcounts : ((newestResetAt ledger k).all fun reset =>
        decide (reset < times ledger.length)) = true := by
      rw [all_eq_true_iff_get]
      intro hsome
      exact decide_eq_true (newestResetAt_lt hpast (some_get hsome).symm)
    have hkept :
        [(⟨target, times ledger.length, .feedback fromStage context sha⟩ : Artifact)].filter
            (fun row => (newestResetAt ledger k).all fun reset => reset < row.createdAt) =
          [⟨target, times ledger.length, .feedback fromStage context sha⟩] := by
      rw [filter_eq_self]
      intro row hrow
      rw [mem_singleton.mp hrow]
      exact hcounts
    rw [filter_append, hkept, length_append]
    rfl
  · rfl

theorem reworkRerouteCount_reset (htarget : target ≠ k) :
    reworkRerouteCount (add times ledger target .budgetReset) k = reworkRerouteCount ledger k := by
  have hrows : (add times ledger target .budgetReset).filter (fun row =>
      row.isFeedback && row.targetStage = k) =
      ledger.filter fun row => row.isFeedback && row.targetStage = k := by
    rw [add, filter_append, filter_cons_of_neg (by simp [htarget]), filter_nil, append_nil]
  have hmarks : newestResetAt (add times ledger target .budgetReset) k =
      newestResetAt ledger k := by
    rw [newestResetAt, add, filter_append, filter_cons_of_neg (by simp [htarget]),
      filter_nil, append_nil]
    rfl
  rw [reworkRerouteCount, reworkRerouteCount, hmarks, entries, entries, hrows]

theorem recordReroute_fst (fromStage context sha : String) :
    (recordReroute times ledger target fromStage context sha).1 =
      if target = "" then ledger
      else add times ledger target (.feedback fromStage context sha) := by
  unfold recordReroute
  split
  · rfl
  · extract_lets prior ledger'
    split
    · rfl
    · split <;> rfl

theorem recordReroute_none (fromStage context sha : String) (htarget : target ≠ "")
    (h : (recordReroute times ledger target fromStage context sha).2 = .none) :
    reworkRerouteCount ledger target < maxReworkReroutes := by
  unfold recordReroute at h
  rw [if_neg htarget] at h
  by_contra hspent
  rw [if_pos (not_lt.mp hspent)] at h
  exact nomatch h

theorem settle_fst (s : Settlement) : (settle stages transitions times ledger s).1 =
      if s.passedOver stages then ledger
      else (recordReroute times ledger (s.ledgerKey stages transitions) s.fromKey s.context
        s.commitSha).1 := by
  unfold settle
  split
  · rfl
  · split <;> rename_i hrecord <;> rw [hrecord]

theorem settle_snd (h : (settle stages transitions times ledger s).2 = some dest) :
    s.route stages transitions = some dest ∧ s.passedOver stages = false ∧
      (recordReroute times ledger (s.ledgerKey stages transitions) s.fromKey s.context
        s.commitSha).2 = .none := by
  unfold settle at h
  split at h
  · exact nomatch h
  · rename_i hpassed
    split at h
    · rename_i hrecord
      rw [hrecord]
      exact ⟨h, eq_false_iff.mpr hpassed, rfl⟩
    · exact nomatch h

/-- A keyed settlement that moves the ticket has recorded its round under the stage it moves
    to, whose budget was not spent. -/
theorem settle_routed (hkeyed : s.keyed stages transitions = true)
    (h : (settle stages transitions times ledger s).2 = some dest) :
    (settle stages transitions times ledger s).1 =
        add times ledger dest (.feedback s.fromKey s.context s.commitSha) ∧
      reworkRerouteCount ledger dest < maxReworkReroutes := by
  obtain ⟨hroute, hpassed, hnone⟩ := settle_snd h
  have hkey := ledgerKey_of_route hkeyed hroute
  have hne : dest ≠ "" := by
    cases s with
    | single | parallel => exact (applyStageRoute_cases hroute).1
  rw [hkey] at hnone
  rw [settle_fst, hkey, hpassed, if_neg Bool.false_ne_true, recordReroute_fst, if_neg hne]
  exact ⟨rfl, recordReroute_none _ _ _ hne hnone⟩

/-! ## The rounds that land on a stage -/

/-- An event that moves the ticket to the stage, its agent's choice being keyed. -/
def lands (stages : List WorkflowStageDef) (transitions : List Transition)
    (times : Nat → Int) (k : String) (ledger : Ledger) : Event → Bool
  | .settle s => s.keyed stages transitions &&
      (settle stages transitions times ledger s).2 = some k
  | .reset _ => false

def landed (stages : List WorkflowStageDef) (transitions : List Transition) (times : Nat → Int)
    (k : String) : Ledger → List Event → Nat
  | _, [] => 0
  | ledger, e :: events =>
    (if lands stages transitions times k ledger e then 1 else 0) +
      landed stages transitions times k (after stages transitions times ledger e) events

theorem after_cases (stages : List WorkflowStageDef) (transitions : List Transition)
    (ledger : Ledger) (e : Event) :
    after stages transitions times ledger e = ledger ∨
      ∃ key entry, after stages transitions times ledger e = add times ledger key entry ∧
        (entry = .budgetReset → e = .reset key) := by
  cases e with
  | settle s =>
    have hsettle : after stages transitions times ledger (.settle s) = _ := settle_fst s
    rw [hsettle]
    split
    · exact .inl rfl
    · rw [recordReroute_fst]
      split
      · exact .inl rfl
      · exact .inr ⟨_, _, rfl, nofun⟩
  | reset key =>
    have hreset : after stages transitions times ledger (.reset key) =
        if key = "" then ledger else add times ledger key .budgetReset := rfl
    rw [hreset]
    split
    · exact .inl rfl
    · exact .inr ⟨key, .budgetReset, rfl, fun _ => rfl⟩

theorem Past.after (stages : List WorkflowStageDef) (transitions : List Transition)
    (hincreasing : Increasing times) (h : Past times ledger) (e : Event) :
    Past times (Rework.after stages transitions times ledger e) := by
  rcases after_cases stages transitions ledger e with
    hsame | ⟨key, entry, hadd, -⟩
  · rw [hsame]
    exact h
  · rw [hadd]
    exact h.add hincreasing entry

theorem past_history (hincreasing : Increasing times) (events : List Event) :
    Past times (events.foldl (Rework.after stages transitions times) []) := by
  have hfold : ∀ ledger, Past times ledger →
      Past times (events.foldl (Rework.after stages transitions times) ledger) := by
    induction events with
    | nil => exact fun ledger h => h
    | cons e events ih => exact fun ledger h => ih _ (h.after stages transitions hincreasing e)
  exact hfold [] nofun

theorem count_le_after (stages : List WorkflowStageDef) (transitions : List Transition)
    (hpast : Past times ledger) {e : Event} (hreset : e ≠ .reset k) :
    reworkRerouteCount ledger k ≤
      reworkRerouteCount (after stages transitions times ledger e) k := by
  rcases after_cases stages transitions ledger e with
    hsame | ⟨key, entry, hadd, hkind⟩
  · rw [hsame]
  · rw [hadd]
    cases entry with
    | feedback fromStage context sha =>
      rw [reworkRerouteCount_feedback hpast]
      exact Nat.le_add_right _ _
    | budgetReset =>
      have hkey : key ≠ k := by
        rintro rfl
        exact hreset (hkind rfl)
      rw [reworkRerouteCount_reset hkey]

/-- **The loop is bounded where it lands**: what was counted already, and no reset between. -/
theorem landed_le (hincreasing : Increasing times) (hpast : Past times ledger)
    {events : List Event} (hresets : ∀ e ∈ events, e ≠ .reset k) :
    landed stages transitions times k ledger events ≤
      maxReworkReroutes - reworkRerouteCount ledger k := by
  induction events generalizing ledger with
  | nil => exact Nat.zero_le _
  | cons e events ih =>
    have hrest := ih (hpast.after stages transitions hincreasing e) fun e' he' =>
      hresets e' (mem_cons_of_mem _ he')
    have hcount := count_le_after stages transitions hpast
      (hresets e mem_cons_self)
    rw [landed]
    split
    · rename_i hlands
      -- it was counted, and there was budget for it
      cases e with
      | reset key => exact nomatch hlands
      | settle s =>
        obtain ⟨hkeyed, hdest⟩ := and_eq_true_iff.mp hlands
        obtain ⟨hledger, hbudget⟩ := settle_routed hkeyed (of_decide_eq_true hdest)
        have hone : reworkRerouteCount (after stages transitions times ledger (.settle s)) k =
            reworkRerouteCount ledger k + 1 := by
          show reworkRerouteCount (settle stages transitions times ledger s).1 k = _
          rw [hledger, reworkRerouteCount_feedback hpast, if_pos rfl]
        omega
    · omega

theorem keptRounds_covers {rows : List Artifact} (seen : List String)
    (hrow : row ∈ rows) (hne : row.context ≠ "") :
    row.context ∈ seen ∨ ∃ round ∈ keptRounds rows seen, round.2 = row.context := by
  induction rows generalizing seen with
  | nil => exact nomatch hrow
  | cons first rows ih =>
    rw [keptRounds]
    split
    · rename_i hskip
      rcases mem_cons.mp hrow with rfl | hrest
      · exact .inl (hskip.resolve_left hne)
      · exact ih seen hrest
    · rcases mem_cons.mp hrow with rfl | hrest
      · exact .inr ⟨_, mem_cons_self, rfl⟩
      · rcases ih (first.context :: seen) hrest with hseen | ⟨round, hround, hcontext⟩
        · rcases mem_cons.mp hseen with heq | hseen
          · exact .inr ⟨_, mem_cons_self, heq.symm⟩
          · exact .inl hseen
        · exact .inr ⟨round, mem_cons_of_mem _ hround, hcontext⟩

theorem roundBlock_shows (index : Nat) (round : String × String) :
    round.2.toList <:+: (roundBlock index round).toList := by
  rw [roundBlock, String.toList_append]
  exact (suffix_append _ _).isInfix

section

variable (hrow : row ∈ entries ledger target) (hne : row.context ≠ "")
include hrow hne

/-- **The feedback of a stage holds every finding raised against it**, in full. -/
theorem renderReworkFeedback_shows :
    row.context.toList <:+: (renderReworkFeedback ledger target).toList := by
  obtain hseen | ⟨round, hround, hcontext⟩ := keptRounds_covers [] hrow hne
  · exact nomatch hseen
  · unfold renderReworkFeedback
    split
    · rename_i hnone
      rw [hnone] at hround
      exact nomatch hround
    · rename_i only hone
      rw [hone] at hround
      have honly : only.2 = row.context := mem_singleton.mp hround ▸ hcontext
      simp [honly]
    · rw [String.toList_intercalate, ← hcontext]
      obtain ⟨i, hi, rfl⟩ := mem_iff_getElem.mp hround
      have hblock : (roundBlock (i + 1) (keptRounds (entries ledger target) [])[i]).toList ∈
          ((keptRounds (entries ledger target) []).mapIdx fun i round =>
            roundBlock (i + 1) round).map String.toList :=
        mem_map_of_mem (mem_mapIdx.mpr ⟨i, hi, rfl⟩)
      exact (roundBlock_shows _ _).trans (infix_intercalate hblock)

theorem feedbackLines_shows (blockingIssues brief : String) :
    ∃ line ∈ feedbackLines ledger target blockingIssues brief,
      row.context.toList <:+: line.toList := by
  have hshows := renderReworkFeedback_shows hrow hne
  have hrendered : renderReworkFeedback ledger target ≠ "" := by
    intro hblank
    rw [hblank] at hshows
    exact hne (String.toList_inj.mp (infix_nil.mp hshows))
  have hfeedback : orElse (renderReworkFeedback ledger target) blockingIssues =
      renderReworkFeedback ledger target := if_neg hrendered
  unfold feedbackLines
  rw [hfeedback]
  by_cases hbrief : renderReworkFeedback ledger target = brief
  · -- the repair brief says it already
    refine ⟨brief, mem_append_left _ ?_, hbrief ▸ hshows⟩
    rw [if_neg (hbrief ▸ hrendered)]
    exact mem_singleton_self _
  · refine ⟨_, mem_append_right _ ?_, hshows⟩
    rw [if_pos ⟨hrendered, hbrief⟩]
    exact mem_singleton_self _

end

theorem mem_events (events : List Event) (hrow : row ∈ ledger) :
    row ∈ events.foldl (after stages transitions times) ledger := by
  induction events generalizing ledger with
  | nil => exact hrow
  | cons e events ih =>
    refine ih ?_
    rcases after_cases stages transitions ledger e with
      hsame | ⟨key, entry, hadd, -⟩
    · rw [hsame]
      exact hrow
    · rw [hadd]
      exact mem_append_left _ hrow

/-- The ledger a history of settlements and resets leaves. -/
def history (stages : List WorkflowStageDef) (transitions : List Transition) (times : Nat → Int)
    (events : List Event) : Ledger :=
  events.foldl (after stages transitions times) []

theorem settle_unnamed (fromKey named agent context sha : String)
    (hnamed : ¬ (named ≠ "" ∧ named ∈ stages.map (·.key))) :
    after stages transitions times ledger (.settle (.single fromKey named agent context sha)) =
      if (rejectFallbackKey stages fromKey agent).getD "" = "" then ledger
      else add times ledger ((rejectFallbackKey stages fromKey agent).getD "")
        (.feedback fromKey context sha) := by
  have hkey : reworkTarget stages fromKey named agent =
      (rejectFallbackKey stages fromKey agent).getD "" := if_neg hnamed
  rw [← hkey, ← recordReroute_fst]
  exact settle_fst (.single fromKey named agent context sha)

/-- **The rework loop is bounded where it returns to.** A keyed settlement that moves the ticket has
    its round in the ledger of the stage it moves to, whose agent reads it in full from then on;
    between two resets of a stage no more than the cap land on it. -/
theorem rework_bounded (stages : List WorkflowStageDef) (transitions : List Transition)
    (times : Nat → Int) (hincreasing : Increasing times) (before : List Event) :
    (∀ (s : Settlement) (dest : String), s.keyed stages transitions = true →
      routed stages transitions times (history stages transitions times before) (.settle s) =
        some dest →
      after stages transitions times (history stages transitions times before) (.settle s) =
          add times (history stages transitions times before) dest
            (.feedback s.fromKey s.context s.commitSha) ∧
        ∀ (later : List Event) (blockingIssues brief : String), pyStrip s.context ≠ "" →
          ∃ line ∈ feedbackLines
              (history stages transitions times (before ++ .settle s :: later)) dest
              blockingIssues brief,
            (pyStrip s.context).toList <:+: line.toList) ∧
    (∀ fromKey named agent context sha : String, ¬ (named ≠ "" ∧ named ∈ stages.map (·.key)) →
      after stages transitions times (history stages transitions times before)
          (.settle (.single fromKey named agent context sha)) =
        if (rejectFallbackKey stages fromKey agent).getD "" = "" then
          history stages transitions times before
        else add times (history stages transitions times before)
          ((rejectFallbackKey stages fromKey agent).getD "") (.feedback fromKey context sha)) ∧
    ∀ (k : String) (segment : List Event), (∀ e ∈ segment, e ≠ .reset k) →
      landed stages transitions times k (history stages transitions times before) segment ≤
        maxReworkReroutes := by
  have hpast : Past times (history stages transitions times before) :=
    past_history hincreasing before
  refine ⟨fun s dest hkeyed hrouted => ?_, fun _ _ _ _ _ hnamed => settle_unnamed _ _ _ _ _ hnamed,
    fun k segment hresets => ?_⟩
  · have hledger : after stages transitions times (history stages transitions times before)
        (.settle s) = _ := (settle_routed hkeyed hrouted).1
    refine ⟨hledger, fun later blockingIssues brief hne => ?_⟩
    -- the row of the round, which stays
    have hrow : (⟨dest, times (history stages transitions times before).length,
        .feedback s.fromKey s.context s.commitSha⟩ : Artifact) ∈
        history stages transitions times (before ++ .settle s :: later) := by
      rw [history, foldl_append, foldl_cons]
      refine mem_events later ?_
      show _ ∈ after stages transitions times (history stages transitions times before) _
      rw [hledger]
      exact mem_append_right _ (mem_singleton_self _)
    exact feedbackLines_shows (mem_entries.mpr ⟨hrow, rfl, rfl⟩) hne blockingIssues brief
  · exact (landed_le hincreasing hpast hresets).trans (Nat.sub_le _ _)

def fourStages : List WorkflowStageDef :=
  [{ key := "plan", order := 0 }, { key := "implement", order := 1 }, { key := "test", order := 2 },
    { key := "review", order := 3 }]

def namedRework : Settlement := .single "review" "implement" "" " the count is off\n" "c1"

theorem rework_bounded_named : (after fourStages [] Int.ofNat [] (.settle namedRework) =
        add Int.ofNat [] "implement" (.feedback "review" " the count is off\n" "c1") ∧
      ∃ line ∈ feedbackLines
          (history fourStages [] Int.ofNat [.settle namedRework, .reset "implement"])
          "implement" "" "", "the count is off".toList <:+: line.toList) ∧
    landed fourStages [] Int.ofNat "implement" []
      (List.replicate 5 (.settle namedRework)) ≤ maxReworkReroutes := by
  have hbounded := rework_bounded fourStages [] Int.ofNat (fun m n h => Int.ofNat_lt.mpr h) []
  have hresets : ∀ e ∈ List.replicate 5 (Event.settle namedRework), e ≠ .reset "implement" := by
    intro e he
    rw [eq_of_mem_replicate he]
    exact nofun
  refine ⟨?_, hbounded.2.2 "implement" _ hresets⟩
  have hround := hbounded.1 namedRework "implement" (by decide +kernel) (by decide +kernel)
  exact ⟨hround.1, hround.2 [.reset "implement"] "" "" (by decide +kernel)⟩

def backToImplement : List Transition :=
  [{ source := some "review", target := "implement", when_ := "reject" }]

/-- A reject route past a stage: the work goes to one stage and its round to another. -/
theorem reject_route_passed_over :
    routed fourStages backToImplement Int.ofNat []
        (.settle (.single "review" "" "" "the count is off" "c1")) = some "implement" ∧
      after fourStages backToImplement Int.ofNat []
        (.settle (.single "review" "" "" "the count is off" "c1")) =
          add Int.ofNat [] "test" (.feedback "review" "the count is off" "c1") ∧
      renderReworkFeedback
        (after fourStages backToImplement Int.ofNat []
          (.settle (.single "review" "" "" "the count is off" "c1"))) "implement" = "" := by
  decide +kernel

end Loregarden.Rework
