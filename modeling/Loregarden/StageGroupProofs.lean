import Loregarden.StageGroupModel

/-! # What pruning leaves of a group

    A group is emptied when every member is won't-do. The two automatic prunings ask
    nobody: a route marks what it steps over, and a finished workflow what it never
    reached.

    * `emptiedGroups_eq_nil_iff`: every group has a survivor;
    * `walk_iff`, `routed_iff`: where a route goes, and what it hops over;
    * `route_spares_iff`, `settle_spares_iff`: when one pruning keeps a survivor;
    * `pruning_keeps_groups`: the same over whole runs. -/

namespace Loregarden.Stages

open List Function

open Lanes (TicketState)

variable {stages : List WorkflowStageDef} {transitions : List Transition} {ticket : Ticket}
  {m m' : StageMap} {r : RouteRequest} {group key : String} {status : StageStatus}
  {stage : WorkflowStageDef} {first plan onward : StageRoutePlan} {passed : List String}
  {fromKey toKey branchTo : String}

/-! ## Groups and their members -/

theorem mem_ordered : stage ∈ ordered stages ↔ stage ∈ stages := mem_insertionSort _

theorem mem_groups : group ∈ groups stages ↔
    group ≠ "" ∧ ∃ s ∈ stages, s.alternativeGroup = group := by
  rw [groups, mem_dedup, mem_filter, mem_map, decide_eq_true_iff, and_comm]

theorem mem_groupMembers (h : group ≠ "") : stage ∈ groupMembers stages group ↔
    stage ∈ stages ∧ stage.alternativeGroup = group := by
  rw [groupMembers, if_neg h, mem_filter, mem_ordered, decide_eq_true_iff]

def Survives (stages : List WorkflowStageDef) (m : StageMap) (group : String) : Prop :=
  ∃ s ∈ stages, s.alternativeGroup = group ∧ m s.key ≠ .wontDo

theorem emptiedGroups_eq_nil_iff : emptiedGroups stages m = [] ↔
    ∀ group ∈ groups stages, Survives stages m group := by
  have hlen : emptiedGroups stages m = [] ↔ ((groups stages).filter fun group =>
      (groupMembers stages group).all fun member => m member.key = .wontDo) = [] := by
    rw [← length_eq_zero_iff, emptiedGroups, length_insertionSort, length_eq_zero_iff]
  rw [hlen, filter_eq_nil_iff]
  refine forall₂_congr fun group hgroup => ?_
  rw [all_eq_true, not_forall]
  constructor
  · rintro ⟨s, hs⟩
    rw [Classical.not_imp, decide_eq_true_iff, mem_groupMembers (mem_groups.mp hgroup).1] at hs
    exact ⟨s, hs.1.1, hs.1.2, hs.2⟩
  · rintro ⟨s, hs, hg, hm⟩
    refine ⟨s, fun h => hm ?_⟩
    exact of_decide_eq_true (h ((mem_groupMembers (mem_groups.mp hgroup).1).mpr ⟨hs, hg⟩))

theorem emptiedGroups_initial : emptiedGroups stages initialStages = [] := by
  refine emptiedGroups_eq_nil_iff.mpr fun group hgroup => ?_
  obtain ⟨-, s, hs, hg⟩ := mem_groups.mp hgroup
  exact ⟨s, hs, hg, StageStatus.noConfusion⟩

theorem setStageStatus_ok (h : setStageStatus stages m key status = .ok m') :
    m' = Function.update m key status := by
  rw [setStageStatus] at h
  split at h
  · exact (Except.ok.inj h).symm
  · cases h

theorem Survives.update (h : Survives stages m group) (hstatus : status ≠ .wontDo) :
    Survives stages (Function.update m key status) group := by
  obtain ⟨s, hs, hg, hm⟩ := h
  refine ⟨s, hs, hg, ?_⟩
  by_cases hk : s.key = key
  · rw [hk, update_self]
    exact hstatus
  · rw [update_of_ne hk]
    exact hm

theorem emptiedGroups_update (h : emptiedGroups stages m = []) (hstatus : status ≠ .wontDo) :
    emptiedGroups stages (Function.update m key status) = [] :=
  emptiedGroups_eq_nil_iff.mpr fun group hgroup =>
    (emptiedGroups_eq_nil_iff.mp h group hgroup).update hstatus

/-- An agent's skip is refused where it would empty a group; that a key names one stage is
    what the refusal rests on. -/
theorem emptiedGroups_skipStage (hkeys : (stages.map (·.key)).Nodup)
    (h : emptiedGroups stages m = []) (hskip : skipStage stages m key = .ok m') :
    emptiedGroups stages m' = [] := by
  rw [skipStage] at hskip
  split at hskip
  · cases hskip
  · rename_i stage hfind
    have hid := List.find?_some hfind
    have hkey : stage.key = key := of_decide_eq_true hid
    have hmem := mem_of_find?_eq_some hfind
    dsimp only at hskip
    split at hskip
    · cases hskip
    · split at hskip
      · cases hskip
      · split at hskip
        · cases hskip
        · split at hskip
          · cases hskip
          · rename_i hemptied
            rw [not_not, groupWouldBeEmptied, hfind] at hemptied
            rw [setStageStatus_ok hskip]
            refine emptiedGroups_eq_nil_iff.mpr fun group hgroup => ?_
            by_cases hsame : stage.alternativeGroup = group
            · -- a sibling is still going to run
              have hne := (mem_groups.mp hgroup).1
              dsimp only at hemptied
              rw [hsame, if_neg hne] at hemptied
              split at hemptied
              · rename_i hany
                obtain ⟨s, hs, hlive⟩ := any_eq_true.mp hany
                obtain ⟨hsk, hsm⟩ := of_decide_eq_true hlive
                obtain ⟨hsmem, hsg⟩ := (mem_groupMembers hne).mp hs
                refine ⟨s, hsmem, hsg, ?_⟩
                rw [update_of_ne hsk]
                exact hsm
              · exact absurd hemptied hne
            · obtain ⟨s, hs, hg, hm⟩ := emptiedGroups_eq_nil_iff.mp h group hgroup
              refine ⟨s, hs, hg, ?_⟩
              have hsk : s.key ≠ key := fun hsk => hsame (by
                rw [← hg, inj_on_of_nodup_map hkeys hmem hs (hkey.trans hsk.symm)])
              rw [update_of_ne hsk]
              exact hm

/-! ## Places in template order -/

theorem ordered_keys_nodup (hkeys : (stages.map (·.key)).Nodup) :
    ((ordered stages).map (·.key)).Nodup :=
  ((perm_insertionSort _ stages).map _).nodup_iff.mpr hkeys

theorem mem_ordered_keys : key ∈ (ordered stages).map (·.key) ↔ key ∈ stages.map (·.key) :=
  ((perm_insertionSort _ stages).map _).mem_iff

theorem stageIndex_none : stageIndex stages key = none ↔ key ∉ stages.map (·.key) := by
  rw [stageIndex, List.idxOf?_eq_none_iff, mem_ordered_keys]

theorem exists_stageIndex (h : key ∈ stages.map (·.key)) : ∃ p, stageIndex stages key = some p :=
  Option.ne_none_iff_exists'.mp fun hnone => stageIndex_none.mp hnone h

theorem mem_of_stageIndex {p : Nat} (h : stageIndex stages key = some p) :
    key ∈ stages.map (·.key) := by
  by_contra hnot
  rw [stageIndex_none.mpr hnot] at h
  cases h

theorem getElem?_of_stageIndex {p : Nat} (h : stageIndex stages key = some p) :
    ((ordered stages).map (·.key))[p]? = some key := by
  obtain ⟨hp, hget, -⟩ := List.idxOf?_eq_some_iff.mp h
  rw [List.getElem?_eq_getElem hp, hget]

section

variable (hkeys : (stages.map (·.key)).Nodup)
include hkeys

theorem stageIndex_of_getElem? {p : Nat}
    (h : ((ordered stages).map (·.key))[p]? = some key) : stageIndex stages key = some p := by
  obtain ⟨hp, hget⟩ := List.getElem?_eq_some_iff.mp h
  refine List.idxOf?_eq_some_iff.mpr ⟨hp, hget, ?_⟩
  intro q hq heq
  have hsame := (List.Nodup.getElem_inj_iff (ordered_keys_nodup hkeys)).mp (heq.trans hget.symm)
  exact absurd hsame (Nat.ne_of_lt hq)

omit hkeys in
theorem stageIndex_inj {p : Nat} (h : stageIndex stages fromKey = some p)
    (h' : stageIndex stages toKey = some p) : fromKey = toKey :=
  Option.some.inj ((getElem?_of_stageIndex h).symm.trans (getElem?_of_stageIndex h'))

theorem mem_slice {i j : Nat} : key ∈ (((ordered stages).take i).drop j).map (·.key) ↔
      ∃ p, stageIndex stages key = some p ∧ j ≤ p ∧ p < i := by
  rw [map_drop, map_take, mem_iff_getElem?]
  constructor
  · rintro ⟨n, hn⟩
    rw [List.getElem?_drop, List.getElem?_take] at hn
    split at hn
    · rename_i hlt
      exact ⟨j + n, stageIndex_of_getElem? hkeys hn, Nat.le_add_right j n, hlt⟩
    · cases hn
  · rintro ⟨p, hp, hle, hlt⟩
    refine ⟨p - j, ?_⟩
    rw [List.getElem?_drop, List.getElem?_take, Nat.add_sub_cancel' hle, if_pos hlt]
    exact getElem?_of_stageIndex hp

end

/-! ## The walk past skipped stages -/

/-- One hop: the ticket skips the stage the cursor is at, which ends nothing, and a pass from it
    goes on to a stage not passed over yet. -/
def Hop (stages : List WorkflowStageDef) (transitions : List Transition) (ticket : Ticket)
    (passed : List String) (plan onward : StageRoutePlan) : Prop :=
  ∃ target, stages.reverse.find? (·.key = plan.toKey) = some target ∧
    shouldSkipStage ticket target stages = true ∧ isTerminalStage target = false ∧
    resolveNextStage stages transitions plan.toKey "pass" = some onward ∧ onward.toKey ∉ passed

/-- The walk has come from one plan to another, over these stages. -/
inductive WalksOver (stages : List WorkflowStageDef) (transitions : List Transition)
    (ticket : Ticket) (first : StageRoutePlan) : StageRoutePlan → List String → Prop
  | start : WalksOver stages transitions ticket first first []
  | hop {plan onward : StageRoutePlan} {passed : List String}
      (walk : WalksOver stages transitions ticket first plan passed)
      (hop : Hop stages transitions ticket passed plan onward) :
      WalksOver stages transitions ticket first onward (passed ++ [plan.toKey])

/-- A passing route walks as far as hops go; no other walks. -/
def Walk (stages : List WorkflowStageDef) (transitions : List Transition) (ticket : Ticket)
    (outcome : String) (first landed : StageRoutePlan) (passed : List String) : Prop :=
  if outcome = "pass" then
    WalksOver stages transitions ticket first landed passed ∧
      ∀ onward, ¬ Hop stages transitions ticket passed landed onward
  else landed = first ∧ passed = []

theorem advance_succ_of_hop {hops : Nat} (h : Hop stages transitions ticket passed plan onward) :
    advance stages transitions ticket (hops + 1) plan passed =
      advance stages transitions ticket hops onward (passed ++ [plan.toKey]) := by
  obtain ⟨target, htarget, hskip, hterminal, honward, hnew⟩ := h
  rw [advance, htarget]
  dsimp only
  rw [if_neg (not_not.mpr hskip), if_neg (Bool.eq_false_iff.mp hterminal), honward]
  exact if_neg hnew

theorem advance_of_no_hop (hops : Nat)
    (h : ∀ onward, ¬ Hop stages transitions ticket passed plan onward) :
    advance stages transitions ticket hops plan passed = (plan, passed) := by
  cases hops with
  | zero => rfl
  | succ hops =>
    rw [advance]
    split
    · rfl
    · next target htarget =>
      split
      · rfl
      · next hskip =>
        split
        · rfl
        · next hterminal =>
          split
          · rfl
          · next onward honward =>
            split
            · rfl
            · next hnew =>
              exact absurd ⟨target, htarget, not_not.mp hskip, Bool.eq_false_iff.mpr hterminal,
                honward, hnew⟩ (h onward)

/-- A walk passes over different stages of the template, and none leads on that is passed over. -/
theorem WalksOver.distinct (h : WalksOver stages transitions ticket first plan passed) :
    passed.Nodup ∧ passed ⊆ stages.map (·.key) ∧
      (plan.toKey ∈ passed → ∀ onward, ¬ Hop stages transitions ticket passed plan onward) := by
  induction h with
  | start => exact ⟨nodup_nil, nil_subset _, fun h => absurd h not_mem_nil⟩
  | @hop plan onward passed walk hhop ih =>
    obtain ⟨hnodup, hkeys, hstuck⟩ := ih
    have hfresh : plan.toKey ∉ passed := fun hin => hstuck hin onward hhop
    obtain ⟨target, htarget, -, -, honward, hnew⟩ := hhop
    have hkey : target.key = plan.toKey := by simpa using List.find?_some htarget
    refine ⟨hnodup.append (nodup_singleton _) ?_, append_subset.mpr ⟨hkeys, ?_⟩, ?_⟩
    · exact disjoint_singleton.mpr hfresh
    · intro k hk
      obtain rfl := mem_singleton.mp hk
      exact hkey ▸ mem_map_of_mem (mem_reverse.mp (mem_of_find?_eq_some htarget))
    · -- it can only have come back to the stage it left
      rintro hin next ⟨-, -, -, -, hnext, hfresh'⟩
      have hself : onward.toKey = plan.toKey :=
        mem_singleton.mp ((mem_append.mp hin).resolve_left hnew)
      rw [hself] at hnext
      obtain rfl := Option.some.inj (honward.symm.trans hnext)
      exact hfresh' hin

theorem WalksOver.length_le (h : WalksOver stages transitions ticket first plan passed) :
    passed.length ≤ stages.length := by
  obtain ⟨hnodup, hkeys, -⟩ := h.distinct
  simpa using (subperm_of_subset hnodup hkeys).length_le

theorem WalksOver.advance_eq (h : WalksOver stages transitions ticket first plan passed) :
    advance stages transitions ticket stages.length first [] =
      advance stages transitions ticket (stages.length - passed.length) plan passed := by
  induction h with
  | start => rfl
  | hop walk hhop ih =>
    have hle := (walk.hop hhop).length_le
    rw [length_append, length_singleton] at hle ⊢
    rw [ih, ← advance_succ_of_hop hhop]
    congr 1
    omega

theorem WalksOver.ends (hops : Nat) (h : WalksOver stages transitions ticket first plan passed)
    (hhops : passed.length + hops = stages.length) :
    Walk stages transitions ticket "pass" first
      (advance stages transitions ticket hops plan passed).1
      (advance stages transitions ticket hops plan passed).2 := by
  induction hops generalizing plan passed with
  | zero =>
    refine ⟨h, fun onward hhop => ?_⟩
    have hle := (h.hop hhop).length_le
    rw [length_append, length_singleton] at hle
    omega
  | succ hops ih =>
    by_cases hmore : ∃ onward, Hop stages transitions ticket passed plan onward
    · obtain ⟨onward, hhop⟩ := hmore
      rw [advance_succ_of_hop hhop]
      refine ih (h.hop hhop) ?_
      rw [length_append, length_singleton]
      omega
    · rw [advance_of_no_hop _ (not_exists.mp hmore)]
      exact ⟨h, not_exists.mp hmore⟩

/-- **The loop walks as far as hops go**: that it is bounded by the stage count cuts none short,
    and what it returns is what it hopped over. -/
theorem walk_iff {outcome : String} {walk : StageRoutePlan × List String} :
    advancePastSkipped stages transitions ticket first outcome = walk ↔
      Walk stages transitions ticket outcome first walk.1 walk.2 := by
  obtain ⟨landed, passed⟩ := walk
  rw [advancePastSkipped]
  by_cases hpass : outcome = "pass"
  · subst hpass
    rw [if_neg (not_not.mpr rfl)]
    constructor
    · intro h
      have hstart : WalksOver stages transitions ticket first first [] := .start
      have hends := hstart.ends stages.length (Nat.zero_add _)
      rwa [h] at hends
    · rintro ⟨hwalk, hend⟩
      rw [hwalk.advance_eq]
      exact advance_of_no_hop _ hend
  · rw [if_pos hpass, Walk, if_neg hpass, Prod.mk.injEq, eq_comm (a := first), eq_comm (a := [])]

/-! ## A route -/

/-- The branch of a passing classify stage, where its decision names a stage. -/
def Branches (stages : List WorkflowStageDef) (ticket : Ticket) (r : RouteRequest)
    (branchTo : String) : Prop :=
  branchTo ≠ "" ∧ r.outcome = "pass" ∧
    ∃ stage route, stages.find? (·.key = r.fromKey) = some stage ∧
    stage.stageType = .classify ∧ ticket.decision stage = some route ∧ route.toStage = branchTo

/-- Where a request that sends nothing back goes: along the branch, else where the template goes.
    A strict one names a stage of its own and no next one. -/
def Sends (stages : List WorkflowStageDef) (transitions : List Transition) (ticket : Ticket)
    (r : RouteRequest) (first : StageRoutePlan) (branchTo : String) : Prop :=
  (r.strict = true → r.fromKey ∈ stages.map (·.key) ∧ r.nextStageKey = "") ∧
    (Branches stages ticket r branchTo ∧ branchTo ∈ stages.map (·.key) ∧
        first = { fromKey := r.fromKey, toKey := branchTo, outcome := r.outcome
                  upstream := isUpstreamRoute stages r.fromKey branchTo } ∨
      branchTo = "" ∧ (∀ target, ¬ Branches stages ticket r target) ∧
        resolveNextStage stages transitions r.fromKey r.outcome = some first)

/-- A stage stands strictly between two others, in template order. -/
def Between (stages : List WorkflowStageDef) (fromKey toKey key : String) : Prop :=
  ∃ i p j, stageIndex stages fromKey = some i ∧ stageIndex stages key = some p ∧
    stageIndex stages toKey = some j ∧ i < p ∧ p < j

/-- A stage is stepped over: the walk has hopped over it, or it is pending in the span that a
    branch jumps over. -/
def SteppedOver (stages : List WorkflowStageDef) (m : StageMap) (fromKey branchTo : String)
    (landed : StageRoutePlan) (passed : List String) (key : String) : Prop :=
  key ∈ passed ∨ (branchTo ≠ "" ∧ landed.toKey ≠ "") ∧
    Between stages fromKey landed.toKey key ∧ m key = .pending

/-- A route keeps a survivor in every group: it leads back, or each group has a member that
    is neither won't-do nor stepped over. -/
def RouteSpares (stages : List WorkflowStageDef) (transitions : List Transition) (ticket : Ticket)
    (m : StageMap) (r : RouteRequest) : Prop :=
  r.outcome = "reject" ∨ ∀ first branchTo landed passed,
    Sends stages transitions ticket r first branchTo →
      Walk stages transitions ticket r.outcome first landed passed → landed.upstream = true ∨
        ∀ member ∈ stages, member.alternativeGroup ≠ "" →
          ∃ s ∈ stages, s.alternativeGroup = member.alternativeGroup ∧ m s.key ≠ .wontDo ∧
            ¬ SteppedOver stages m r.fromKey branchTo landed passed s.key

theorem branches_iff : Branches stages ticket r branchTo ↔
    branchTo ≠ "" ∧ classifyBranchTarget stages ticket r.fromKey r.outcome "" = branchTo := by
  refine and_congr_right fun hne => ?_
  rw [classifyBranchTarget]
  constructor
  · rintro ⟨hpass, stage, route, hfind, htype, hroute, rfl⟩
    rw [if_neg (not_or.mpr ⟨not_not.mpr hpass, not_not.mpr rfl⟩), hfind]
    dsimp only
    rw [if_neg (not_not.mpr htype), hroute]
    rfl
  · intro h
    split at h
    · exact absurd h.symm hne
    · next hpass =>
      split at h
      · exact absurd h.symm hne
      · next stage hfind =>
        split at h
        · exact absurd h.symm hne
        · next htype =>
          cases hroute : ticket.decision stage with
          | none =>
            rw [hroute] at h
            exact absurd h.symm hne
          | some route =>
            rw [hroute] at h
            exact ⟨not_not.mp (not_or.mp hpass).1, stage, route, hfind, not_not.mp htype, hroute, h⟩

/-- A next stage named without a reject is refused where the request is strict, else discarded. -/
theorem validateRouteTarget_of_pass (hout : r.outcome ≠ "reject") :
    ∃ reason, reason ≠ "" ∧ if r.strict then ∃ e, validateRouteTarget stages r = .error e
      else validateRouteTarget stages r = .ok reason := by
  have hvalid : ∃ reason, reason ≠ "" ∧ ∃ e, validateRouteTarget stages r =
      if reason ≠ "" ∧ r.strict = true then .error e else .ok reason := by
    rw [validateRouteTarget]
    by_cases hmem : r.nextStageKey ∉ stages.map (·.key)
    · rw [if_pos hmem]
      refine ⟨_, fun hempty => ?_, _, rfl⟩
      rw [String.append_eq_empty_iff] at hempty
      exact absurd hempty.2 (by decide)
    · rw [if_neg hmem, if_pos hout]
      refine ⟨_, fun hempty => ?_, _, rfl⟩
      rw [String.append_eq_empty_iff] at hempty
      exact absurd hempty.2 (by decide)
  obtain ⟨reason, hne, e, hvalid⟩ := hvalid
  refine ⟨reason, hne, ?_⟩
  rw [hvalid]
  cases r.strict with
  | true => exact ⟨e, if_pos ⟨hne, rfl⟩⟩
  | false => exact if_neg fun h => nomatch h.2

/-- What such a request is routed by, once it is not refused. -/
theorem routed_of_pass (hout : r.outcome ≠ "reject")
    (hstrict : r.strict = true → r.fromKey ∈ stages.map (·.key) ∧ r.nextStageKey = "") :
    routed stages transitions ticket r = .ok (first, branchTo) ↔
      branchTo = classifyBranchTarget stages ticket r.fromKey r.outcome "" ∧
        resolveNextStageKey stages transitions r.fromKey r.outcome branchTo = .ok (some first) := by
  have hknown : ¬ (r.strict = true ∧ r.fromKey ∉ stages.map (·.key)) :=
    fun h => h.2 (hstrict h.1).1
  have hempty : ¬ (("" : String) ≠ "") := not_not.mpr rfl
  rw [routed]
  simp only [bind, Except.bind, pure, Except.pure, throw, throwThe, MonadExceptOf.throw]
  rw [if_neg hknown]
  by_cases hnext : r.nextStageKey ≠ ""
  on_goal 1 =>
    obtain ⟨reason, hreason, hvalid⟩ := @validateRouteTarget_of_pass stages r hout
    rw [if_neg fun h => hnext (hstrict h).2] at hvalid
    rw [if_pos hnext, hvalid]
    dsimp only
    rw [if_pos hreason]
  on_goal 2 => rw [if_neg hnext, not_not.mp hnext, if_neg hempty]
  all_goals
    rw [if_neg hempty, if_neg hout]
    cases hfound : resolveNextStageKey stages transitions r.fromKey r.outcome
        (classifyBranchTarget stages ticket r.fromKey r.outcome "") with
    | error e =>
      refine iff_of_false nofun ?_
      rintro ⟨rfl, h⟩
      cases hfound.symm.trans h
    | ok found =>
      cases found with
      | none =>
        refine iff_of_false nofun ?_
        rintro ⟨rfl, h⟩
        cases hfound.symm.trans h
      | some plan =>
        constructor
        · rintro ⟨⟩
          exact ⟨rfl, hfound⟩
        · rintro ⟨rfl, h⟩
          cases hfound.symm.trans h
          rfl

/-- Where a request that sends nothing back is routed. -/
theorem routed_iff (hout : r.outcome ≠ "reject") :
    routed stages transitions ticket r = .ok (first, branchTo) ↔
      Sends stages transitions ticket r first branchTo := by
  by_cases hstrict : r.strict = true → r.fromKey ∈ stages.map (·.key) ∧ r.nextStageKey = ""
  · rw [routed_of_pass hout hstrict, Sends, and_iff_right hstrict, resolveNextStageKey]
    simp only [branches_iff]
    constructor
    · rintro ⟨rfl, hfound⟩
      split at hfound
      · next hnone =>
          exact .inr ⟨hnone, fun _ h => h.1 (h.2.symm.trans hnone), Except.ok.inj hfound⟩
      · next hbranch =>
        split at hfound
        · cases hfound
        · next hmem =>
          cases hfound
          exact .inl ⟨⟨hbranch, rfl⟩, not_not.mp hmem, rfl⟩
    · rintro (⟨⟨hbranch, heq⟩, hmem, rfl⟩ | ⟨rfl, hno, hfound⟩)
      · exact ⟨heq.symm, by rw [if_neg hbranch, if_neg (not_not.mpr hmem)]⟩
      · refine ⟨?_, (if_pos rfl).trans (congrArg Except.ok hfound)⟩
        by_contra hne
        exact hno _ ⟨fun h => hne h.symm, rfl⟩
  · refine iff_of_false (fun h => ?_) fun h => hstrict h.1
    obtain ⟨hon, hnot⟩ := Classical.not_imp.mp hstrict
    rw [routed] at h
    simp only [bind, Except.bind, pure, Except.pure, throw, throwThe, MonadExceptOf.throw] at h
    by_cases hknown : r.fromKey ∈ stages.map (·.key)
    · obtain ⟨reason, -, hvalid⟩ := @validateRouteTarget_of_pass stages r hout
      rw [if_pos hon] at hvalid
      obtain ⟨e, hvalid⟩ := hvalid
      rw [if_neg fun h => h.2 hknown, if_pos fun hnext => hnot ⟨hknown, hnext⟩, hvalid] at h
      cases h
    · rw [if_pos ⟨hon, hknown⟩] at h
      cases h

theorem mem_between_iff (hkeys : (stages.map (·.key)).Nodup) :
    key ∈ between stages fromKey toKey ↔ Between stages fromKey toKey key := by
  rw [between, Between]
  cases hfrom : stageIndex stages fromKey with
  | none => exact iff_of_false not_mem_nil fun ⟨_, _, _, h, _⟩ => nomatch h
  | some i =>
    cases hto : stageIndex stages toKey with
    | none => exact iff_of_false not_mem_nil fun ⟨_, _, _, _, _, h, _⟩ => nomatch h
    | some j =>
      dsimp only
      rw [mem_slice hkeys]
      constructor
      · rintro ⟨p, hp, hle, hlt⟩
        exact ⟨i, p, j, rfl, hp, rfl, hle, hlt⟩
      · rintro ⟨_, p, _, ⟨⟩, hp, ⟨⟩, hlt, hlt'⟩
        exact ⟨p, hp, hlt, hlt'⟩

theorem resetUpstreamStages_wontDo {fromKey toKey : String}
    (h : resetUpstreamStages m stages fromKey toKey key = .wontDo) : m key = .wontDo := by
  cases hfrom : stageIndex stages fromKey with
  | none => simpa [resetUpstreamStages, hfrom] using h
  | some i =>
    cases hto : stageIndex stages toKey with
    | none => simpa [resetUpstreamStages, hfrom, hto] using h
    | some j =>
      simp only [resetUpstreamStages, hfrom, hto] at h
      split at h
      · exact h
      · -- the span is read at one key
        dsimp only at h
        split at h
        · cases h
        · exact h

theorem skipIntermediateStages_wontDo_iff {fromKey toKey : String} :
    skipIntermediateStages m stages fromKey toKey key = .wontDo ↔
      m key = .wontDo ∨ key ∈ between stages fromKey toKey ∧ m key = .pending := by
  rw [skipIntermediateStages]
  split
  · rename_i h
    exact ⟨fun _ => .inr h, fun _ => rfl⟩
  · rename_i h
    exact ⟨.inl, fun hor => hor.resolve_right h⟩

theorem passed_wontDo_iff {skipped : List String} :
    (if key ∈ skipped then StageStatus.wontDo else m key) = .wontDo ↔
      m key = .wontDo ∨ key ∈ skipped := by
  split
  · rename_i h
    exact ⟨fun _ => .inr h, fun _ => rfl⟩
  · rename_i h
    exact ⟨.inl, fun hor => hor.resolve_right h⟩

theorem recordPassedOver_wontDo_iff (hkeys : (stages.map (·.key)).Nodup)
    {walk : StageRoutePlan × List String} {branchTo : String} :
    recordPassedOver stages m walk.2 (if branchTo ≠ "" then r.fromKey else "")
        (if branchTo ≠ "" then walk.1.toKey else "") key = .wontDo ↔
      m key = .wontDo ∨ SteppedOver stages m r.fromKey branchTo walk.1 walk.2 key := by
  rw [recordPassedOver, SteppedOver, ← mem_between_iff hkeys]
  by_cases hbranch : branchTo ≠ "" ∧ walk.1.toKey ≠ ""
  · rw [if_pos hbranch.1, if_pos hbranch.1, if_pos hbranch.2, skipIntermediateStages_wontDo_iff,
      passed_wontDo_iff, and_iff_right hbranch]
    constructor
    · rintro ((hm | hskip) | ⟨hin, hpending⟩)
      · exact .inl hm
      · exact .inr (.inl hskip)
      · split at hpending
        · cases hpending
        · exact .inr (.inr ⟨hin, hpending⟩)
    · rintro (hm | hskip | ⟨hin, hpending⟩)
      · exact .inl (.inl hm)
      · exact .inl (.inr hskip)
      · by_cases hskip : key ∈ walk.2
        · exact .inl (.inr hskip)
        · rw [if_neg hskip]
          exact .inr ⟨hin, hpending⟩
  · have hnone : ¬ ((if branchTo ≠ "" then walk.1.toKey else "") ≠ "") := by
      by_cases hb : branchTo ≠ ""
      · rw [if_pos hb]
        exact fun h => hbranch ⟨hb, h⟩
      · rw [if_neg hb]
        exact fun h => h rfl
    rw [if_neg hnone, passed_wontDo_iff]
    exact or_congr_right (by rw [or_iff_left fun h => hbranch h.1])

theorem emptiedGroups_congr (h : ∀ s ∈ stages, m' s.key = .wontDo ↔ m s.key = .wontDo) :
    emptiedGroups stages m' = [] ↔ emptiedGroups stages m = [] := by
  rw [emptiedGroups_eq_nil_iff, emptiedGroups_eq_nil_iff]
  refine forall₂_congr fun group _ => exists_congr fun s => and_congr_right fun hs => ?_
  exact and_congr_right fun _ => not_congr (h s hs)

theorem forall_groups {P : String → Prop} : (∀ group ∈ groups stages, P group) ↔
    ∀ member ∈ stages, member.alternativeGroup ≠ "" → P member.alternativeGroup := by
  simp only [mem_groups]
  constructor
  · intro h member hmember hgroup
    exact h _ ⟨hgroup, member, hmember, rfl⟩
  · rintro h group ⟨hgroup, member, hmember, rfl⟩
    exact h member hmember hgroup

/-- **A route keeps every group alive** exactly when it spares a member of each. -/
theorem route_spares_iff (hkeys : (stages.map (·.key)).Nodup) (h : emptiedGroups stages m = []) :
    emptiedGroups stages (applyStageRoute stages transitions ticket m r).1 = [] ↔
      RouteSpares stages transitions ticket m r := by
  have hreset : ∀ toKey, emptiedGroups stages
      (resetUpstreamStages m stages r.fromKey toKey) = [] := by
    refine fun toKey => emptiedGroups_eq_nil_iff.mpr fun group hgroup => ?_
    obtain ⟨s, hs, hg, hm⟩ := emptiedGroups_eq_nil_iff.mp h group hgroup
    exact ⟨s, hs, hg, fun hreset => hm (resetUpstreamStages_wontDo hreset)⟩
  rw [applyStageRoute, RouteSpares]
  by_cases hreject : r.outcome = "reject"
  · refine iff_of_true ?_ (.inl hreject)
    split
    · exact h
    · dsimp only
      rw [if_pos (.inr hreject)]
      exact hreset _
  rw [or_iff_right hreject]
  cases hrouted : routed stages transitions ticket r with
  | error reason =>
    refine iff_of_true h fun first branchTo _ _ hsends => ?_
    cases hrouted.symm.trans ((routed_iff hreject).mpr hsends)
  | ok p =>
    obtain ⟨first, branchTo⟩ := p
    obtain ⟨walk, hwalk⟩ : ∃ walk,
      advancePastSkipped stages transitions ticket first r.outcome = walk := ⟨_, rfl⟩
    have honly : (∀ first' branchTo' landed passed,
        Sends stages transitions ticket r first' branchTo' →
          Walk stages transitions ticket r.outcome first' landed passed → landed.upstream = true ∨
            ∀ member ∈ stages, member.alternativeGroup ≠ "" →
              ∃ s ∈ stages, s.alternativeGroup = member.alternativeGroup ∧ m s.key ≠ .wontDo ∧
                ¬ SteppedOver stages m r.fromKey branchTo' landed passed s.key) ↔
        (walk.1.upstream = true ∨ ∀ group ∈ groups stages, ∃ s ∈ stages,
          s.alternativeGroup = group ∧ m s.key ≠ .wontDo ∧
            ¬ SteppedOver stages m r.fromKey branchTo walk.1 walk.2 s.key) := by
      rw [forall_groups]
      constructor
      · intro hall
        exact hall first branchTo walk.1 walk.2 ((routed_iff hreject).mp hrouted)
          (walk_iff.mp hwalk)
      · intro hone first' branchTo' landed passed hsends hlanded
        cases hrouted.symm.trans ((routed_iff hreject).mpr hsends)
        have hlanded : _ = (landed, passed) := walk_iff.mpr hlanded
        cases hwalk.symm.trans hlanded
        exact hone
    rw [honly]
    dsimp only
    rw [hwalk]
    by_cases hback : walk.1.upstream = true
    · rw [if_pos (.inl hback)]
      exact iff_of_true (hreset _) (.inl hback)
    · rw [if_neg (not_or.mpr ⟨hback, hreject⟩), or_iff_right hback]
      set passed := recordPassedOver stages m walk.2 (if branchTo ≠ "" then r.fromKey else "")
        (if branchTo ≠ "" then walk.1.toKey else "") with hpassed
      have hspared : emptiedGroups stages passed = [] ↔ ∀ group ∈ groups stages, ∃ s ∈ stages,
          s.alternativeGroup = group ∧ m s.key ≠ .wontDo ∧
            ¬ SteppedOver stages m r.fromKey branchTo walk.1 walk.2 s.key := by
        rw [emptiedGroups_eq_nil_iff]
        refine forall₂_congr fun group _ => exists_congr fun s => and_congr_right fun _ =>
          and_congr_right fun _ => ?_
        rw [ne_eq, hpassed, recordPassedOver_wontDo_iff hkeys, not_or]
      rw [← hspared]
      by_cases hfrom : passed r.fromKey = .wontDo
      · rw [if_pos hfrom]
      · rw [if_neg hfrom]
        cases hset : setStageStatus stages passed r.fromKey .done with
        | error reason => rfl
        | ok settled =>
          obtain rfl := setStageStatus_ok hset
          refine emptiedGroups_congr fun s _ => ?_
          show Function.update passed r.fromKey .done s.key = .wontDo ↔ _
          by_cases hkey : s.key = r.fromKey
          · rw [hkey, update_self]
            exact ⟨fun hd => (by cases hd), fun hw => absurd hw hfrom⟩
          · rw [update_of_ne hkey]

/-- A finished workflow keeps a survivor in every group: a member that is neither pending
    nor won't-do, or the terminal stage itself. -/
def SettleSpares (stages : List WorkflowStageDef) (m : StageMap) (terminalKey : String) : Prop :=
  ∀ group ∈ groups stages, ∃ s ∈ stages, s.alternativeGroup = group ∧
    m s.key ≠ .wontDo ∧ (m s.key ≠ .pending ∨ s.key = terminalKey)

theorem foldl_wontDo_iff (keys : List String) : ∀ m : StageMap,
    keys.foldl (fun m key => Function.update m key .wontDo) m key = .wontDo ↔
      m key = .wontDo ∨ key ∈ keys := by
  induction keys with
  | nil => exact fun m => ⟨.inl, fun h => h.resolve_right not_mem_nil⟩
  | cons k keys ih =>
    intro m
    rw [foldl_cons, ih, mem_cons, ← or_assoc]
    refine or_congr_left ?_
    by_cases hk : key = k
    · rw [hk, update_self]
      exact ⟨fun _ => .inr rfl, fun _ => rfl⟩
    · rw [update_of_ne hk, or_iff_left hk]

theorem settleUnreachedStages_wontDo_iff {terminalKey : String} (hs : stage ∈ stages) :
    (settleUnreachedStages stages m terminalKey).1 stage.key = .wontDo ↔
      m stage.key = .wontDo ∨ stage.key ≠ terminalKey ∧ m stage.key = .pending := by
  rw [settleUnreachedStages, foldl_wontDo_iff, mem_filter, decide_eq_true_iff,
    and_iff_right (mem_map_of_mem hs)]

/-- **A finished workflow keeps every group alive** exactly when each has a member that was
    reached, or that ends it. -/
theorem settle_spares_iff {terminalKey : String} :
    emptiedGroups stages (settleUnreachedStages stages m terminalKey).1 = [] ↔
      SettleSpares stages m terminalKey := by
  rw [emptiedGroups_eq_nil_iff]
  refine forall₂_congr fun group _ => exists_congr fun s => and_congr_right fun hs =>
    and_congr_right fun _ => ?_
  rw [ne_eq, settleUnreachedStages_wontDo_iff hs, not_or, not_and_or, not_not, or_comm (a := _ = _)]

/-! ## Whole runs -/

inductive StageCall where
  | route (ticket : Ticket) (r : RouteRequest)
  | settle (terminalKey : String)
  | skip (key : String)
  /-- A stage runs, waits, fails or is parked: any status an agent's skip is not needed for. -/
  | mark (key : String) (status : {status : StageStatus // status ≠ .wontDo})

def StageCall.apply (stages : List WorkflowStageDef) (transitions : List Transition)
    (m : StageMap) : StageCall → StageMap
  | route ticket r => (applyStageRoute stages transitions ticket m r).1
  | settle terminalKey => (settleUnreachedStages stages m terminalKey).1
  | skip key => ((skipStage stages m key).toOption).getD m
  | mark key status => ((setStageStatus stages m key status.1).toOption).getD m

/-- A write spares every group: what an automatic pruning has to meet. -/
def StageCall.Spares (stages : List WorkflowStageDef) (transitions : List Transition)
    (m : StageMap) : StageCall → Prop
  | route ticket r => RouteSpares stages transitions ticket m r
  | settle terminalKey => SettleSpares stages m terminalKey
  | skip _ => True
  | mark _ _ => True

/-- The stage maps of a ticket, from the initial one, by writes that spare every group. -/
inductive SparingRun (stages : List WorkflowStageDef) (transitions : List Transition) :
    StageMap → Prop
  | start : SparingRun stages transitions initialStages
  | step {m : StageMap} (c : StageCall) (run : SparingRun stages transitions m)
      (spares : c.Spares stages transitions m) :
      SparingRun stages transitions (c.apply stages transitions m)

theorem StageCall.emptiedGroups_apply (hkeys : (stages.map (·.key)).Nodup) (c : StageCall)
    (h : emptiedGroups stages m = []) (hspares : c.Spares stages transitions m) :
    emptiedGroups stages (c.apply stages transitions m) = [] := by
  cases c with
  | route ticket r => exact (route_spares_iff hkeys h).mpr hspares
  | settle terminalKey => exact settle_spares_iff.mpr hspares
  | skip key =>
    rw [StageCall.apply]
    cases hskip : skipStage stages m key with
    | error reason => exact h
    | ok m' => exact emptiedGroups_skipStage hkeys h hskip
  | mark key status =>
    rw [StageCall.apply]
    cases hset : setStageStatus stages m key status.1 with
    | error reason => exact h
    | ok m' =>
      obtain rfl := setStageStatus_ok hset
      exact emptiedGroups_update h status.2

theorem SparingRun.emptiedGroups_eq_nil (hkeys : (stages.map (·.key)).Nodup)
    (run : SparingRun stages transitions m) : emptiedGroups stages m = [] := by
  induction run with
  | start => exact emptiedGroups_initial
  | step c _ spares ih => exact c.emptiedGroups_apply hkeys ih spares

/-- **When pruning keeps every group alive.** In a run whose prunings each spare a member of every
    group no group is ever emptied; and from a map with no emptied group, a route, or a finished
    workflow, empties none exactly when it spares one of each. -/
theorem pruning_keeps_groups (stages : List WorkflowStageDef) (transitions : List Transition)
    (hkeys : (stages.map (·.key)).Nodup) :
    (∀ m, SparingRun stages transitions m → emptiedGroups stages m = []) ∧
      ∀ m, emptiedGroups stages m = [] →
        (∀ ticket r, emptiedGroups stages (applyStageRoute stages transitions ticket m r).1 = [] ↔
          RouteSpares stages transitions ticket m r) ∧
        ∀ terminalKey, emptiedGroups stages (settleUnreachedStages stages m terminalKey).1 = [] ↔
          SettleSpares stages m terminalKey :=
  ⟨fun _ run => run.emptiedGroups_eq_nil hkeys,
    fun _ h => ⟨fun _ _ => route_spares_iff hkeys h, fun _ => settle_spares_iff⟩⟩

/-- A classify stage that may send light work straight to the gate, past the two
    implementations of one group. -/
def lightWorkflow : List WorkflowStageDef :=
  [{ key := "triage", order := 0, stageType := .classify
     classifyRoutes := [{ agentId := "triage", toStage := "gate" }] },
   { key := "backend-impl", order := 1, optional := true, alternativeGroup := "impl" },
   { key := "frontend-impl", order := 2, optional := true, alternativeGroup := "impl" },
   { key := "gate", order := 3, stageType := .gate },
   { key := "done", order := 4, terminal := true }]

def lightTicket : Ticket := { decision := fun stage => stage.classifyRoutes.head? }

theorem pruning_keeps_groups_light :
    (∀ m, SparingRun lightWorkflow [] m → emptiedGroups lightWorkflow m = []) ∧
      ∀ m, emptiedGroups lightWorkflow m = [] → (∀ ticket r,
          emptiedGroups lightWorkflow (applyStageRoute lightWorkflow [] ticket m r).1 = [] ↔
          RouteSpares lightWorkflow [] ticket m r) ∧
        ∀ terminalKey, emptiedGroups lightWorkflow
            (settleUnreachedStages lightWorkflow m terminalKey).1 = [] ↔
          SettleSpares lightWorkflow m terminalKey :=
  pruning_keeps_groups lightWorkflow [] (by decide)

/-- The branch leaves both implementations won't-do, and so does a workflow that finishes
    with neither reached: from the initial map, where no group is emptied, the group ends
    with every member pruned. -/
theorem pruning_empties_group : emptiedGroups lightWorkflow initialStages = [] ∧
      emptiedGroups lightWorkflow
        (applyStageRoute lightWorkflow [] lightTicket initialStages { fromKey := "triage" }).1 =
          ["impl"] ∧
      emptiedGroups lightWorkflow
        (settleUnreachedStages lightWorkflow initialStages "done").1 = ["impl"] := by
  refine ⟨emptiedGroups_initial, ?_, ?_⟩ <;> decide +kernel

end Loregarden.Stages
