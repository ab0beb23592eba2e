import Loregarden.LearningOutcomeModel
import Loregarden.RunProofs
import Mathlib.Algebra.Order.Group.Nat
import Mathlib.Algebra.Order.Sub.Basic

/-! # What the grading of learnings keeps

A call that settles nothing leaves nothing to settle exactly where the rows it reads reach the first
one that can be decided. A settled row keeps its grade while no signal worse than it is recorded of
a run that is the last of its stage. -/

namespace Loregarden.LearningOutcomes

open Lanes (RunStatus TicketState)
open Runs List

variable {w : World} {now id start : Nat} {run : AgentRun} {e : Event}

/-! ## The batch -/

/-- A row `settle_pending` looks for. -/
def waiting (w : World) (k : Nat) : Bool := (w.applications[k]?).any (pending w)

def decided (w : World) (k : Nat) : Bool := (w.applications[k]?).any (settlementOf w · |>.settled)

/-- The first row that can be decided has fewer than `limit` waiting ones before it. -/
def Served (w : World) (limit : Nat) : Prop :=
  ∀ k, waiting w k ∧ decided w k → (∀ j < k, ¬ (waiting w j ∧ decided w j)) →
    ((List.range k).filter (waiting w)).length < limit

theorem mem_take_filter_range {p : Nat → Bool} {n limit k : Nat} :
    k ∈ ((List.range n).filter p).take limit ↔
      k < n ∧ p k ∧ ((List.range k).filter p).length < limit := by
  induction n with
  | zero => simp
  | succ n ih =>
    rw [range_succ, filter_append, take_append, mem_append, ih]
    by_cases hk : k = n
    · subst hk
      cases hp : p k <;> simp [hp, mem_take_iff_getElem]
    · have hnot : k ∉ ([n].filter p).take (limit - ((List.range n).filter p).length) :=
        fun h => hk (mem_singleton.mp (mem_filter.mp (mem_of_mem_take h)).1)
      simp only [hnot, or_false, Nat.lt_succ_iff_lt_or_eq, hk]

theorem mem_due {limit k : Nat} : k ∈ due w limit ↔ (waiting w k ∧ decided w k) ∧
      ((List.range k).filter (waiting w)).length < limit := by
  rw [due, mem_filter, batch]
  refine (and_congr_left fun _ => mem_take_filter_range).trans ?_
  constructor
  · rintro ⟨⟨-, hw, hlt⟩, hd⟩
    exact ⟨⟨hw, hd⟩, hlt⟩
  · rintro ⟨⟨hw, hd⟩, hlt⟩
    refine ⟨⟨?_, hw, hlt⟩, hd⟩
    obtain ⟨a, ha, -⟩ := (Option.any_eq_true _ _).mp hw
    exact (List.getElem?_eq_some_iff.mp ha).1

theorem settles_nothing_iff (w : World) (limit now : Nat) :
    ((settlePending w limit now).1 = 0 → ∀ k, ¬ (waiting w k ∧ decided w k)) ↔ Served w limit := by
  constructor
  · intro h k hk hfirst
    by_contra hlate
    refine h (length_eq_zero_iff.mpr (eq_nil_iff_forall_not_mem.mpr fun j hj => ?_)) k hk
    obtain ⟨hdue, hlt⟩ := mem_due.mp hj
    rcases Nat.lt_or_ge j k with hjk | hkj
    · exact hfirst j hjk hdue
    · exact hlate (((range_sublist.mpr hkj).filter _).length_le.trans_lt hlt)
  · intro h hnone
    have hnil : due w limit = [] := length_eq_zero_iff.mp hnone
    intro k
    induction k using Nat.strong_induction_on with
    | _ k ih =>
      intro hk
      have hmem : k ∈ due w limit := mem_due.mpr ⟨hk, h k hk ih⟩
      rw [hnil] at hmem
      exact absurd hmem not_mem_nil

/-! ## The window -/

/-- What an event adds to the signals of a run. -/
def tells (run : AgentRun) : Event → Option LearningOutcomeRung
  | .record type ticketId payload =>
    if ticketId = run.ticketId then eventRung run.stageKey type payload else none
  | .file ticketId kind title =>
    if ticketId = run.ticketId ∧ reroutes run.stageKey kind title then some .rerouted else none
  | _ => none

theorem signals_act {ended : Option Nat} (rung : LearningOutcomeRung) :
    signals (act w now e) run start ended rung =
      (signals w run start ended rung || inWindow start ended now && tells run e = some rung) := by
  cases e with
  | record type ticketId payload =>
    by_cases ht : ticketId = run.ticketId <;>
      simp [act, signals, tells, ht, Bool.or_comm, Bool.or_left_comm]
  | file ticketId kind title =>
    by_cases ht : ticketId = run.ticketId <;> cases reroutes run.stageKey kind title <;>
      cases rung <;> simp [act, signals, tells, ht, Bool.or_assoc]
  | _ => simp [act, signals, tells, settlePending]

/-- No time is later than the clock. -/
structure Clocked (w : World) : Prop where
  runs : ∀ r ∈ w.runs, ∀ t ∈ r.startedAt, t ≤ w.clock
  events : ∀ event ∈ w.events, event.createdAt ≤ w.clock

/-- A run of the stage started at `t`, after this one. -/
def Followed (w : World) (id : Nat) (run : AgentRun) (start t : Nat) : Prop :=
  ∃ i other, w.runs[i]? = some other ∧ other.ticketId = run.ticketId ∧
    other.stageKey = run.stageKey ∧ i ≠ id ∧ other.startedAt = some t ∧ start < t

theorem mem_followed {t : Nat} : (t ∈ w.runs.zipIdx.filterMap fun (other, otherId) =>
      if other.ticketId = run.ticketId ∧ other.stageKey = run.stageKey ∧ otherId ≠ id then
        other.startedAt.filter (start < ·)
      else none) ↔ Followed w id run start t := by
  simp only [mem_filterMap, Prod.exists, mem_zipIdx_iff_getElem?, Followed]
  grind [Option.filter_eq_some_iff]

theorem stageWindowEnd_eq_none :
    stageWindowEnd w id run start = none ↔ ∀ t, ¬ Followed w id run start t := by
  rw [stageWindowEnd, List.min?_eq_none_iff, eq_nil_iff_forall_not_mem]
  exact forall_congr' fun t => not_congr mem_followed

theorem stageWindowEnd_eq_some {t : Nat} : stageWindowEnd w id run start = some t ↔
      Followed w id run start t ∧ ∀ u, Followed w id run start u → t ≤ u := by
  rw [stageWindowEnd, List.min?_eq_some_iff]
  exact and_congr mem_followed (forall_congr' fun u => imp_congr_left mem_followed)

/-- The run an event starts. -/
def starts (w : World) : Event → Option AgentRun
  | .write id run => if startedAt w id = none ∧ run.startedAt.isSome then some run else none
  | _ => none

section

variable (hok : allowed w now e)
include hok

theorem runs_act (i : Nat) :
    (act w now e).runs[i]? = w.runs[i]? ∨ ∃ r, e = .write i r ∧ (act w now e).runs[i]? = some r ∧
      (∀ old ∈ w.runs[i]?, (r.ticketId = old.ticketId ∧ r.stageKey = old.stageKey) ∧
        (terminal old.status → r = old)) ∧
      (r.startedAt = startedAt w i ∨ starts w e = some r ∧ r.startedAt = some now) := by
  cases e with
  | write id r => grind [act, allowed, starts]
  | _ => exact .inl rfl

theorem Followed.act {t : Nat} (h : Followed w id run start t) :
    Followed (act w now e) id run start t := by
  obtain ⟨i, other, h⟩ := h
  have hwrite := runs_act hok i
  grind [Followed, starts, startedAt]

theorem followed_of_act {t : Nat} (h : Followed (act w now e) id run start t) :
    Followed w id run start t ∨ t = now ∧
      ∃ r ∈ starts w e, r.ticketId = run.ticketId ∧ r.stageKey = run.stageKey := by
  obtain ⟨i, other, h⟩ := h
  have hwrite := runs_act hok i
  grind [Followed, startedAt]

omit hok in
theorem Followed.le_clock {t : Nat} (hc : Clocked w) (h : Followed w id run start t) :
    t ≤ w.clock := by
  obtain ⟨i, other, hi, -, -, -, hstart, -⟩ := h
  exact hc.runs other (mem_of_getElem? hi) t hstart

/-- A window that has closed stays as it is. -/
theorem closed_act {t : Nat} (hc : Clocked w) (hnow : w.clock < now)
    (h : stageWindowEnd w id run start = some t) :
    stageWindowEnd (act w now e) id run start = some t ∧
      signals (act w now e) run start (some t) = signals w run start (some t) := by
  obtain ⟨hf, hleast⟩ := stageWindowEnd_eq_some.mp h
  have ht : t < now := (hf.le_clock hc).trans_lt hnow
  refine ⟨stageWindowEnd_eq_some.mpr ⟨hf.act hok, fun u hu => ?_⟩, funext fun rung => ?_⟩
  · rcases followed_of_act hok hu with hu | ⟨rfl, -⟩
    · exact hleast u hu
    · exact ht.le
  · simp [signals_act, inWindow, ht.not_gt]

/-- An open one stays open, or closes with the start of a run of the stage. -/
theorem open_act (h : stageWindowEnd w id run start = none) :
    stageWindowEnd (act w now e) id run start = none ∨
      stageWindowEnd (act w now e) id run start = some now ∧
        ∃ r ∈ starts w e, r.ticketId = run.ticketId ∧ r.stageKey = run.stageKey := by
  cases hend : stageWindowEnd (act w now e) id run start with
  | none => exact .inl rfl
  | some t =>
    rcases followed_of_act hok (stageWindowEnd_eq_some.mp hend).1 with hold | ⟨rfl, hrest⟩
    · exact absurd hold (stageWindowEnd_eq_none.mp h t)
    · exact .inr ⟨rfl, hrest⟩

end

/-- A block that is found in an open window is found in what becomes of it. -/
theorem blocked_act {ended : Option Nat} (hc : Clocked w) (hnow : w.clock < now)
    (hended : ended = none ∨ ended = some now) (h : signals w run start none .blocked) :
    signals (act w now e) run start ended .blocked := by
  rw [signals_act, Bool.or_eq_true]
  refine .inl ?_
  simp only [signals, Bool.or_eq_true, any_eq_true] at h ⊢
  rcases h with ⟨event, hmem, hevent⟩ | h
  · refine .inl ⟨event, hmem, ?_⟩
    have hlt : event.createdAt < now := (hc.events event hmem).trans_lt hnow
    rcases hended with rfl | rfl <;> simpa [inWindow, hlt] using hevent
  · simp at h

theorem tells_ne_cleanPass : tells run e ≠ some .cleanPass := by
  cases e with
  | record type ticketId payload => cases payload <;> grind [tells, eventRung]
  | file ticketId kind title => grind [tells]
  | _ => simp [tells]

/-- A rung no worse than the grade does not change it. -/
theorem grade_insert {found found' : LearningOutcomeRung → Bool} {status : RunStatus}
    {q : Option LearningOutcomeRung} (hfound : ∀ r, found' r = (found r || q = some r))
    (hclean : q ≠ some .cleanPass)
    (hq : ∀ r ∈ q, ((worst found).or (unmarked status)).any (r.index ≤ ·.index)) :
    (worst found').or (unmarked status) = (worst found).or (unmarked status) := by
  cases q with
  | none => rw [show found' = found from funext fun r => by simp [hfound]]
  | some r =>
    have h := hq r rfl
    cases hw : worst found with
    | none =>
      rw [hw, Option.none_or, unmarked] at h
      split at h
      · cases r <;> simp [LearningOutcomeRung.index] at h hclean
      · cases h
    | some o =>
      rw [hw, Option.some_or] at h
      have ho : found o := List.find?_some hw
      rw [← hw]
      cases o <;> cases r <;> simp [LearningOutcomeRung.index] at h hclean <;>
        simp only [worst, List.find?, hfound, ho, Bool.true_or, decide_true] <;>
        cases found .rerouted <;> simp

/-! ## A row -/

theorem ticketFinished_act {ticketId : Nat} (h : ticketFinished w ticketId)
    (hstate : ∀ state, e = .setState ticketId state → finished state) :
    ticketFinished (act w now e) ticketId := by
  cases e with
  | setState t state =>
    by_cases ht : ticketId = t
    · subst ht
      simpa [ticketFinished, act] using hstate state rfl
    · simpa [ticketFinished, act, ht] using h
  | _ => exact h

theorem blocked_of_grade {found : LearningOutcomeRung → Bool} {status : RunStatus}
    (h : (worst found).or (unmarked status) = some .blocked) : found .blocked := by
  cases hb : found .blocked with
  | true => rfl
  | false =>
    simp only [worst, List.find?, hb, unmarked] at h
    repeat' split at h
    all_goals simp at h

/-- The last run of a stage on a finished ticket. -/
theorem deriveSettlement_last {ticketId : Nat} (hterm : terminal run.status)
    (hcan : run.status ≠ .cancelled) (hs : run.startedAt = some start)
    (ht : run.ticketId = some ticketId) (hend : stageWindowEnd w id run start = none)
    (hfin : ticketFinished w ticketId) :
    deriveSettlement w id run =
      { settled := true
        rung := (worst (signals w run start none)).or (unmarked run.status) } := by
  cases hb : signals w run start none .blocked <;>
    simp [deriveSettlement, hterm, hcan, hs, ht, hend, hfin, hb, worst]

/-- What an event has to leave alone for the last run of its stage to keep its grade. -/
def Calm (w : World) (id : Nat) (outcome : Option LearningOutcomeRung) (e : Event) : Prop :=
  outcome ≠ some .blocked → ∀ run ∈ w.runs[id]?, run.status ≠ .cancelled →
    ∀ start ∈ run.startedAt, ∀ ticketId ∈ run.ticketId, stageWindowEnd w id run start = none →
      (∀ state, e = .setState ticketId state → finished state) ∧
      (∀ r ∈ starts w e, ¬ (r.ticketId = run.ticketId ∧ r.stageKey = run.stageKey)) ∧
      ∀ rung ∈ tells run e, outcome.any (rung.index ≤ ·.index)

theorem deriveSettlement_act (hok : allowed w now e) (hc : Clocked w) (hnow : w.clock < now)
    (hrun : w.runs[id]? = some run) (hset : (deriveSettlement w id run).settled)
    (hcalm : Calm w id (deriveSettlement w id run).rung e) :
    deriveSettlement (act w now e) id run = deriveSettlement w id run := by
  by_cases hterm : ¬ terminal run.status
  · simp [deriveSettlement, hterm]
  by_cases hcan : run.status = .cancelled
  · simp [deriveSettlement, hcan]
  cases hs : run.startedAt with
  | none => simp [deriveSettlement, hs]
  | some start =>
    cases ht : run.ticketId with
    | none => simp [deriveSettlement, hs, ht]
    | some ticketId =>
      have hw : ∀ w, deriveSettlement w id run = _ := fun w => by
        rw [deriveSettlement, if_neg hterm, if_neg hcan, hs, ht]
      cases hend : stageWindowEnd w id run start with
      | some t =>
        obtain ⟨hend', hsig⟩ := closed_act hok hc hnow hend
        simp [hw, hend, hend', hsig]
      | none =>
        have hopen := open_act hok hend
        cases hb : signals w run start none .blocked with
        | true =>
          have hb' := blocked_act (e := e) hc hnow (hopen.imp_right And.left) hb
          simp [hw, hend, hb, hb']
        | false =>
          have hfin : ticketFinished w ticketId := by
            by_contra hfin
            simp [hw, hend, hb, hfin] at hset
          have hlast := deriveSettlement_last (not_not.mp hterm) hcan hs ht hend hfin
          rw [hlast] at hcalm ⊢
          obtain ⟨hstate, hstart, htells⟩ := hcalm
            (fun h => absurd (blocked_of_grade h) (by simp [hb]))
            run hrun hcan start hs ticketId ht hend
          rcases hopen with hend' | ⟨-, r, hr, hstage⟩
          · rw [deriveSettlement_last (not_not.mp hterm) hcan hs ht hend'
              (ticketFinished_act hfin hstate)]
            have hle : start ≤ now := (hc.runs run (mem_of_getElem? hrun) start hs).trans hnow.le
            rw [grade_insert (fun rung => (signals_act rung).trans (by simp [inWindow, hle]))
              tells_ne_cleanPass htells]
          · exact absurd hstage (hstart r hr)

theorem Clocked.after (hc : Clocked w) (hok : allowed w now e) (hnow : w.clock < now) :
    Clocked (after w (now, e)) := by
  constructor
  · intro r hr t ht
    obtain ⟨i, hi⟩ := mem_iff_getElem?.mp hr
    have hwrite := runs_act hok i
    have hold := fun old h => hc.runs old (mem_of_getElem? (i := i) h)
    grind [startedAt, LearningOutcomes.after]
  · intro event hevent
    have hold : event ∈ w.events ∨ event.createdAt = now := by
      cases e with
      | record type ticketId payload =>
        rcases mem_append.mp hevent with h | h
        · exact .inl h
        · exact .inr (congrArg _ (mem_singleton.mp h))
      | _ => exact .inl hevent
    rcases hold with h | h
    · exact (hc.events event h).trans hnow.le
    · exact h.le

/-- A settled row is as it was, or has just been given its grade. -/
theorem applications_act {k : Nat} {a : LearningApplication}
    (h : (act w now e).applications[k]? = some a) (hset : a.settledAt.isSome) :
    w.applications[k]? = some a ∨
      (∃ limit, e = .settle limit) ∧ settlementOf w a = ⟨true, a.outcome⟩ := by
  cases e with
  | apply runId =>
    rcases Nat.lt_or_ge k w.applications.length with hk | hk
    · exact .inl ((List.getElem?_append_left hk).symm.trans h)
    · rw [act, List.getElem?_append_right hk] at h
      rw [mem_singleton.mp (mem_of_getElem? h)] at hset
      cases hset
  | settle limit =>
    rw [act, settlePending, List.getElem?_mapIdx] at h
    obtain ⟨b, hb, rfl⟩ := Option.map_eq_some_iff.mp h
    by_cases hdue : k ∈ due w limit
    · have hsettled := (mem_due.mp hdue).1.2
      rw [decided, hb, Option.any_some] at hsettled
      rw [if_pos hdue]
      refine .inr ⟨⟨limit, rfl⟩, ?_⟩
      calc settlementOf w _ = settlementOf w b := rfl
        _ = _ := by rw [← hsettled]
    · rw [if_neg hdue]
      exact .inl hb
  | _ => exact .inl h

def Still (k : Nat) (w : World) (e : Nat × Event) : Prop :=
  ∀ a ∈ w.applications[k]?, a.settledAt.isSome → Calm w a.runId a.outcome e.2

/-- Row `k` has the grade its run would be given. -/
def Graded (k : Nat) (w : World) : Prop :=
  ∀ a ∈ w.applications[k]?, a.settledAt.isSome → settlementOf w a = ⟨true, a.outcome⟩

theorem Graded.after {k : Nat} (hg : Graded k w) (hc : Clocked w) (hok : allowed w now e)
    (hnow : w.clock < now) (hstill : Still k w (now, e)) : Graded k (after w (now, e)) := by
  intro a ha hset
  rcases applications_act ha hset with hold | ⟨⟨limit, rfl⟩, hgrade⟩
  · have hgrade := hg a hold hset
    cases hrun : w.runs[a.runId]? with
    | none => simp [settlementOf, hrun] at hgrade
    | some run =>
      simp only [settlementOf, hrun] at hgrade
      have hterm : terminal run.status := by
        by_contra hterm
        simp [deriveSettlement, hterm] at hgrade
      have hsame : (act w now e).runs[a.runId]? = some run := by
        rcases runs_act hok a.runId with hsame | ⟨r, -, hr, hold, -⟩
        · exact hsame.trans hrun
        · exact hr.trans (congrArg _ ((hold run hrun).2 hterm))
      calc settlementOf (LearningOutcomes.after w (now, e)) a
          = deriveSettlement (act w now e) a.runId run := by
            simp only [settlementOf, LearningOutcomes.after, hsame]
            rfl
        _ = deriveSettlement w a.runId run :=
            deriveSettlement_act hok hc hnow hrun (by rw [hgrade]) (by
              rw [hgrade]
              exact hstill a hold hset)
        _ = ⟨true, a.outcome⟩ := hgrade
  · exact hgrade

/-- **Grading is steady.** A call that settles nothing leaves nothing that could be settled exactly
    where the first such row has fewer than `limit` rows waiting before it, and a row keeps its
    grade in a run whose events leave it alone. -/
theorem grading_steady (k limit now : Nat) (w : World) :
    (((settlePending w limit now).1 = 0 → ∀ k, ¬ (waiting w k ∧ decided w k)) ↔ Served w limit) ∧
    ∀ tr, Run (Guarded Step (Still k)) {} tr w → Graded k w := by
  refine ⟨settles_nothing_iff w limit now, fun tr hrun => ?_⟩
  have hinv : Clocked w ∧ Graded k w := by
    refine Run.invariant (P := fun w => Clocked w ∧ Graded k w) ?_ ⟨?_, ?_⟩ hrun
    · rintro w ⟨now, e⟩ w' ⟨hc, hg⟩ ⟨hstill, ⟨hnow, hok⟩, rfl⟩
      exact ⟨hc.after hok hnow, hg.after hc hok hnow hstill⟩
    · exact ⟨fun _ h => absurd h not_mem_nil, fun _ h => absurd h not_mem_nil⟩
    · intro a ha
      cases ha
  exact hinv.2

theorem Run.of_times {tr : List (Nat × Event)}
    (h : meets after (fun w e => w.clock < e.1 && allowed w e.1 e.2) {} tr = true) :
    Run Step {} tr (tr.foldl after {}) :=
  Run.of_meets (fun _ _ h => ⟨by simpa using h, rfl⟩) h

def build : AgentRun := { ticketId := some 0, stageKey := "build", startedAt := some 1 }

/-- A clean pass of a build, on a ticket that is done. -/
def cleanPass : List (Nat × Event) :=
  [(1, .write 0 build), (2, .apply 0), (3, .write 0 { build with status := .succeeded }),
    (4, .setState 0 .done), (5, .settle 1)]

/-- Behind it, rework of another ticket is filed. -/
def reworkBeside : List (Nat × Event) :=
  cleanPass ++ [(6, .file (some 1) "rework_feedback" (reworkFeedbackArtifactTitle "build"))]

theorem reworkBeside_graded : (((reworkBeside.foldl after {}).applications[0]?).map
    (settlementOf (reworkBeside.foldl after {}))) = some ⟨true, some .cleanPass⟩ := by
  have hrun : Run (Guarded Step (Still 0)) {} reworkBeside (reworkBeside.foldl after {}) := by
    refine .cons ⟨?_, by decide, rfl⟩ (.cons ⟨?_, by decide, rfl⟩ (.cons ⟨?_, by decide, rfl⟩
      (.cons ⟨?_, by decide, rfl⟩ (.cons ⟨?_, by decide, rfl⟩ (.cons ⟨?_, by decide, rfl⟩
        (.nil _))))))
    all_goals
      intro a ha hset
      cases ha
    · cases hset
    · cases hset
    · cases hset
    · -- the row is settled, and the last event tells nothing of its run
      intro _ run hrun _ start _ ticketId hticket _
      cases hrun
      cases hticket
      exact ⟨nofun, nofun, nofun⟩
  exact congrArg some ((grading_steady 0 1 0 _).2 _ hrun _ rfl rfl)

/-- A row that cannot be decided keeps the one behind it from being read, and rework that is
    recorded of a finished ticket makes the grade of its last run worse. -/
theorem grading_starves_and_drifts :
    (∃ tr w, Run Step {} tr w ∧ (settlePending w 1 0).1 = 0 ∧ waiting w 1 ∧ decided w 1) ∧
    ∃ w, Run Step {} (cleanPass ++
        [(6, .file (some 0) "rework_feedback" (reworkFeedbackArtifactTitle "build"))]) w ∧
      (w.applications[0]?).any fun a =>
        a.outcome = some .cleanPass ∧ settlementOf w a = ⟨true, some .rerouted⟩ := by
  refine ⟨⟨cleanPass.take 3 ++ [(4, .write 1 ⟨none, "", .cancelled, none⟩), (5, .apply 1)],
    _, Run.of_times (by decide), ?_⟩, _, Run.of_times (by decide), ?_⟩
  · decide
  · decide

end Loregarden.LearningOutcomes
