import Loregarden.OrchestrationModel
import Loregarden.RunProofs

/-! # One orchestration drives a ticket

    A claim, a start and an adoption decide from a read and commit later.
    **`one_orchestration_drives`**: while what each of them read is still so when it
    commits, and a finish leaves a run finished, no ticket has two orchestrations
    that are claimed or driving, no claim is adopted twice, and none that was
    finished drives again.

    * `commit_single`, `finish_single`: what one write keeps;
    * `claimOrchestrationRun_stands`, `startOrchestrationRun_stands`: a call that
      commits before anyone else does meets the condition. -/

namespace Loregarden.Orchestrations

open Ranked Runs Text List Nat Keyed
open Lanes (TicketId Instant OrchestrationRunStatus)

variable {rowOrder : Nat → Nat} {t : RunTable} {s s' : Drives} {session run : Nat}
  {ticketId : TicketId} {ask : DriveAsk} {ticket : TicketView} {code : String} {now : Instant}
  {r r' : OrchestrationRun}

theorem mem_driving : r ∈ t.driving ticketId ↔
    r ∈ t.rows ∧ r.ticketId = ticketId ∧ r.status.live = true := by
  rw [RunTable.driving, mem_filter, decide_eq_true_iff]

theorem findActiveOrchestrationRun_eq_none :
    findActiveOrchestrationRun rowOrder t ticketId = none ↔ t.driving ticketId = [] := by
  rw [findActiveOrchestrationRun, List.head?_eq_none_iff, ← length_eq_zero_iff,
    length_insertionSort, length_eq_zero_iff]

theorem findActiveOrchestrationRun_mem
    (h : findActiveOrchestrationRun rowOrder t ticketId = some r) : r ∈ t.driving ticketId :=
  (mem_insertionSort _).mp (mem_of_head? h)

/-! ## What is kept -/

/-- No ticket has two orchestrations that are claimed or driving. -/
def Once (t : RunTable) : Prop :=
  ∀ r ∈ t.rows, ∀ r' ∈ t.rows, r.status.live = true → r'.status.live = true →
    r.ticketId = r'.ticketId → r.id = r'.id

/-- One driver a ticket; adopted claims are adopted, and finished runs are finished. -/
structure Single (s : Drives) : Prop where
  once : Once s.runs
  adoptedOnce : (s.adoptions.map Prod.snd).Nodup
  adopted : ∀ a ∈ s.adoptions, a.2 < s.runs.next ∧
    ∀ r ∈ s.runs.rows, r.id = a.2 → r.status ≠ .queued
  ended : ∀ id ∈ s.ended, id < s.runs.next ∧ ∀ r ∈ s.runs.rows, r.id = id → r.status.live = false
  held : ∀ session run, s.phase session = .finishing run → run < s.runs.next

/-- What a session read is still so when it commits; and a finish finishes. -/
def Stands (rowOrder : Nat → Nat) (s : Drives) (session : Nat) : Move → Prop
  | .commit ticket _ _ =>
    match s.phase session with
    | .claiming ticketId _ => findActiveOrchestrationRun rowOrder s.runs ticketId = none
    | .starting ticketId _ =>
      terminalTicketState ticket.state = true ∨
        findActiveOrchestrationRun rowOrder s.runs ticketId = none
    | .adopting claim _ => (s.runs.get claim.id).map (·.status) = some .queued
    | _ => True
  | .finish status _ _ => status.live = false
  | _ => True

def DriveStep (rowOrder : Nat → Nat) (s : Drives) (step : Nat × Move) (s' : Drives) : Prop :=
  s' = s.move rowOrder step.1 step.2

abbrev StandingStep (rowOrder : Nat → Nat) : Drives → Nat × Move → Drives → Prop :=
  Guarded (DriveStep rowOrder) fun s step => Stands rowOrder s step.1 step.2

theorem Drives.stand_phase {s : Drives} {phase : Phase}
    (hs : ∀ x run, s.phase x = .finishing run → run < s.runs.next)
    (hp : ∀ run, phase = .finishing run → run < s.runs.next) :
    ∀ x run, (s.stand session phase).phase x = .finishing run → run < s.runs.next := by
  intro x run h
  have h : Function.update s.phase session phase x = .finishing run := h
  rw [Function.update_apply] at h
  split at h
  · exact hp run h
  · exact hs x run h

theorem Single.stand (h : Single s) {phase : Phase}
    (hp : ∀ run, phase = .finishing run → run < s.runs.next) : Single (s.stand session phase) :=
  ⟨h.once, h.adoptedOnce, h.adopted, h.ended, Drives.stand_phase h.held hp⟩

theorem Once.insert (h : Once t) (hr : r.id = t.next) (hfree : r.status.live = false ∨
      findActiveOrchestrationRun rowOrder t r.ticketId = none) : Once (t.insert r hr) := by
  have halone : ∀ x ∈ t.rows, x.status.live = true → r.status.live = true →
      x.ticketId ≠ r.ticketId := by
    intro x hx hxl hrl ht
    rcases hfree with hover | hnone
    · rw [hover] at hrl
      cases hrl
    · rw [findActiveOrchestrationRun_eq_none] at hnone
      have hmem : x ∈ t.driving r.ticketId := mem_driving.mpr ⟨hx, ht, hxl⟩
      rw [hnone] at hmem
      cases hmem
  intro x hx y hy hxl hyl ht
  rcases (mem_insert hr).mp hx with hxold | hxnew <;> rcases (mem_insert hr).mp hy with hyold | hynew
  · exact h x hxold y hyold hxl hyl ht
  · exact absurd (hynew ▸ ht) (halone x hxold hxl (hynew ▸ hyl))
  · exact absurd (hxnew ▸ ht.symm) (halone y hyold hyl (hxnew ▸ hxl))
  · rw [hxnew, hynew]

theorem Single.insert (h : Single s) (hr : r.id = s.runs.next) (hfree : r.status.live = false ∨
      findActiveOrchestrationRun rowOrder s.runs r.ticketId = none) :
    Single { s with runs := s.runs.insert r hr } where
  once := Once.insert h.once hr hfree
  adoptedOnce := h.adoptedOnce
  adopted a ha := by
    obtain ⟨hlt, hq⟩ := h.adopted a ha
    refine ⟨lt_succ_of_lt hlt, fun x hx hid => ?_⟩
    rcases (mem_insert hr).mp hx with hx | rfl
    · exact hq x hx hid
    · exact absurd (hid.symm.trans hr) (Nat.ne_of_lt hlt)
  ended id hid := by
    obtain ⟨hlt, hl⟩ := h.ended id hid
    refine ⟨lt_succ_of_lt hlt, fun x hx hx' => ?_⟩
    rcases (mem_insert hr).mp hx with hx | rfl
    · exact hl x hx hx'
    · exact absurd (hx'.symm.trans hr) (Nat.ne_of_lt hlt)
  held x run hx := lt_succ_of_lt (h.held x run hx)

theorem Once.update (h : Once t) {i : Nat} {g : OrchestrationRun → OrchestrationRun}
    (hg : ∀ r, (g r).id = r.id) (hlive : ∀ x ∈ t.rows, x.id = i → (g x).status.live = true →
      x.status.live = true ∧ (g x).ticketId = x.ticketId) : Once (t.update i g hg) := by
  have hback : ∀ y ∈ (t.update i g hg).rows, y.status.live = true →
      ∃ x ∈ t.rows, x.status.live = true ∧ x.ticketId = y.ticketId ∧ x.id = y.id := by
    intro y hy hyl
    rcases (mem_update hg).mp hy with ⟨hold, -⟩ | ⟨x, hx, hid, rfl⟩
    · exact ⟨y, hold, hyl, rfl, rfl⟩
    · obtain ⟨hxl, ht⟩ := hlive x hx hid hyl
      exact ⟨x, hx, hxl, ht.symm, (hg x).symm⟩
  intro y hy y' hy' hyl hyl' ht
  obtain ⟨x, hx, hxl, hxt, hxid⟩ := hback y hy hyl
  obtain ⟨x', hx', hxl', hxt', hxid'⟩ := hback y' hy' hyl'
  rw [← hxid, ← hxid']
  exact h x hx x' hx' hxl hxl' ((hxt.trans ht).trans hxt'.symm)

theorem adopt_single (h : Single s) {claim : OrchestrationRun}
    (hr : s.runs.get claim.id = some r) (hq : r.status = .queued) :
    Single { s with
      runs := s.runs.update claim.id (adoptClaim claim ask ticket now)
        (adoptClaim_id claim ask ticket now)
      adoptions := (session, claim.id) :: s.adoptions } := by
  obtain ⟨hmem, hid⟩ := get_eq_some hr
  have hsame : ∀ x ∈ s.runs.rows, x.id = claim.id → x = r := fun x hx hxid =>
    eq_of_id hx hmem (hxid.trans hid.symm)
  have hlt : claim.id < s.runs.next := hid ▸ s.runs.fresh r hmem
  -- the row reads queued, so nobody adopted it and nobody finished it
  have hnew : claim.id ∉ s.adoptions.map Prod.snd := by
    intro hold
    obtain ⟨a, ha, haid⟩ := mem_map.mp hold
    exact (h.adopted a ha).2 r hmem (hid.trans haid.symm) hq
  have hopen : claim.id ∉ s.ended := by
    intro hover
    have hl := (h.ended claim.id hover).2 r hmem hid
    rw [hq] at hl
    cases hl
  refine ⟨Once.update h.once (adoptClaim_id _ _ _ _) fun x hx hxid _ => ?_, ?_, ?_, ?_, h.held⟩
  · rw [hsame x hx hxid, hq]
    exact ⟨rfl, rfl⟩
  · exact nodup_cons.mpr ⟨hnew, h.adoptedOnce⟩
  · intro a ha
    rcases mem_cons.mp ha with rfl | ha
    · refine ⟨hlt, fun y hy hyid => ?_⟩
      rcases (mem_update (adoptClaim_id _ _ _ _)).mp hy with ⟨-, hne⟩ | ⟨x, -, -, rfl⟩
      · exact absurd hyid hne
      · exact fun hq => by cases hq
    · refine ⟨(h.adopted a ha).1, fun y hy hyid => ?_⟩
      rcases (mem_update (adoptClaim_id _ _ _ _)).mp hy with ⟨hold, -⟩ | ⟨x, -, -, rfl⟩
      · exact (h.adopted a ha).2 y hold hyid
      · exact fun hq => by cases hq
  · intro id hover
    refine ⟨(h.ended id hover).1, fun y hy hyid => ?_⟩
    rcases (mem_update (adoptClaim_id _ _ _ _)).mp hy with ⟨hold, -⟩ | ⟨x, hx, hxid, rfl⟩
    · exact (h.ended id hover).2 y hold hyid
    · have hxid' : x.id = id := hyid
      exact absurd (hxid.symm.trans hxid' ▸ hover) hopen

theorem finish_single (h : Single s) {status : OrchestrationRunStatus} {message : String}
    (hstatus : status.live = false) (hrun : run < s.runs.next) :
    Single { s with
      runs := s.runs.update run (finishRun status message now) (finishRun_id status message now)
      ended := run :: s.ended } := by
  have hended : ∀ x : OrchestrationRun, (finishRun status message now x).status.live = false :=
    fun _ => hstatus
  refine ⟨Once.update h.once (finishRun_id _ _ _) fun x _ _ hl => ?_, h.adoptedOnce, ?_, ?_, h.held⟩
  · rw [hended x] at hl
    cases hl
  · intro a ha
    refine ⟨(h.adopted a ha).1, fun y hy hyid => ?_⟩
    rcases (mem_update (finishRun_id _ _ _)).mp hy with ⟨hold, -⟩ | ⟨x, -, -, rfl⟩
    · exact (h.adopted a ha).2 y hold hyid
    · intro hq
      have hl := hended x
      rw [hq] at hl
      cases hl
  · intro id hover
    rcases mem_cons.mp hover with rfl | hover
    · refine ⟨hrun, fun y hy hyid => ?_⟩
      rcases (mem_update (finishRun_id _ _ _)).mp hy with ⟨-, hne⟩ | ⟨x, -, -, rfl⟩
      · exact absurd hyid hne
      · exact hended x
    · refine ⟨(h.ended id hover).1, fun y hy hyid => ?_⟩
      rcases (mem_update (finishRun_id _ _ _)).mp hy with ⟨hold, -⟩ | ⟨x, -, -, rfl⟩
      · exact (h.ended id hover).2 y hold hyid
      · exact hended x

/-! ## Runs of sessions -/

theorem claimOrchestrationRun_ne {run : Nat} :
    claimOrchestrationRun rowOrder t ticketId ask ≠ .finishing run := by
  rw [claimOrchestrationRun]
  split <;> exact fun h => by cases h

theorem startOrchestrationRun_ne {run : Nat} :
    startOrchestrationRun rowOrder t ticketId ask ≠ .finishing run := by
  rw [startOrchestrationRun]
  split
  · split <;> exact fun h => by cases h
  · exact fun h => by cases h

theorem stand_self (phase : Phase) : (s.stand session phase).phase session = phase := by
  show Function.update s.phase session phase session = phase
  rw [Function.update_self]

theorem claimOrchestrationRun_stands :
    Stands rowOrder (s.move rowOrder session (.claim ticketId ask)) session
      (.commit ticket code now) := by
  rw [Stands, Drives.move, stand_self, claimOrchestrationRun]
  cases h : findActiveOrchestrationRun rowOrder s.runs ticketId with
  | some active => exact trivial
  | none => exact h

theorem startOrchestrationRun_stands :
    Stands rowOrder (s.move rowOrder session (.start ticketId ask)) session
      (.commit ticket code now) := by
  rw [Stands, Drives.move, stand_self, startOrchestrationRun]
  cases h : findActiveOrchestrationRun rowOrder s.runs ticketId with
  | none => exact .inr h
  | some active =>
    obtain ⟨hmem, -, -⟩ := mem_driving.mp (findActiveOrchestrationRun_mem h)
    by_cases hq : active.status = .queued
    · dsimp only
      rw [if_pos hq]
      show (s.runs.get active.id).map (·.status) = some .queued
      rw [Keyed.get_of_mem hmem, Option.map_some, hq]
    · dsimp only
      rw [if_neg hq]
      exact trivial

theorem commit_single (h : Single s) (hk : Stands rowOrder s session (.commit ticket code now)) :
    Single (s.commit session ticket code now) := by
  rw [Stands] at hk
  rw [Drives.commit]
  cases hphase : s.phase session with
  | claiming ticketId ask =>
    rw [hphase] at hk
    have hinsert := h.insert (r := claimedRun s.runs.next ticketId ask ticket code now)
      rfl (.inr hk)
    exact hinsert.stand fun _ hf => by cases hf
  | starting ticketId ask =>
    rw [hphase] at hk
    have hfree : (startedRun s.runs.next ticketId ask ticket code now).status.live = false ∨
        findActiveOrchestrationRun rowOrder s.runs
          (startedRun s.runs.next ticketId ask ticket code now).ticketId = none := by
      rw [startedRun]
      rcases hk with hover | hnone
      · rw [if_pos hover]
        exact .inl rfl
      · split
        · exact .inl rfl
        · exact .inr hnone
    exact (h.insert (startedRun_id _ _ _ _ _ _) hfree).stand fun _ hf => by cases hf
  | adopting claim ask =>
    rw [hphase] at hk
    obtain ⟨r, hr, hq⟩ := Option.map_eq_some_iff.mp hk
    exact (adopt_single h hr hq).stand fun _ hf => by cases hf
  | idle | returned _ | raised _ | finishing _ => exact h

theorem move_single (h : Single s) {move : Move} (hk : Stands rowOrder s session move) :
    Single (s.move rowOrder session move) := by
  cases move with
  | claim ticketId ask => exact h.stand fun _ hf => absurd hf claimOrchestrationRun_ne
  | start ticketId ask => exact h.stand fun _ hf => absurd hf startOrchestrationRun_ne
  | commit ticket code now => exact commit_single h hk
  | take run =>
    rw [Drives.move]
    split
    · next hsome =>
        obtain ⟨r, hr⟩ := Option.isSome_iff_exists.mp hsome
        obtain ⟨hmem, hid⟩ := get_eq_some hr
        refine h.stand fun x hx => ?_
        cases hx
        exact hid ▸ s.runs.fresh r hmem
    · exact h.stand fun _ hf => by cases hf
  | finish status message now =>
    rw [Drives.move, Drives.finish]
    cases hphase : s.phase session with
    | finishing run =>
      exact (finish_single h hk (h.held session run hphase)).stand fun _ hf => by cases hf
    | idle | returned _ | raised _ | claiming _ _ | starting _ _ | adopting _ _ => exact h

/-- A table with one driver a ticket, and sessions that have done nothing yet. -/
structure Quiet (s : Drives) : Prop where
  once : ∀ ticketId, (s.runs.driving ticketId).length ≤ 1
  idle : ∀ session, s.phase session = .idle
  adoptions : s.adoptions = []
  ended : s.ended = []

theorem Quiet.single (h : Quiet s) : Single s where
  once r hr r' hr' hl hl' ht := by
    have hmem := mem_driving.mpr ⟨hr, ht, hl⟩
    have hmem' := mem_driving.mpr ⟨hr', rfl, hl'⟩
    have hle := h.once r'.ticketId
    match hd : s.runs.driving r'.ticketId with
    | [] => exact absurd (hd ▸ hmem) not_mem_nil
    | [x] =>
      rw [hd] at hmem hmem'
      rw [mem_singleton.mp hmem, mem_singleton.mp hmem']
    | _ :: _ :: _ =>
      rw [hd] at hle
      exact absurd hle (by simp)
  adoptedOnce := by
    rw [h.adoptions]
    exact nodup_nil
  adopted a ha := by
    rw [h.adoptions] at ha
    cases ha
  ended id hid := by
    rw [h.ended] at hid
    cases hid
  held x run hx := by
    rw [h.idle] at hx
    cases hx

theorem Single.driving (h : Single s) (ticketId : TicketId) :
    (s.runs.driving ticketId).length ≤ 1 := by
  have hnodup : ((s.runs.driving ticketId).map (·.id)).Nodup :=
    (filter_sublist.map _).nodup s.runs.nodup
  match hd : s.runs.driving ticketId with
  | [] => exact zero_le _
  | [_] => exact le_refl _
  | x :: y :: rest =>
    obtain ⟨hx, hxt, hxl⟩ := mem_driving.mp (hd ▸ mem_cons_self : x ∈ s.runs.driving ticketId)
    obtain ⟨hy, hyt, hyl⟩ := mem_driving.mp
      (hd ▸ mem_cons_of_mem _ mem_cons_self : y ∈ s.runs.driving ticketId)
    have hid := h.once x hx y hy hxl hyl (hxt.trans hyt.symm)
    rw [hd] at hnodup
    exact absurd (mem_cons.mpr (.inl hid)) (nodup_cons.mp hnodup).1

/-- **One orchestration drives a ticket**: in every run in which each commit finds what
    its session read, no ticket has two orchestrations claimed or driving, no claim is
    adopted twice, and none that was finished is running. -/
theorem one_orchestration_drives {trace : List (Nat × Move)} (h0 : Quiet s)
    (hr : Run (StandingStep rowOrder) s trace s') :
    (∀ ticketId, (s'.runs.driving ticketId).length ≤ 1) ∧ (s'.adoptions.map Prod.snd).Nodup ∧
      ∀ id ∈ s'.ended, ∀ r ∈ s'.runs.rows, r.id = id → r.status ≠ .running := by
  have hend : Single s' := by
    refine Run.invariant (P := Single) ?_ h0.single hr
    rintro s step _ hs ⟨hk, rfl⟩
    exact move_single hs hk
  refine ⟨hend.driving, hend.adoptedOnce, fun id hid r hr hrid hrun => ?_⟩
  have hl := (hend.ended id hid).2 r hr hrid
  rw [hrun] at hl
  cases hl

def noRuns : Drives where
  runs := Keyed.empty

def drivesAfter (moves : List (Nat × Move)) : Drives :=
  moves.foldl (fun s step => s.move id step.1 step.2) noRuns

theorem run_drivesAfter (moves : List (Nat × Move)) :
    Run (DriveStep id) noRuns moves (drivesAfter moves) := by
  refine Run.of_foldl (fun s step => ?_) _ _
  exact rfl

theorem noRuns_quiet : Quiet noRuns where
  once _ := zero_le _
  idle _ := rfl
  adoptions := rfl
  ended := rfl

/-- Session 0 claims ticket 1, session 1 adopts the claim and finishes it, and session
    0 starts again. -/
def inTurn : List (Nat × Move) :=
  [(0, .claim 1 {}), (0, .commit {} "orch_0" 0), (1, .start 1 {}), (1, .commit {} "orch_1" 1),
    (1, .take 0), (1, .finish .succeeded "" 2), (0, .start 1 {}), (0, .commit {} "orch_2" 3)]

theorem one_orchestration_drives_inTurn :
    (∀ ticketId, ((drivesAfter inTurn).runs.driving ticketId).length ≤ 1) ∧
      ((drivesAfter inTurn).adoptions.map Prod.snd).Nodup ∧
      ∀ id ∈ (drivesAfter inTurn).ended, ∀ r ∈ (drivesAfter inTurn).runs.rows, r.id = id →
        r.status ≠ .running := by
  have hr : Run (StandingStep id) noRuns inTurn (drivesAfter inTurn) :=
    .cons ⟨trivial, rfl⟩ (.cons ⟨claimOrchestrationRun_stands, rfl⟩
      (.cons ⟨trivial, rfl⟩ (.cons ⟨startOrchestrationRun_stands, rfl⟩
      (.cons ⟨trivial, rfl⟩ (.cons ⟨rfl, rfl⟩
      (.cons ⟨trivial, rfl⟩ (.cons ⟨startOrchestrationRun_stands, rfl⟩ (.nil _))))))))
  exact one_orchestration_drives noRuns_quiet hr

/-- Two starts that both read no run; two that both read the same claim; a claim that is
    abandoned under a start that read it; and a finish that is asked for `running`. -/
theorem two_orchestrations_drive :
    (∃ trace s, Run (DriveStep id) noRuns trace s ∧ (s.runs.driving 1).length = 2) ∧
    (∃ trace s, Run (DriveStep id) noRuns trace s ∧ s.adoptions = [(2, 0), (1, 0)]) ∧
    (∃ trace s, Run (DriveStep id) noRuns trace s ∧ s.ended = [0] ∧
      s.runs.rows.map (·.status) = [.running]) ∧
    ∃ trace s, Run (DriveStep id) noRuns trace s ∧ s.ended = [0, 0] ∧
      s.runs.rows.map (·.status) = [.running] := by
  refine ⟨⟨_, _, run_drivesAfter [(0, .start 1 {}), (1, .start 1 {}), (0, .commit {} "orch_0" 0),
    (1, .commit {} "orch_1" 0)], by decide +kernel⟩, ⟨_, _, run_drivesAfter [(0, .claim 1 {}),
    (0, .commit {} "orch_0" 0), (1, .start 1 {}), (2, .start 1 {}), (1, .commit {} "orch_1" 1),
    (2, .commit {} "orch_2" 1)], by decide +kernel⟩, ⟨_, _, run_drivesAfter [(0, .claim 1 {}),
    (0, .commit {} "orch_0" 0), (1, .start 1 {}), (0, .take 0), (0, abandonClaim "refused" 1),
    (1, .commit {} "orch_1" 2)], by decide +kernel⟩, ⟨_, _, run_drivesAfter [(0, .claim 1 {}),
    (0, .commit {} "orch_0" 0), (0, .take 0), (0, .finish .succeeded "" 1), (1, .take 0),
    (1, .finish .running "" 2)], by decide +kernel⟩⟩

end Loregarden.Orchestrations

