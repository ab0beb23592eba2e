import Loregarden.MergeQueueChanceProofs

/-! # The next cycle of an entry that was put back

A cycle of the loop on the entry at the head: it is picked, others are labelled, it is staged, cut,
pushed and written. Whether it gets to the cut is decided by `attempts` alone, and no write of a
cycle can be refused by an index.

`second_chance_iff`: the next cycle that finds the entry at the head cuts its candidate and records
what came of it exactly when the entry was put back with an attempt left; with none left it fails
without a cut. The stop that ends such a cycle says `retry once it settles`. -/

namespace Loregarden.MergeQueue

open Ranked Runs List Loop

variable {q q' : Queue} {l : Loop} {r e row : MergeQueueEntry} {id a place : Nat} {now : Instant}
  {expected : MergeQueueState} {fields : Fields} {call : Call} {cfg : Settings} {after : After}
  {staged : Staged} {ok : Bool} {s s' : System} {answer : Answer} {answers : List Answer}

/-- Writing over the rows of a list leaves a sublist of the keys of those that pass a test,
    when no row comes to pass it. -/
theorem sublist_filter_map {R κ : Type*} {f : R → R} {p : R → Bool} {k : R → κ} {rows : List R}
    (hk : ∀ r ∈ rows, k (f r) = k r) (hp : ∀ r ∈ rows, p (f r) = true → p r = true) :
    (((rows.map f).filter p).map k).Sublist ((rows.filter p).map k) := by
  induction rows with
  | nil => exact List.Sublist.slnil
  | cons r rows ih =>
    have ih := ih (fun x hx => hk x (mem_cons_of_mem _ hx)) fun x hx =>
      hp x (mem_cons_of_mem _ hx)
    by_cases hnew : p (f r) = true
    · have hold : p r = true := hp r mem_cons_self hnew
      rw [map_cons, filter_cons_of_pos hnew, filter_cons_of_pos hold,
        map_cons, map_cons, hk r mem_cons_self]
      exact ih.cons_cons _
    · rw [map_cons, filter_cons_of_neg hnew]
      by_cases hold : p r = true
      · rw [filter_cons_of_pos hold, map_cons]
        exact ih.cons _
      · rw [filter_cons_of_neg hold]
        exact ih

theorem unique_update (hget : q.get id = some row) (hlive : row.state.terminal = false)
    (hposition : fields.position = none) (hhead : fields.headSha = none) :
    Unique (q.table.update id (fields.apply expected now) (fields.apply_id expected now)) := by
  obtain ⟨f, hf⟩ : ∃ f : MergeQueueEntry → MergeQueueEntry,
      f = fun r => if r.id = id then fields.apply expected now r else r := ⟨_, rfl⟩
  have hrows : (q.table.update id (fields.apply expected now)
      (fields.apply_id expected now)).rows = q.table.rows.map f := by
    rw [hf]
    rfl
  have hkeeps : ∀ r, (f r).position = r.position ∧ (f r).headSha = r.headSha := by
    intro r
    rw [hf]
    dsimp only
    split
    · constructor
      · show fields.position.getD r.position = r.position
        rw [hposition]
        rfl
      · show fields.headSha.getD r.headSha = r.headSha
        rw [hhead]
        rfl
    · exact ⟨rfl, rfl⟩
  have hothers : ∀ r, r.id ≠ id → f r = r := by
    intro r hid
    rw [hf]
    exact if_neg hid
  constructor
  · rw [hrows, map_map]
    have hsame : (fun r : MergeQueueEntry => r.position) ∘ f = (·.position) :=
      funext fun r => (hkeeps r).1
    rw [hsame]
    exact q.unique.1
  · rw [live, hrows]
    refine List.Nodup.sublist (sublist_filter_map (fun r _ => (hkeeps r).2) ?_) q.unique.2
    intro r hr hnew
    by_cases hid : r.id = id
    · obtain ⟨hmem, hrow⟩ := get_mem hget
      rw [row_eq hr hmem (hid.trans hrow.symm), hlive]
      rfl
    · rw [hothers r hid] at hnew
      exact hnew

theorem transition_ne_clashed (hlive : expected.terminal = false)
    (hposition : fields.position = none) (hhead : fields.headSha = none) :
    transition q id expected fields now ≠ .clashed := by
  rw [transition]
  split
  · exact Wrote.noConfusion
  · rename_i row hget
    split
    · exact Wrote.noConfusion
    · rename_i hstate
      rw [commit, dif_pos (unique_update hget (not_not.mp hstate ▸ hlive) hposition hhead)]
      exact Wrote.noConfusion

theorem transition_moved (hget : q.get id = some row) (hstate : row.state = expected)
    (hlive : expected.terminal = false) (hposition : fields.position = none)
    (hhead : fields.headSha = none) :
    ∃ q', transition q id expected fields now = .moved q' := by
  have hunique : Unique (q.table.update id (fields.apply expected now)
      (fields.apply_id expected now)) :=
    unique_update hget (hstate ▸ hlive) hposition hhead
  refine ⟨⟨_, hunique⟩, ?_⟩
  rw [transition, hget]
  dsimp only
  rw [if_neg (not_not.mpr hstate), commit, dif_pos hunique]

/-! ## The moves of a cycle -/

def Moves (cfg : Settings) (s : System) (answers : List Answer) (s' : System) : Prop :=
  ∃ steps : List (Instant × Act),
    steps.map (·.2) = answers.map .loop ∧ Run (QueueStep cfg) s steps s'

/-- A cycle up to the cut: the head is picked, other entries are labelled, it is staged. -/
def cycleStart (marks : List Nat) : List Answer :=
  .pick :: (marks.flatMap fun other => [.markBehind other, .reload]) ++ [.step, .write, .reload]

/-- The rest of it: the candidate is cut and pushed, and what came of it is written. -/
def cycleEnd (staged : Staged) (ok : Bool) : List Answer := [.cut staged, .push ok, .write]

theorem moves_nil : Moves cfg s [] s' ↔ s' = s := by
  constructor
  · rintro ⟨steps, hsteps, hrun⟩
    obtain rfl : steps = [] := map_eq_nil_iff.mp hsteps
    cases hrun
    rfl
  · rintro rfl
    exact ⟨[], rfl, .nil _⟩

theorem moves_cons : Moves cfg s (answer :: answers) s' ↔
      ∃ now, Moves cfg (s.act cfg now (.loop answer)) answers s' := by
  constructor
  · rintro ⟨steps, hsteps, hrun⟩
    cases hrun with
    | nil => simp at hsteps
    | cons hstep hrest =>
      rename_i m step steps
      obtain ⟨hact, hrest'⟩ := List.cons.inj hsteps
      obtain ⟨now, act⟩ := step
      obtain rfl : act = .loop answer := hact
      obtain rfl : m = s.act cfg now (.loop answer) := hstep
      exact ⟨now, steps, hrest', hrest⟩
  · rintro ⟨now, steps, hsteps, hrun⟩
    exact ⟨(now, .loop answer) :: steps, congrArg (List.cons _) hsteps, .cons rfl hrun⟩

theorem moves_append {answers' : List Answer} : Moves cfg s (answers ++ answers') s' ↔
      ∃ m, Moves cfg s answers m ∧ Moves cfg m answers' s' := by
  induction answers generalizing s with
  | nil =>
    constructor
    · intro h
      exact ⟨s, moves_nil.mpr rfl, h⟩
    · rintro ⟨m, hm, h⟩
      rw [moves_nil.mp hm] at h
      exact h
  | cons answer answers ih =>
    rw [cons_append, moves_cons]
    constructor
    · rintro ⟨now, h⟩
      obtain ⟨m, hm, hrest⟩ := ih.mp h
      exact ⟨m, moves_cons.mpr ⟨now, hm⟩, hrest⟩
    · rintro ⟨m, hm, hrest⟩
      obtain ⟨now, hm⟩ := moves_cons.mp hm
      exact ⟨now, ih.mpr ⟨m, hm, hrest⟩⟩

theorem advance_write (hp : l.phase = .writing e expected fields after)
    (hmoved : transition q e.id expected fields now = .moved q') :
    l.advance cfg q now .write = (q', (l.wrote expected fields).at (.reloading e.id after)) := by
  simp only [advance, hp, write, hmoved]

theorem act_loop (h : s.loop.advance cfg s.queue now answer = (q', l)) :
    s.act cfg now (.loop answer) = { s with queue := q', loop := l } := by
  rw [System.act, h]

/-! ## Up to the cut -/

structure Picked (id : Nat) (row : MergeQueueEntry) (s : System) : Prop where
  get : s.queue.get id = some row
  phase : ∃ place, s.loop.phase = .chosen row place false

theorem picked_pick (hidle : s.loop.phase = .idle) (hhead : headEntry s.queue = some row)
    (hid : row.id = id) : Picked id row (s.act cfg now (.loop .pick)) := by
  have hgo : s.loop.advance cfg s.queue now .pick =
      (s.queue, s.loop.at (.chosen row row.position false)) := by
    simp only [advance, hidle, hhead]
  rw [act_loop hgo]
  refine ⟨?_, row.position, rfl⟩
  rw [← hid]
  exact Keyed.get_of_mem (headEntry_spec hhead).1

theorem Picked.reload (h : Picked id row s) : Picked id row (s.act cfg now (.loop .reload)) := by
  obtain ⟨place, hp⟩ := h.phase
  have hgo : s.loop.advance cfg s.queue now .reload = (s.queue, s.loop) := by
    simp only [advance, hp]
  rw [act_loop hgo]
  exact ⟨h.get, place, hp⟩

theorem Picked.mark (h : Picked id row s) (other : Nat) {now' : Instant} :
    Picked id row ((s.act cfg now (.loop (.markBehind other))).act cfg now' (.loop .reload)) := by
  obtain ⟨place, hp⟩ := h.phase
  have hid : row.id = id := (get_mem h.get).2
  by_cases hother : other = row.id
  · have hgo : s.loop.advance cfg s.queue now (.markBehind other) = (s.queue, s.loop) := by
      simp only [Loop.advance, hp, hother, if_true]
    rw [act_loop hgo]
    exact Picked.reload ⟨h.get, place, hp⟩
  · obtain ⟨q', hget, hgo⟩ : ∃ q', q'.get id = some row ∧
        s.loop.advance cfg s.queue now (.markBehind other) =
          (q', s.loop.at (.chosen row place true)) := by
      cases hwrote : transition s.queue other .queued { wait := some .behind } now with
      | moved q' =>
        obtain ⟨-, -, -, -, hothers⟩ := get_transition hwrote
        refine ⟨q', ?_, ?_⟩
        · rw [hothers id fun h => hother (h.symm.trans hid.symm)]
          exact h.get
        · simp only [advance, hp, hother, if_false, hwrote]
      | missed =>
        refine ⟨s.queue, h.get, ?_⟩
        simp only [advance, hp, hother, if_false, hwrote]
      | clashed => exact absurd hwrote (transition_ne_clashed rfl rfl rfl)
    have hread : (s.loop.at (.chosen row place true)).advance cfg q' now' .reload =
        (q', (s.loop.at (.chosen row place true)).at (.chosen row place false)) := by
      simp only [Loop.advance, Loop.at, hid, hget]
    rw [act_loop hgo, act_loop hread]
    exact ⟨hget, place, rfl⟩

theorem Picked.marks (marks : List Nat) (h : Picked id row s)
    (hmoves : Moves cfg s (marks.flatMap fun other => [.markBehind other, .reload]) s') :
    Picked id row s' := by
  induction marks generalizing s with
  | nil =>
    rw [moves_nil.mp hmoves]
    exact h
  | cons other marks ih =>
    obtain ⟨now, hmoves⟩ := moves_cons.mp hmoves
    obtain ⟨now', hmoves⟩ := moves_cons.mp hmoves
    exact ih (h.mark other) hmoves

theorem stage_cutting (h : e.attempts < cfg.maxAttempts) : stage cfg e = .cutting e :=
  if_neg (Nat.not_le.mpr h)

theorem stage_stop (h : cfg.maxAttempts ≤ e.attempts) : stage cfg e = stop e .staging .failed :=
  if_pos h

theorem stop_not_cutting {state : MergeQueueState} {e' : MergeQueueEntry} :
    stop e expected state ≠ .cutting e' := by
  exact Phase.noConfusion

/-- Where the loop is when the cut's answer comes: at the cut of the entry as it stands, or
    past it. -/
structure Reached (cfg : Settings) (id : Nat) (row : MergeQueueEntry) (s : System) : Prop where
  cuts : row.attempts < cfg.maxAttempts → ∃ row', s.loop.phase = .cutting row' ∧
    s.queue.get id = some row' ∧ row'.state = .staging ∧ row'.headSha = row.headSha ∧
    row'.attempts = row.attempts
  stops : cfg.maxAttempts ≤ row.attempts → ∀ e, s.loop.phase ≠ .cutting e

theorem Picked.reached_queued (h : Picked id row s) (hstate : row.state = .queued)
    (hmoves : Moves cfg s [.step, .write, .reload] s') : Reached cfg id row s' := by
  obtain ⟨place, hp⟩ := h.phase
  obtain rfl : row.id = id := (get_mem h.get).2
  obtain ⟨now, hmoves⟩ := moves_cons.mp hmoves
  obtain ⟨now', hmoves⟩ := moves_cons.mp hmoves
  obtain ⟨now'', hmoves⟩ := moves_cons.mp hmoves
  rw [moves_nil.mp hmoves]
  have hstep : s.loop.advance cfg s.queue now .step =
      (s.queue, s.loop.at (.writing row .queued stageFields (.stage place))) := by
    simp only [advance, hp, step, hstate]
    rfl
  obtain ⟨q', hmoved⟩ : ∃ q', transition s.queue row.id .queued stageFields now' = .moved q' :=
    transition_moved h.get hstate rfl rfl rfl
  obtain ⟨found, hfound, -, hwritten, -⟩ := get_transition hmoved
  obtain rfl : found = row := Option.some.inj (hfound.symm.trans h.get)
  rw [act_loop hstep]
  obtain ⟨l, hl⟩ : ∃ l, l = s.loop.at (.writing found .queued stageFields (.stage place)) :=
    ⟨_, rfl⟩
  rw [← hl]
  have hwrite : l.advance cfg s.queue now' .write =
      (q', (l.wrote .queued stageFields).at (.reloading found.id (.stage place))) :=
    advance_write (hl ▸ rfl) hmoved
  rw [act_loop (s := { s with queue := s.queue, loop := l }) hwrite]
  obtain ⟨row', hrow'⟩ : ∃ row', row' = stageFields.apply .queued now' found := ⟨_, rfl⟩
  rw [← hrow'] at hwritten
  have hread : ((l.wrote .queued stageFields).at (.reloading found.id (.stage place))).advance
      cfg q' now'' .reload =
        (q', ((l.wrote .queued stageFields).at (.reloading found.id (.stage place))).at
          (stage cfg row')) := by
    simp only [Loop.advance, Loop.at, hwritten, reloaded]
  rw [act_loop hread]
  have hattempts : row'.attempts = found.attempts := by
    rw [hrow']
    rfl
  refine ⟨fun hleft => ⟨row', ?_, hwritten, ?_, ?_, hattempts⟩, fun hnone e => ?_⟩
  · exact stage_cutting (hattempts ▸ hleft)
  · rw [hrow']
    rfl
  · rw [hrow']
    rfl
  · show stage cfg row' ≠ .cutting e
    rw [stage_stop (hattempts ▸ hnone)]
    exact stop_not_cutting

theorem Picked.reached_staging (h : Picked id row s) (hstate : row.state = .staging)
    (hmoves : Moves cfg s [.step, .write, .reload] s') : Reached cfg id row s' := by
  obtain ⟨place, hp⟩ := h.phase
  obtain rfl : row.id = id := (get_mem h.get).2
  obtain ⟨now, hmoves⟩ := moves_cons.mp hmoves
  obtain ⟨now', hmoves⟩ := moves_cons.mp hmoves
  obtain ⟨now'', hmoves⟩ := moves_cons.mp hmoves
  rw [moves_nil.mp hmoves]
  have hstep : s.loop.advance cfg s.queue now .step = (s.queue, s.loop.at (stage cfg row)) := by
    simp only [Loop.advance, hp, step, hstate]
  rw [act_loop hstep]
  by_cases hleft : row.attempts < cfg.maxAttempts
  · -- the two moves that follow find nothing to write or to read
    rw [stage_cutting hleft]
    obtain ⟨l, hl⟩ : ∃ l, l = s.loop.at (.cutting row) := ⟨_, rfl⟩
    rw [← hl]
    have hwrite : l.advance cfg s.queue now' .write = (s.queue, l) := by
      simp only [Loop.advance, hl, Loop.at]
    have hread : l.advance cfg s.queue now'' .reload = (s.queue, l) := by
      simp only [Loop.advance, hl, Loop.at]
    rw [act_loop (s := { s with queue := s.queue, loop := l }) hwrite, act_loop hread]
    refine ⟨fun _ => ⟨row, ?_, h.get, hstate, rfl, rfl⟩, fun hnone => ?_⟩
    · rw [hl]
      rfl
    · exact absurd hleft (Nat.not_lt.mpr hnone)
  · have hnone : cfg.maxAttempts ≤ row.attempts := Nat.not_lt.mp hleft
    rw [stage_stop hnone]
    obtain ⟨f, hf⟩ : ∃ f : Fields, f = { state := some .failed, wait := some .none } := ⟨_, rfl⟩
    obtain ⟨q', hmoved⟩ : ∃ q', transition s.queue row.id .staging f now' = .moved q' :=
      transition_moved h.get hstate rfl (hf ▸ rfl) (hf ▸ rfl)
    obtain ⟨l, hl⟩ : ∃ l, l = s.loop.at (stop row .staging .failed) := ⟨_, rfl⟩
    rw [← hl]
    have hphase : l.phase = .writing row .staging f .done := by
      rw [hl, hf]
      rfl
    have hwrite : l.advance cfg s.queue now' .write =
        (q', (l.wrote .staging f).at (.reloading row.id .done)) :=
      advance_write hphase hmoved
    rw [act_loop (s := { s with queue := s.queue, loop := l }) hwrite]
    obtain ⟨found, -, -, hwritten, -⟩ := get_transition hmoved
    obtain ⟨l', hl'⟩ : ∃ l', l' = (l.wrote .staging f).at (.reloading row.id .done) := ⟨_, rfl⟩
    rw [← hl']
    have hread : l'.advance cfg q' now'' .reload = (q', l'.at .idle) := by
      simp only [Loop.advance, hl', Loop.at, hwritten, reloaded]
    rw [act_loop (s := { s with queue := q', loop := l' }) hread]
    exact ⟨fun h => absurd h hleft, fun _ e => Phase.noConfusion⟩

/-- **A cycle on the entry at the head** gets to its cut when it has an attempt left, and
    only then. -/
theorem reached_cycleStart (marks : List Nat) (hidle : s.loop.phase = .idle)
    (hhead : headEntry s.queue = some row) (hid : row.id = id)
    (hstate : row.state = .queued ∨ row.state = .staging)
    (hmoves : Moves cfg s (cycleStart marks) s') : Reached cfg id row s' := by
  obtain ⟨now, hmoves⟩ := moves_cons.mp hmoves
  obtain ⟨m, hmarks, hmoves⟩ := moves_append.mp hmoves
  have hpicked : Picked id row m := (picked_pick hidle hhead hid).marks marks hmarks
  rcases hstate with hqueued | hstaging
  · exact hpicked.reached_queued hqueued hmoves
  · exact hpicked.reached_staging hstaging hmoves

/-- What is recorded of a cut candidate: a conflict or a merge that could not be determined,
    the published commit, or the failed push. -/
def Recorded (staged : Staged) (ok : Bool) (entry row : MergeQueueEntry) : Prop :=
  (staged.verdict ≠ .clean → row.state = .failed) ∧
    (staged.verdict = .clean → ok = true → row.state = .testing ∧ row.headSha = entry.headSha ∧
      row.stagedSha = staged.sha ∧ row.stagedTree = staged.tree ∧
      row.stagedBaseSha = staged.baseSha) ∧
    (staged.verdict = .clean → ok = false → row.state = .queued ∧ row.attempts = entry.attempts + 1)

theorem recorded_write {calls : Nat → Call} {used : List (Nat × Nat)} (hget : q.get id = some e)
    (hstate : e.state = .staging) (hp : l.phase = .writing e .staging fields after)
    (hposition : fields.position = none) (hhead : fields.headSha = none)
    (hmoves : Moves cfg ⟨q, l, calls, used⟩ [.write] s') :
    s'.loop.lastBase = l.lastBase ∧
      ∃ now, s'.queue.get id = some (fields.apply .staging now e) := by
  obtain rfl : e.id = id := (get_mem hget).2
  obtain ⟨now, hmoves⟩ := moves_cons.mp hmoves
  rw [moves_nil.mp hmoves]
  obtain ⟨q', hmoved⟩ : ∃ q', transition q e.id .staging fields now = .moved q' :=
    transition_moved hget hstate rfl hposition hhead
  obtain ⟨found, hfound, -, hwritten, -⟩ := get_transition hmoved
  obtain rfl : found = e := Option.some.inj (hfound.symm.trans hget)
  rw [act_loop (s := ⟨q, l, calls, used⟩) (advance_write hp hmoved)]
  refine ⟨?_, now, hwritten⟩
  show (l.wrote .staging fields).lastBase = l.lastBase
  rw [wrote]
  split <;> rfl

/-- **From the cut on**: the base is the one just fetched, and what came of the candidate is
    on the row. -/
theorem recorded_cycleEnd (hp : s.loop.phase = .cutting e) (hget : s.queue.get id = some e)
    (hstate : e.state = .staging) (hmoves : Moves cfg s (cycleEnd staged ok) s') :
    s'.loop.lastBase = staged.baseSha ∧
      ∃ row, s'.queue.get id = some row ∧ Recorded staged ok e row := by
  obtain ⟨now, hmoves⟩ := moves_cons.mp hmoves
  obtain ⟨l, hl, hbase, hcut⟩ : ∃ l : Loop, l.phase = afterCut e staged ∧
      l.lastBase = staged.baseSha ∧
      s.loop.advance cfg s.queue now (.cut staged) = (s.queue, l) := by
    have hgo : (s.loop.advance cfg s.queue now (.cut staged)).1 = s.queue ∧
        (s.loop.advance cfg s.queue now (.cut staged)).2.phase = afterCut e staged ∧
        (s.loop.advance cfg s.queue now (.cut staged)).2.lastBase = staged.baseSha := by
      simp only [advance, hp, true_and]
      rfl
    exact ⟨_, hgo.2.1, hgo.2.2, Prod.ext hgo.1 rfl⟩
  rw [act_loop hcut] at hmoves
  obtain ⟨now', hmoves⟩ := moves_cons.mp hmoves
  -- a candidate that did not cut is not pushed
  have hfails : ∀ {fields after}, l.phase = .writing e .staging fields after →
      fields.state = some .failed → fields.position = none → fields.headSha = none →
      staged.verdict ≠ .clean →
      s'.loop.lastBase = staged.baseSha ∧
        ∃ row, s'.queue.get id = some row ∧ Recorded staged ok e row := by
    intro fields after hwriting hfailed hposition hhead hverdict
    have hpush : l.advance cfg s.queue now' (.push ok) = (s.queue, l) := by
      simp only [advance, hwriting]
    rw [act_loop (s := { s with queue := s.queue, loop := l }) hpush] at hmoves
    obtain ⟨hlast, written, hrow⟩ := recorded_write hget hstate hwriting hposition hhead hmoves
    refine ⟨hlast.trans hbase, _, hrow, fun _ => ?_, fun h => absurd h hverdict,
      fun h => absurd h hverdict⟩
    show fields.state.getD e.state = .failed
    rw [hfailed]
    rfl
  cases hverdict : staged.verdict with
  | conflicted =>
    have hwriting : l.phase =
        .writing e .staging { state := some .failed, wait := some .none } .artifact := by
      rw [hl, afterCut, hverdict]
    exact hfails hwriting rfl rfl rfl (by rw [hverdict]; exact MergeVerdict.noConfusion)
  | undetermined =>
    have hwriting : l.phase =
        .writing e .staging { state := some .failed, wait := some .none } .done := by
      rw [hl, afterCut, hverdict]
      rfl
    exact hfails hwriting rfl rfl rfl (by rw [hverdict]; exact MergeVerdict.noConfusion)
  | clean =>
    rw [afterCut, hverdict] at hl
    have hpush : l.advance cfg s.queue now' (.push ok) =
        (s.queue, l.at (afterPush e staged ok now')) := by
      simp only [advance, hl]
    rw [act_loop (s := { s with queue := s.queue, loop := l }) hpush] at hmoves
    cases ok with
    | false =>
      obtain ⟨hlast, written, hrow⟩ := recorded_write hget hstate rfl rfl rfl hmoves
      exact ⟨hlast.trans hbase, _, hrow, fun h => absurd hverdict h,
        fun _ h => Bool.noConfusion h, fun _ _ => ⟨rfl, rfl⟩⟩
    | true =>
      obtain ⟨hlast, written, hrow⟩ := recorded_write hget hstate rfl rfl rfl hmoves
      exact ⟨hlast.trans hbase, _, hrow, fun h => absurd hverdict h,
        fun _ _ => ⟨rfl, rfl, rfl, rfl, rfl⟩, fun _ h => Bool.noConfusion h⟩

/-- What a cycle that gets to the cut of an entry makes of it: the candidate is cut from the
    head the entry has, onto the base just fetched, and what came of it is recorded. -/
def Cuts (id : Nat) (staged : Staged) (ok : Bool) (row : MergeQueueEntry) (s s' : System) : Prop :=
  (∃ entry, s.loop.phase = .cutting entry ∧ entry.id = id ∧ entry.headSha = row.headSha) ∧
    s'.loop.lastBase = staged.baseSha ∧
    ∃ entry row', s.queue.get id = some entry ∧ s'.queue.get id = some row' ∧
      Recorded staged ok entry row'

/-- **A retry is a second chance exactly when an attempt is left.** A session puts an entry back,
    retried or with a new head, and the system runs on without a cut of the entry. With an attempt
    left the entry is not failed, and whenever the loop is idle and finds it at the head, the cycle
    cuts its candidate and records what came of it. With none left no such cycle cuts it. -/
theorem second_chance_iff {trace later : List (Instant × Act)} {before after : System}
    {session : Nat} (hreach : Run (QueueStep cfg) System.new trace before)
    (hback : PutBack id before.queue now (before.calls session))
    (hrow : (before.act cfg now (.go session)).queue.get id = some row)
    (hrun : Run (Guarded (QueueStep cfg) (NoFreshCut id)) (before.act cfg now (.go session)) later
      after) :
    (row.attempts < cfg.maxAttempts → ∃ row', after.queue.get id = some row' ∧
          row'.state ≠ .failed ∧ row'.state ≠ .timedOut) ∧
      ∀ head marks staged ok cutting ended, after.loop.phase = .idle →
        headEntry after.queue = some head → head.id = id →
        Moves cfg after (cycleStart marks) cutting →
        Moves cfg cutting (cycleEnd staged ok) ended →
        (Cuts id staged ok head cutting ended ↔ row.attempts < cfg.maxAttempts) := by
  have hknown := known_run hreach
  have hwaiting : Waiting cfg id row.attempts (before.act cfg now (.go session)).queue
      (before.act cfg now (.go session)).loop := by
    obtain ⟨row', hrow', hqueued⟩ := hback.queued
    obtain rfl : row' = row := Option.some.inj (hrow'.symm.trans hrow)
    exact ⟨row', hrow, rfl, .inl hqueued⟩
  obtain ⟨-, row', hget, hattempts, hstate⟩ := waiting_run (hknown.act (.go session)) hwaiting hrun
  constructor
  · intro hleft
    have hopen : row'.state = .queued ∨ row'.state = .withdrawn ∨ row'.state = .staging := by
      rcases hstate with h | h | ⟨h, -⟩ | ⟨-, hmax⟩
      · exact .inl h
      · exact .inr (.inl h)
      · exact .inr (.inr h)
      · exact absurd hleft (Nat.not_lt.mpr hmax)
    refine ⟨row', hget, fun hfailed => ?_, fun htimedOut => ?_⟩
    · simp [hfailed] at hopen
    · simp [htimedOut] at hopen
  · intro head marks staged ok cutting ended hidle hhead hid hstart hend
    obtain ⟨hmem, hlive, -⟩ := headEntry_spec hhead
    obtain rfl : row' = head := by
      have hget' : after.queue.get id = some head := hid ▸ Keyed.get_of_mem hmem
      exact Option.some.inj (hget.symm.trans hget')
    have hready : row'.state = .queued ∨ row'.state = .staging := by
      rcases hstate with h | h | ⟨h, -⟩ | ⟨h, -⟩
      · exact .inl h
      · rw [h] at hlive
        cases hlive
      · exact .inr h
      · rw [h] at hlive
        cases hlive
    have hreached := reached_cycleStart marks hidle hhead hid hready hstart
    rw [← hattempts]
    constructor
    · rintro ⟨⟨entry, hphase, -⟩, -⟩
      by_contra hnone
      exact hreached.stops (Nat.not_lt.mp hnone) entry hphase
    · intro hleft
      obtain ⟨entry, hphase, hentry, hstaging, hsame, -⟩ := hreached.cuts hleft
      obtain ⟨hbase, written, hwritten, hrecorded⟩ := recorded_cycleEnd hphase hentry hstaging hend
      exact ⟨⟨entry, hphase, (get_mem hentry).2, hsame⟩, hbase, entry, written, hentry, hwritten,
        hrecorded⟩

/-! ## Replays -/

def loopAfter (s : System) (answers : List Answer) : System :=
  answers.foldl (fun s answer => s.act {} 0 (.loop answer)) s

theorem moves_loopAfter (s : System) (answers : List Answer) :
    Moves {} s answers (loopAfter s answers) := by
  induction answers generalizing s with
  | nil => exact moves_nil.mpr rfl
  | cons answer answers ih => exact moves_cons.mpr ⟨0, ih _⟩

def cleanCut : Staged := ⟨.clean, "s1", "t1", "b1"⟩

def failedPush : List Act :=
  [.pick, .step, .write, .reload, .cut cleanCut, .push false, .write, .reload].map .loop

/-- One push fails, the entry is withdrawn, and a session is about to retry it. -/
def retriedOnce : System :=
  systemAfter (asks 0 (.enqueue candidate7) 4 ++ failedPush ++ asks 1 (.withdraw 0) 2 ++
    asks 2 (.retry 0) 3)

theorem second_chance_iff_once :
    ∃ head, headEntry (retriedOnce.act {} 0 (.go 2)).queue = some head ∧ head.attempts = 1 ∧
      Cuts 0 cleanCut true head
        (loopAfter (retriedOnce.act {} 0 (.go 2)) (cycleStart []))
        (loopAfter (loopAfter (retriedOnce.act {} 0 (.go 2)) (cycleStart []))
          (cycleEnd cleanCut true)) := by
  obtain ⟨head, hhead, hid, hattempts⟩ :
      ∃ head, headEntry (retriedOnce.act {} 0 (.go 2)).queue = some head ∧ head.id = 0 ∧
        head.attempts = 1 := by
    obtain ⟨head, hhead⟩ := Option.isSome_iff_exists.mp
      (show (headEntry (retriedOnce.act {} 0 (.go 2)).queue).isSome = true by decide +kernel)
    have hmap : (headEntry (retriedOnce.act {} 0 (.go 2)).queue).map
        (fun row => (row.id, row.attempts)) = some (0, 1) := by decide +kernel
    rw [hhead] at hmap
    have hpair := Prod.mk.inj (Option.some.inj hmap)
    exact ⟨head, hhead, hpair.1, hpair.2⟩
  have hrow : (retriedOnce.act {} 0 (.go 2)).queue.get 0 = some head :=
    hid ▸ Keyed.get_of_mem (headEntry_spec hhead).1
  have hback : PutBack 0 retriedOnce.queue 0 (retriedOnce.calls 2) := by decide +kernel
  refine ⟨head, hhead, hattempts, ?_⟩
  refine ((second_chance_iff (run_systemAfter _) hback hrow (.nil _)).2 head [] cleanCut true _ _
    (by decide +kernel) hhead hid (moves_loopAfter _ _) (moves_loopAfter _ _)).mpr ?_
  rw [hattempts]
  decide

/-- Six pushes fail, the entry is stopped, and a session is about to retry it. -/
def retriedSpent : System :=
  systemAfter (asks 0 (.enqueue candidate7) 4 ++ (List.replicate 6 failedPush).flatten ++
    [.pick, .step, .write, .reload, .write, .reload].map .loop ++ asks 1 (.retry 0) 3)

/-- The retry succeeds, and the next cycle fails the entry again without a cut. -/
theorem retry_no_second_chance : PutBack 0 retriedSpent.queue 0 (retriedSpent.calls 1) ∧
      (retriedSpent.act {} 0 (.go 1)).loop.phase = .idle ∧
      (headEntry (retriedSpent.act {} 0 (.go 1)).queue).map (·.id) = some 0 ∧
      Moves {} (retriedSpent.act {} 0 (.go 1)) (cycleStart [])
        (loopAfter (retriedSpent.act {} 0 (.go 1)) (cycleStart [])) ∧
      Moves {} (loopAfter (retriedSpent.act {} 0 (.go 1)) (cycleStart []))
        (cycleEnd cleanCut true)
        (loopAfter (loopAfter (retriedSpent.act {} 0 (.go 1)) (cycleStart []))
          (cycleEnd cleanCut true)) ∧
      ((loopAfter (loopAfter (retriedSpent.act {} 0 (.go 1)) (cycleStart []))
        (cycleEnd cleanCut true)).queue.get 0).map (·.state) = some .failed ∧
      (loopAfter (loopAfter (retriedSpent.act {} 0 (.go 1)) (cycleStart []))
        (cycleEnd cleanCut true)).loop.cuts = retriedSpent.loop.cuts :=
  ⟨by decide +kernel, by decide +kernel, by decide +kernel, moves_loopAfter _ _,
    moves_loopAfter _ _, by decide +kernel, by decide +kernel⟩

end Loregarden.MergeQueue

