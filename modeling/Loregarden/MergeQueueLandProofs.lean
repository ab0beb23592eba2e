import Loregarden.MergeQueueProofs

/-! # Only what was tested is merged

    The loop holds an entry across git and GitHub, while anyone may write its row.
    A row that is active still is as the loop read it, since only the loop makes a
    row active: **`lands_what_was_tested`** is that whenever the loop calls for a
    merge, unless a retry has sent a merging entry back, the entry's row is merging
    and its staged commit was cut from its head, was read as passed, and stands on
    the base last fetched.

    * `Undisturbed`: what a call leaves alone;
    * `advance_sound`: what a move of the loop keeps. -/

namespace Loregarden.MergeQueue

open Ranked Runs

variable {q q' : Queue} {l : Loop} {s s' : System} {e r r' : MergeQueueEntry} {now : Instant}
  {cfg : Settings} {pr : StagedPullRequest} {phase : Phase} {expected : MergeQueueState}
  {fields : Fields} {after : After} {call : Call} {given : Option (Nat × Nat)}

/-! ## What the loop holds -/

/-- While the row of an entry is active, it is the entry as it was read. -/
def Held (q : Queue) (e : MergeQueueEntry) : Prop :=
  ∀ row ∈ q.table.rows, row.id = e.id → row.state.active = true → row = e

/-- The entry's required checks were read as passed, and no entry was staged since. -/
def Loop.Passed (l : Loop) (e : MergeQueueEntry) (pr : StagedPullRequest) : Prop :=
  ∃ required, l.verdict = some ⟨e.id, pr, required⟩ ∧ Passes e.stagedSha pr required

def Loop.Ready (l : Loop) (e : MergeQueueEntry) (pr : StagedPullRequest) : Prop :=
  l.Passed e pr ∧ l.lastBase = e.stagedBaseSha

/-- The entry is a row of the table, and it is merging. -/
structure Merging (q : Queue) (e : MergeQueueEntry) : Prop where
  mem : e ∈ q.table.rows
  state : e.state = .merging

def Loop.Faithful (q : Queue) (l : Loop) : Prop :=
  match l.phase with
  | .idle => True
  | .chosen e _ _ | .cutting e | .filing e | .waiting e | .refused e | .confirming e
  | .resuming e => Held q e
  | .pushing e staged => Held q e ∧ ⟨staged.sha, e.headSha, staged.baseSha, staged.tree⟩ ∈ l.cuts
  | .landing e pr => Held q e ∧ l.Passed e pr
  | .writing e expected fields after =>
    Held q e ∧ Keeps l.cuts e expected fields ∧
      ∀ pr, after = .merge pr → expected = .testing ∧ fields = landFields ∧ l.Ready e pr
  | .reloading id after =>
    ∀ pr, after = .merge pr → ∃ e, Merging q e ∧ e.id = id ∧ l.Ready e pr
  | .asserting e pr => Merging q e ∧ l.Ready e pr
  | .merging e => Merging q e ∧ ∃ pr, l.Ready e pr

/-- Every row is backed, and the loop holds what is so. -/
structure Sound (q : Queue) (l : Loop) : Prop where
  rows : ∀ e ∈ q.table.rows, Backed l.cuts e
  phase : l.Faithful q

theorem held_of_mem (h : e ∈ q.table.rows) : Held q e := fun _ hrow hid _ => row_eq hrow h hid

theorem Loop.Faithful.of_phase (h : l.Faithful q) (hp : l.phase = phase) :
    (l.at phase).Faithful q := by
  subst hp
  exact h

theorem faithful_of_goesOn (hphase : l.phase.GoesOn l.cuts e) (h : Held q e) : l.Faithful q := by
  cases hp : l.phase with
  | idle =>
    rw [Loop.Faithful, hp]
    trivial
  | writing e' expected fields after =>
    rw [hp] at hphase
    obtain ⟨rfl, hplan, hplain⟩ := hphase
    rw [Loop.Faithful, hp]
    exact ⟨h, hplan.backed, fun pr hmerge => absurd hplain (hmerge ▸ id)⟩
  | pushing e' staged =>
    rw [hp] at hphase
    obtain ⟨rfl, hcut⟩ := hphase
    rw [Loop.Faithful, hp]
    exact ⟨h, hcut⟩
  | cutting e' | filing e' | waiting e' | refused e' | confirming e' | resuming e' =>
    rw [hp] at hphase
    obtain rfl := hphase
    rw [Loop.Faithful, hp]
    exact h
  | chosen e' place expired | reloading id after | landing e' pr | asserting e' pr
  | merging e' =>
    rw [hp] at hphase
    exact hphase.elim

/-! ## What a call leaves alone -/

/-- Active and merged rows are as they were, and merging rows still are. -/
structure Undisturbed (q q' : Queue) : Prop where
  old : ∀ x ∈ q'.table.rows, x.state.active = true ∨ x.state = .merged → x ∈ q.table.rows
  merging : ∀ x ∈ q.table.rows, x.state = .merging → x ∈ q'.table.rows

theorem Rewrites.undisturbed (h : Rewrites q q' r r') (hearly : r.state ≠ .merging)
    (hnew : ¬ (r'.state.active = true ∨ r'.state = .merged)) : Undisturbed q q' where
  old := fun x hx hs => by
    rcases h.cases hx with hold | rfl
    · exact hold.1
    · exact absurd hs hnew
  merging := fun x hx hs => h.keeps hx fun hid => hearly (row_eq hx h.mem hid ▸ hs)

section

variable (h : Undisturbed q q')
include h

theorem Undisturbed.held (he : Held q e) : Held q' e :=
  fun row hrow hid hs => he row (h.old row hrow (.inl hs)) hid hs

theorem Undisturbed.merging_row (he : Merging q e) : Merging q' e :=
  ⟨h.merging e he.mem he.state, he.state⟩

theorem Undisturbed.faithful (hl : l.Faithful q) : l.Faithful q' := by
  cases hp : l.phase with
  | idle =>
    rw [Loop.Faithful, hp]
    trivial
  | chosen e place expired
  | cutting e | filing e | waiting e | refused e | confirming e | resuming e =>
    rw [Loop.Faithful, hp] at hl ⊢
    exact h.held hl
  | pushing e staged | landing e pr | writing e expected fields after =>
    rw [Loop.Faithful, hp] at hl ⊢
    exact ⟨h.held hl.1, hl.2⟩
  | reloading id after =>
    rw [Loop.Faithful, hp] at hl ⊢
    intro pr hmerge
    obtain ⟨e, he, hid, hready⟩ := hl pr hmerge
    exact ⟨e, h.merging_row he, hid, hready⟩
  | asserting e pr | merging e =>
    rw [Loop.Faithful, hp] at hl ⊢
    exact ⟨h.merging_row hl.1, hl.2⟩

theorem Undisturbed.sound (hs : Sound q l) : Sound q' l where
  rows := fun e he => by
    cases hst : e.state.staged with
    | false => exact backed_of_not_staged hst
    | true =>
      refine hs.rows e (h.old e he ?_)
      cases hstate : e.state with
      | testing | merging => exact .inl rfl
      | merged => exact .inr rfl
      | queued | staging | failed | timedOut | withdrawn => cases hstate ▸ hst
  phase := h.faithful hs.phase

end

theorem Undisturbed.refl (q : Queue) : Undisturbed q q := ⟨fun _ hx _ => hx, fun _ hx _ => hx⟩

theorem Operated.undisturbed (h : Operated q call q' given)
    (hretry : ∀ e tries p, call = .rejoining e tries p → ∀ r ∈ q.table.rows, r.id = e.id →
      r.state = e.state → r.state ≠ .merging) : Undisturbed q q' := by
  cases h with
  | same => exact .refl q
  | displaced h live early state position =>
    refine h.undisturbed early fun hs => ?_
    rcases state with hq | hw
    · rw [hq] at hs
      rcases hs with hs | hs <;> cases hs
    · rw [hw] at hs
      rcases hs with hs | hs <;> cases hs
  | retried go h id found state position =>
    refine h.undisturbed (hretry _ _ _ go _ h.mem id found) fun hs => ?_
    rw [state] at hs
    rcases hs with hs | hs <;> cases hs
  | admitted go h state position =>
    refine ⟨fun x hx hs => ?_, fun x hx _ => (h.rows x).mpr (.inl hx)⟩
    rcases (h.rows x).mp hx with hold | rfl
    · exact hold
    · rw [state] at hs
      rcases hs with hs | hs <;> cases hs

/-! ## What a move of the loop keeps -/

section

variable (h : Sound q l)
include h

theorem Sound.idle : Sound q (l.at .idle) := ⟨h.rows, trivial⟩

theorem Sound.goesOn (hphase : phase.GoesOn l.cuts e) (he : Held q e) : Sound q (l.at phase) :=
  ⟨h.rows, faithful_of_goesOn (l := l.at phase) hphase he⟩

theorem Sound.fetched_goesOn (base : Option Sha)
    (hphase : phase.GoesOn l.cuts e) (he : Held q e) : Sound q ((l.fetched base).at phase) :=
  ⟨h.rows, faithful_of_goesOn (l := (l.fetched base).at phase) hphase he⟩

theorem Sound.phase_eq (hp : l.phase = phase) : (l.at phase).Faithful q := h.phase.of_phase hp

omit h in
theorem backed_of_rewrites {cuts : List Cut} (h : ∀ x ∈ q.table.rows, Backed cuts x)
    (hw : Rewrites q q' r r') (hr : Backed cuts r') : ∀ x ∈ q'.table.rows, Backed cuts x :=
  fun x hx => by
    rcases hw.cases hx with hold | rfl
    · exact h x hold.1
    · exact hr

theorem write_sound (hp : l.phase = .writing e expected fields after) :
    Sound (l.write q now e expected fields after).1 (l.write q now e expected fields after).2 := by
  obtain ⟨he, hkeeps, hmerge⟩ := h.phase_eq hp
  rw [Loop.write]
  split
  · rename_i q' hmoved
    obtain ⟨r, hid, hstate, hw⟩ := transition_rewrites hmoved
    have hrow : expected.active = true → r = e := fun ha => he r hw.mem hid (hstate ▸ ha)
    have hcuts : ∀ phase, ((l.wrote expected fields).at phase).cuts = l.cuts := fun _ => by
      rw [Loop.wrote]
      split <;> rfl
    refine ⟨?_, fun pr hafter => ?_⟩
    · rw [hcuts]
      exact backed_of_rewrites h.rows hw (hkeeps now r hstate hrow (h.rows r hw.mem))
    · obtain ⟨rfl, rfl, hready⟩ := hmerge pr hafter
      obtain rfl := hrow rfl
      exact ⟨_, ⟨hw.mem_new, rfl⟩, rfl, hready⟩
  · exact h.idle
  · exact h.idle

theorem cut_sound {staged : Staged} (hp : l.phase = .cutting e) :
    Sound q { l.fetched (some staged.baseSha) with
      cuts := if staged.verdict = .clean then
          ⟨staged.sha, e.headSha, staged.baseSha, staged.tree⟩ :: l.cuts
        else l.cuts
      phase := afterCut e staged } := by
  have he : Held q e := h.phase_eq hp
  refine ⟨fun x hx => (h.rows x hx).mono ?_, faithful_of_goesOn (afterCut_goesOn fun hclean => ?_) he⟩
  · split
    · exact List.subset_cons_self _ _
    · exact List.Subset.refl _
  · rw [if_pos hclean]
    exact List.mem_cons_self

theorem land_sound {base : Option Sha} (hp : l.phase = .landing e pr) :
    Sound q ((l.fetched base).at (land e pr base)) := by
  obtain ⟨he, hpassed⟩ : Held q e ∧ l.Passed e pr := h.phase_eq hp
  rcases land_cases e pr base with hgo | ⟨rfl, hmerge⟩
  · exact h.fetched_goesOn base hgo he
  · rw [hmerge]
    refine ⟨h.rows, he, ?_, fun pr' hpr => ?_⟩
    · exact (planned_keep rfl rfl (fun s hs => by cases hs; exact MergeQueueState.noConfusion) rfl
        fun _ _ => rfl).backed
    · cases hpr
      exact ⟨rfl, rfl, hpassed, rfl⟩

theorem reload_sound {id : Nat} (hp : l.phase = .reloading id after)
    (hget : q.get id = some e) : Sound q (l.at (reloaded cfg e after)) := by
  obtain ⟨hmem, rfl⟩ := get_mem hget
  rcases reloaded_cases cfg e after with hgo | ⟨pr, rfl, hassert⟩
  · exact h.goesOn hgo (held_of_mem hmem)
  · obtain ⟨e', he', hid, hready⟩ := h.phase_eq hp pr rfl
    obtain rfl := row_eq he'.mem hmem hid
    exact ⟨h.rows, he', hready⟩

theorem markBehind_sound {place other : Nat} (hp : l.phase = .chosen e place false)
    (hmoved : transition q other .queued { wait := some .behind } now = .moved q') :
    Sound q' (l.at (.chosen e place true)) := by
  obtain ⟨r, hid, hstate, hw⟩ := transition_rewrites hmoved
  have hun : Undisturbed q q' := by
    refine hw.undisturbed (hstate ▸ MergeQueueState.noConfusion) fun hs => ?_
    have hs : r.state.active = true ∨ r.state = .merged := hs
    rw [hstate] at hs
    rcases hs with hs | hs <;> cases hs
  have he : Held q e := h.phase_eq hp
  exact ⟨(hun.sound h).rows, hun.held he⟩

/-- **A move of the loop** keeps every row backed, and what the loop holds so. -/
theorem advance_sound (answer : Answer) :
    Sound (l.advance cfg q now answer).1 (l.advance cfg q now answer).2 := by
  rw [Loop.advance.eq_def]
  split
  · exact h.idle
  -- idle, pick
  · split
    · exact h
    · rename_i e hhead
      exact ⟨h.rows, held_of_mem (headEntry_spec hhead).1⟩
  -- chosen, markBehind
  · rename_i e place other hp
    split
    · exact h
    · split
      · rename_i hmoved
        exact markBehind_sound h hp hmoved
      · have he : Held q e := h.phase_eq hp
        exact ⟨h.rows, he⟩
      · exact h.idle
  -- chosen, reload
  · split
    · exact h.idle
    · rename_i e hget
      exact ⟨h.rows, held_of_mem (get_mem hget).1⟩
  -- chosen, step
  · rename_i e place hp
    have he : Held q e := h.phase_eq hp
    rcases step_cases place with hgo | ⟨hstate, hstage⟩
    · exact h.goesOn hgo he
    · rw [hstage]
      exact ⟨h.rows, he, fun _ _ _ _ _ => backed_of_not_staged rfl, fun pr hpr => by cases hpr⟩
  -- writing, write
  · rename_i hp
    exact write_sound h hp
  -- reloading, reload
  · rename_i hp
    split
    · exact h.idle
    · rename_i hget
      exact reload_sound h hp hget
  -- cutting, cut
  · rename_i hp
    exact cut_sound h hp
  -- filing, file
  · rename_i e filed hp
    have he : Held q e := h.phase_eq hp
    split
    · exact h.goesOn filed_goesOn he
    · exact h.idle
  -- pushing, push
  · rename_i e staged ok hp
    obtain ⟨he, hcut⟩ := h.phase_eq hp
    exact h.goesOn (afterPush_goesOn hcut) he
  -- waiting, read
  · rename_i e reading hp
    have he : Held q e := h.phase_eq hp
    dsimp only
    rcases wait_cases reading with hgo | ⟨pr, required, rfl, hland, hpasses⟩
    · split
      · rename_i hland
        rw [hland] at hgo
        exact hgo.elim
      · exact h.goesOn hgo he
    · rw [hland]
      exact ⟨h.rows, he, required, rfl, hpasses⟩
  -- landing, fetch
  · rename_i hp
    exact land_sound h hp
  -- asserting, tree
  · rename_i e pr tree hp
    obtain ⟨he, hready⟩ : Merging q e ∧ l.Ready e pr := h.phase_eq hp
    split
    · exact h.idle
    · split
      · exact ⟨h.rows, he, pr, hready⟩
      · exact h.goesOn (stop_goesOn rfl rfl) (held_of_mem he.mem)
  -- merging, merge
  · rename_i e accepted hp
    obtain ⟨he, -⟩ := h.phase_eq hp
    refine h.goesOn (e := e) ?_ (held_of_mem he.mem)
    split <;> exact rfl
  -- refused, fetch
  · rename_i e base hp
    exact h.fetched_goesOn base (mergeRefused_goesOn base) (h.phase_eq hp)
  -- confirming, read
  · rename_i e reading hp
    exact h.goesOn (confirmMerged_goesOn _) (h.phase_eq hp)
  -- resuming, read
  · rename_i e reading hp
    exact h.goesOn (resumeMerging_goesOn _) (h.phase_eq hp)
  · exact h

end

/-- A retry that read its entry as merging is about to write over a merging row. -/
def retriesMidMerge (s : System) : Act → Bool
  | .go session =>
    match s.calls session with
    | .rejoining e _ _ =>
      e.state = .merging ∧ (s.queue.get e.id).map (·.state) = some .merging
    | _ => false
  | _ => false

def NoRetryMidMerge (s : System) (step : Instant × Act) : Prop := retriesMidMerge s step.2 = false

instance (s : System) (step : Instant × Act) : Decidable (NoRetryMidMerge s step) :=
  inferInstanceAs (Decidable (_ = _))

structure System.Sound (s : System) : Prop where
  sound : MergeQueue.Sound s.queue s.loop
  careful : ∀ session, (s.calls session).Careful

theorem System.new_sound : System.new.Sound where
  sound := ⟨fun _ h => absurd h List.not_mem_nil, trivial⟩
  careful := fun _ => trivial

theorem act_sound (h : s.Sound) {act : Act} (hretry : NoRetryMidMerge s (now, act)) :
    (s.act cfg now act).Sound := by
  cases act with
  | loop answer => exact ⟨advance_sound h.sound answer, h.careful⟩
  | call session request => exact ⟨h.sound, update_careful h.careful trivial⟩
  | go session =>
    refine ⟨Undisturbed.sound ?_ h.sound, update_careful h.careful (go_careful (h.careful _))⟩
    refine (go_operated (h.careful session)).undisturbed fun e tries p hcall r hr hid hfound => ?_
    have hno : retriesMidMerge s (.go session) = false := hretry
    simp only [retriesMidMerge, hcall, decide_eq_false_iff_not] at hno
    intro hmerging
    have hget : s.queue.get e.id = some r := hid ▸ Keyed.get_of_mem hr
    refine hno ⟨hfound ▸ hmerging, ?_⟩
    rw [hget, Option.map_some, hmerging]

/-- **Only what was tested is merged**: in every run in which no retry finds its entry merging,
    whenever the loop is about to call for a merge the entry is its row, it is merging, its staged
    commit was cut from its head, was read as passed since an entry was last staged, and stands on
    the base last fetched; and what is merged landed the tree of its staged commit. -/
theorem lands_what_was_tested {trace : List (Instant × Act)}
    (hr : Run (Guarded (QueueStep cfg) NoRetryMidMerge) System.new trace s) :
    (∀ e, s.loop.phase = .merging e → s.queue.get e.id = some e ∧ e.state = .merging ∧
        ⟨e.stagedSha, e.headSha, e.stagedBaseSha, e.stagedTree⟩ ∈ s.loop.cuts ∧
        (∃ pr required, s.loop.verdict = some ⟨e.id, pr, required⟩ ∧
          Passes e.stagedSha pr required) ∧
        s.loop.lastBase = e.stagedBaseSha) ∧
    ∀ e ∈ s.queue.table.rows, e.state = .merged → e.landedTree = e.stagedTree ∧
        ⟨e.stagedSha, e.headSha, e.stagedBaseSha, e.stagedTree⟩ ∈ s.loop.cuts := by
  have hend : s.Sound := by
    refine Run.invariant (P := System.Sound) ?_ System.new_sound hr
    rintro s step _ hs ⟨hretry, rfl⟩
    exact act_sound hs hretry
  constructor
  · intro e hp
    obtain ⟨he, pr, ⟨required, hverdict, hpasses⟩, hbase⟩ := hend.sound.phase_eq hp
    have hcut : e.cut ∈ s.loop.cuts := (hend.sound.rows e he.mem).cut (he.state ▸ rfl)
    exact ⟨Keyed.get_of_mem he.mem, he.state, hcut, ⟨pr, required, hverdict, hpasses⟩, hbase⟩
  · intro e hmem hstate
    have hbacked := hend.sound.rows e hmem
    exact ⟨hbacked.landed hstate, hbacked.cut (hstate ▸ rfl)⟩

/-- The staged pull request, with one check that concluded so. -/
def stagedReading (conclusion : String) : StagedPullRequest where
  headSha := "s1"
  headTree := "t1"
  baseSha := "b1"
  checks := [{ name := "ci", status := "COMPLETED", conclusion := conclusion }]

/-- Its check succeeds, and the loop is about to call for the merge. -/
def lands : List Act :=
  [.read (some (stagedReading "SUCCESS", ["ci"])), .fetch (some "b1"), .write, .reload,
    .tree (some "t1")].map .loop

def landing7 (position attempts : Nat) : MergeQueueEntry where
  id := 0
  prNumber := 7
  headSha := "h7"
  position := position
  state := .merging
  attempts := attempts
  stagedSha := "s1"
  stagedTree := "t1"
  stagedBaseSha := "b1"
  testingStartedAt := some 0

/-- Pull request 7 is queued, staged and about to be merged. -/
def queuedAndLanded : List Act := asks 0 (.enqueue candidate7) 4 ++ stages ++ lands

theorem lands_what_was_tested_once :
    (systemAfter queuedAndLanded).loop.phase = .merging (landing7 1 1) ∧
      (systemAfter queuedAndLanded).queue.get 0 = some (landing7 1 1) ∧
      ⟨"s1", "h7", "b1", "t1"⟩ ∈ (systemAfter queuedAndLanded).loop.cuts ∧
      (systemAfter queuedAndLanded).loop.lastBase = "b1" := by
  have hphase : (systemAfter queuedAndLanded).loop.phase = .merging (landing7 1 1) := by
    decide +kernel
  have hr : Run (Guarded (QueueStep {}) NoRetryMidMerge) System.new
      (queuedAndLanded.map fun act => (0, act)) (systemAfter queuedAndLanded) :=
    run_guarded (by decide +kernel)
  obtain ⟨hrow, -, hcut, -, hbase⟩ := (lands_what_was_tested hr).1 _ hphase
  exact ⟨hphase, hrow, hcut, hbase⟩

/-- Pull request 7 fails its check; a retry of it loses its position to pull request 8,
    which is withdrawn; another retry sends it round again; and as the loop is about to
    merge it, the first retry, which no longer looks at the state it reads, goes on. -/
def retriedMidMerge : List Act :=
  asks 0 (.enqueue candidate7) 4 ++ stages ++
    [.loop (.read (some (stagedReading "FAILURE", ["ci"]))), .loop .write, .loop .reload] ++
    asks 1 (.retry 0) 3 ++ asks 2 (.enqueue candidate8) 4 ++ [.go 1] ++
    asks 2 (.withdraw 1) 2 ++ asks 3 (.retry 0) 4 ++ stages ++ lands ++ [.go 1, .go 1, .go 1]

/-- The loop merges an entry whose row is queued, with no staged commit. -/
theorem merges_requeued_entry :
    ∃ trace s e, Run (QueueStep {}) System.new trace s ∧ s.loop.phase = .merging e ∧
      (s.queue.get e.id).map (fun row => (row.state, row.stagedSha)) = some (.queued, "") :=
  ⟨_, _, landing7 3 2, run_systemAfter retriedMidMerge, by decide +kernel, by decide +kernel⟩

end Loregarden.MergeQueue
