import Loregarden.MergeQueueProofs

/-! # A retried entry and its next cycle

    `retry` and `_take_new_head` put an entry back in the queue and write every staged
    column of it, but not `attempts`. `_stage` reads that column before it cuts.

  * `advance_cases`: everything a move of the loop may do to the table and its phase.
  * `Waiting`: what is so of an entry from the moment it is put back until it is cut.
  * `waiting_step`: every step but that cut keeps it. -/

namespace Loregarden.MergeQueue

open Ranked Runs Option

variable {q q' : Queue} {l : Loop} {r e row : MergeQueueEntry} {id a place : Nat} {now : Instant}
  {expected : MergeQueueState} {fields : Fields} {call : Call} {candidate : Candidate}
  {cfg : Settings} {phase : Phase} {after : After} {answer : Answer} {staged : Staged}

theorem get_transition (h : transition q id expected fields now = .moved q') :
    ∃ row, q.get id = some row ∧ row.state = expected ∧
      q'.get id = some (fields.apply expected now row) ∧ ∀ j, j ≠ id → q'.get j = q.get j := by
  rw [transition] at h
  split at h
  · cases h
  · rename_i row hget
    split at h
    · cases h
    · rename_i hstate
      split at h
      · rename_i hcommit
        cases h
        have htable := commit_eq_some hcommit
        refine ⟨row, hget, not_not.mp hstate, ?_, fun j hj => ?_⟩
        · rw [Queue.get, htable, Keyed.get_update, if_pos rfl]
          exact congrArg (Option.map _) hget
        · rw [Queue.get, htable, Keyed.get_update, if_neg hj]
          rfl
      · cases h

theorem get_insert {t : Table} {x : MergeQueueEntry} (hx : x.id = t.next)
    (hcommit : commit (t.insert x hx) = some q') (hget : t.get id = some row) :
    q'.get id = some row := by
  obtain ⟨hmem, rfl⟩ := Keyed.get_eq_some hget
  rw [Queue.get, commit_eq_some hcommit]
  exact Keyed.get_of_mem ((Keyed.mem_insert hx).mpr (.inl hmem))

/-- A call leaves the attempts of a row alone, and its state too unless it queues or
    withdraws it. -/
theorem go_keeps (q : Queue) (now : Instant) (call : Call) (hget : q.get id = some row) :
    ∃ row', (call.go q now).1.get id = some row' ∧ row'.attempts = row.attempts ∧
      (row'.state = row.state ∨ row'.state = .queued ∨ row'.state = .withdrawn) := by
  have hsame : ∃ row', q.get id = some row' ∧ row'.attempts = row.attempts ∧
      (row'.state = row.state ∨ row'.state = .queued ∨ row'.state = .withdrawn) :=
    ⟨row, hget, rfl, .inl rfl⟩
  have hmoved : ∀ {id' expected fields q'}, transition q id' expected fields now = .moved q' →
      fields.attempts = none → fields.state = some .queued ∨ fields.state = some .withdrawn →
      ∃ row', q'.get id = some row' ∧ row'.attempts = row.attempts ∧
        (row'.state = row.state ∨ row'.state = .queued ∨ row'.state = .withdrawn) := by
    intro id' expected fields q' h hattempts hstate
    obtain ⟨found, hfound, -, hwritten, hothers⟩ := get_transition h
    by_cases hid : id = id'
    · subst hid
      obtain rfl : found = row := some.inj (hfound.symm.trans hget)
      refine ⟨_, hwritten, ?_, .inr ?_⟩
      · show fields.attempts.getD found.attempts = found.attempts
        rw [hattempts]
        rfl
      · show fields.state.getD found.state = .queued ∨ fields.state.getD found.state = .withdrawn
        rcases hstate with hstate | hstate
        · rw [hstate]
          exact .inl rfl
        · rw [hstate]
          exact .inr rfl
    · exact ⟨row, (hothers id hid).trans hget, rfl, .inl rfl⟩
  cases call with
  | requested request => cases request <;> exact hsame
  | positioning candidate tries | placing e tries => cases tries <;> exact hsame
  | clashed candidate tries | rereading id' tries =>
    rw [Call.go]
    split <;> exact hsame
  | repointing candidate e | rejoining e tries p =>
    rw [Call.go]
    split
    · rename_i h
      exact hmoved h rfl (.inl rfl)
    · exact hsame
    · exact hsame
  | withdrawing e =>
    rw [Call.go]
    split
    · rename_i h
      exact hmoved h rfl (.inr rfl)
    · exact hsame
    · exact hsame
  | inserting candidate tries p =>
    rw [Call.go]
    split
    · rename_i h
      exact ⟨row, get_insert _ h hget, rfl, .inl rfl⟩
    · exact hsame
  | idle | replied reply | matching candidate seen | rechecking e => exact hsame

/-! ## What a move of the loop does -/

/-- A phase from which an entry that is queued, staging or withdrawn is not written. -/
def Phase.Settled : Phase → Prop
  | .chosen _ _ _ | .pushing _ _ => False
  | .writing _ expected fields _ =>
    expected = .testing ∨ expected = .merging ∨
      expected = .failed ∧ fields.state = none ∧ fields.attempts = none
  | _ => True

/-- Everything one move of the loop may do to the table and to its phase. -/
inductive Advanced (cfg : Settings) (q : Queue) (l : Loop) (now : Instant) (answer : Answer) :
    Queue → Phase → Prop where
  | rests : Advanced cfg q l now answer q l.phase
  | settles {phase : Phase} (h : phase.Settled) : Advanced cfg q l now answer q phase
  /-- An entry is picked, or the picked one is read again. -/
  | reads {e : MergeQueueEntry} {place : Nat} {expired : Bool} (h : e ∈ q.table.rows) :
      Advanced cfg q l now answer q (.chosen e place expired)
  /-- Another entry is labelled, or was withdrawn meanwhile. -/
  | marks {e : MergeQueueEntry} {place : Nat} {q' : Queue} (hp : l.phase = .chosen e place false)
      (h : q' = q ∨ ∃ other, transition q other .queued { wait := some .behind } now = .moved q') :
      Advanced cfg q l now answer q' (.chosen e place true)
  /-- A queued entry is about to be staged. -/
  | stages {e : MergeQueueEntry} {place : Nat} :
      Advanced cfg q l now answer q (.writing e .queued stageFields (.stage place))
  /-- An entry with no attempt left is about to be stopped. -/
  | stops {e : MergeQueueEntry} (hmax : cfg.maxAttempts ≤ e.attempts)
      (he : e ∈ q.table.rows ∨ ∃ place, l.phase = .chosen e place false) :
      Advanced cfg q l now answer q (stop e .staging .failed)
  | cuts {e : MergeQueueEntry} {staged : Staged} (hp : l.phase = .cutting e)
      (hcut : answer = .cut staged) : Advanced cfg q l now answer q (afterCut e staged)
  | pushes {e : MergeQueueEntry} {staged : Staged} {ok : Bool}
      (hp : l.phase = .pushing e staged) :
      Advanced cfg q l now answer q (afterPush e staged ok now)
  | writes {e : MergeQueueEntry} {expected : MergeQueueState} {fields : Fields} {after : After}
      {q' : Queue} (hp : l.phase = .writing e expected fields after)
      (h : transition q e.id expected fields now = .moved q') :
      Advanced cfg q l now answer q' (.reloading e.id after)

theorem closedOutside_settled {pr : StagedPullRequest} : (closedOutside e pr).Settled := by
  rw [closedOutside]
  split <;> exact .inl rfl

theorem wait_settled (reading : Option (StagedPullRequest × List String)) :
    (wait cfg e now reading).Settled := by
  rw [wait.eq_def]
  split
  · exact .inl rfl
  split
  · exact .inl rfl
  split
  · exact closedOutside_settled
  split
  · exact .inl rfl
  dsimp only
  split
  · exact .inl rfl
  split
  · exact .inl rfl
  split
  · exact .inl rfl
  · trivial

theorem land_settled {pr : StagedPullRequest} (fetched : Option Sha) :
    (land e pr fetched).Settled := by
  cases fetched with
  | none => exact .inl rfl
  | some baseSha =>
    rw [land]
    split <;> exact .inl rfl

theorem mergeRefused_settled (fetched : Option Sha) : (mergeRefused e fetched).Settled := by
  cases fetched with
  | none => exact .inr (.inl rfl)
  | some baseSha =>
    rw [mergeRefused]
    split <;> exact .inr (.inl rfl)

theorem confirmMerged_settled (reading : Option StagedPullRequest) :
    (confirmMerged e reading).Settled := by
  cases reading with
  | none => exact .inr (.inl rfl)
  | some merged =>
    rw [confirmMerged]
    split <;> exact .inr (.inl rfl)

theorem resumeMerging_settled (reading : Option StagedPullRequest) :
    (resumeMerging e reading).Settled := by
  cases reading with
  | none => exact .inr (.inl rfl)
  | some pr =>
    rw [resumeMerging]
    split
    · trivial
    · exact .inr (.inl rfl)

/-- `_stage` past its first write cuts, or stops an entry with no attempt left. -/
theorem advanced_stage (he : e ∈ q.table.rows ∨ ∃ place, l.phase = .chosen e place false) :
    Advanced cfg q l now answer q (stage cfg e) := by
  rw [stage]
  split
  · rename_i hmax
    exact .stops hmax he
  · exact .settles trivial

/-- **What a move of the loop does.** -/
theorem advance_cases (cfg : Settings) (q : Queue) (l : Loop) (now : Instant) (answer : Answer) :
    Advanced cfg q l now answer (l.advance cfg q now answer).1
      (l.advance cfg q now answer).2.phase := by
  rw [Loop.advance.eq_def]
  split
  · exact .settles trivial
  -- idle, pick
  · split
    · exact .rests
    · rename_i e hhead
      exact .reads (headEntry_spec hhead).1
  -- chosen, markBehind
  · rename_i e place other hp
    split
    · exact .rests
    · split
      · rename_i hmoved
        exact .marks hp (.inr ⟨other, hmoved⟩)
      · exact .marks hp (.inl rfl)
      · exact .settles trivial
  -- chosen, reload
  · split
    · exact .settles trivial
    · rename_i e hget
      exact .reads (get_mem hget).1
  -- chosen, step
  · rename_i e place hp
    cases hstate : e.state with
    | queued =>
      rw [show step cfg e place = .writing e .queued stageFields (.stage place) by
        rw [step, hstate]; rfl]
      exact .stages
    | staging =>
      rw [show step cfg e place = stage cfg e by rw [step, hstate]]
      exact advanced_stage (.inr ⟨place, hp⟩)
    | testing | merging | merged | failed | timedOut | withdrawn =>
      rw [step, hstate]
      exact .settles trivial
  -- writing, write
  · rename_i e expected fields after hp
    rw [Loop.write]
    split
    · rename_i q' hmoved
      exact .writes hp hmoved
    · exact .settles trivial
    · exact .settles trivial
  -- reloading, reload
  · rename_i id after hp
    split
    · exact .settles trivial
    · rename_i e hget
      cases after with
      | stage place => exact advanced_stage (.inl (get_mem hget).1)
      | restage => exact .settles (.inl rfl)
      | done | artifact | merge pr | confirm | wait => exact .settles trivial
  -- cutting, cut
  · rename_i hp
    exact .cuts hp rfl
  -- filing, file
  · split
    · exact .settles (.inr (.inr ⟨rfl, rfl, rfl⟩))
    · exact .settles trivial
  -- pushing, push
  · rename_i hp
    exact .pushes hp
  -- waiting, read
  · rename_i e reading hp
    have hsettled : (wait cfg e now reading).Settled := wait_settled reading
    dsimp only
    split <;> exact .settles hsettled
  -- landing, fetch
  · exact .settles (land_settled _)
  -- asserting, tree
  · split
    · exact .settles trivial
    · split
      · exact .settles trivial
      · exact .settles (.inr (.inl rfl))
  -- merging, merge
  · split <;> exact .settles trivial
  -- refused, fetch
  · exact .settles (mergeRefused_settled _)
  -- confirming, read
  · exact .settles (confirmMerged_settled _)
  -- resuming, read
  · exact .settles (resumeMerging_settled _)
  · exact .rests

/-! ## What is so of every run -/

/-- What a pending write does to a row that waits to be staged, or has failed. -/
def Phase.Mild : Phase → Prop
  | .writing _ .queued fields _ => fields = stageFields
  | .writing _ .failed fields _ => fields.state = none ∧ fields.attempts = none
  | .writing _ .withdrawn _ _ => False
  | _ => True

/-- The picked entry has the attempts of its row, whatever was written to it since. -/
structure Known (q : Queue) (l : Loop) : Prop where
  chosen : ∀ e place expired, l.phase = .chosen e place expired →
    ∃ row, q.get e.id = some row ∧ row.attempts = e.attempts
  mild : l.phase.Mild

theorem Phase.Settled.mild (h : phase.Settled) : phase.Mild := by
  cases phase with
  | writing e expected fields after =>
    rcases h with rfl | rfl | ⟨rfl, hstate, hattempts⟩
    · trivial
    · trivial
    · exact ⟨hstate, hattempts⟩
  | chosen e place expired | pushing e staged => exact h.elim
  | _ => trivial

theorem Phase.Settled.not_chosen (h : phase.Settled) {expired : Bool} :
    phase ≠ .chosen e place expired := by
  rintro rfl
  exact h

theorem afterCut_mild : (afterCut e staged).Mild := by
  rw [afterCut]
  split <;> trivial

theorem afterPush_mild {ok : Bool} : (afterPush e staged ok now).Mild := by
  rw [afterPush]
  split <;> trivial

theorem afterCut_not_chosen {e' : MergeQueueEntry} {expired : Bool} :
    afterCut e staged ≠ .chosen e' place expired := by
  rw [afterCut]
  split <;> exact Phase.noConfusion

theorem afterPush_not_chosen {e' : MergeQueueEntry} {ok expired : Bool} :
    afterPush e staged ok now ≠ .chosen e' place expired := by
  rw [afterPush]
  split <;> exact Phase.noConfusion

theorem get_labelled {other : Nat}
    (h : transition q other .queued { wait := some .behind } now = .moved q')
    (hget : q.get id = some row) :
    ∃ row', q'.get id = some row' ∧ row'.attempts = row.attempts ∧ row'.state = row.state := by
  obtain ⟨found, hfound, -, hwritten, hothers⟩ := get_transition h
  by_cases hid : id = other
  · subst hid
    obtain rfl : found = row := some.inj (hfound.symm.trans hget)
    exact ⟨_, hwritten, rfl, rfl⟩
  · exact ⟨row, (hothers id hid).trans hget, rfl, rfl⟩

theorem Known.advance (h : Known q l) (answer : Answer) :
    Known (l.advance cfg q now answer).1 (l.advance cfg q now answer).2 := by
  suffices hall : ∀ q' phase, Advanced cfg q l now answer q' phase →
      ∀ l' : Loop, l'.phase = phase → Known q' l' from
    hall _ _ (advance_cases cfg q l now answer) _ rfl
  intro q' phase hadv l' hl'
  cases hadv with
  | rests => exact ⟨fun e place expired hp => h.chosen e place expired (hl' ▸ hp), hl' ▸ h.mild⟩
  | settles hsettled =>
    exact ⟨fun e place expired hp => absurd (hl' ▸ hp) hsettled.not_chosen, hl' ▸ hsettled.mild⟩
  | reads hmem =>
    refine ⟨fun e' place' expired' hp => ?_, hl' ▸ trivial⟩
    obtain ⟨rfl, -, -⟩ := Phase.chosen.inj (hl'.symm.trans hp)
    exact ⟨_, Keyed.get_of_mem hmem, rfl⟩
  | marks hchosen hmoved =>
    refine ⟨fun e' place' expired' hp => ?_, hl' ▸ trivial⟩
    obtain ⟨rfl, -, -⟩ := Phase.chosen.inj (hl'.symm.trans hp)
    obtain ⟨row, hget, hattempts⟩ := h.chosen _ _ _ hchosen
    rcases hmoved with rfl | ⟨other, hmoved⟩
    · exact ⟨row, hget, hattempts⟩
    · obtain ⟨row', hget', hsame, -⟩ := get_labelled hmoved hget
      exact ⟨row', hget', hsame.trans hattempts⟩
  | stages => exact ⟨fun e place expired hp => (Phase.noConfusion (hl'.symm.trans hp)), hl' ▸ rfl⟩
  | stops hmax he | writes hp hmoved =>
    exact ⟨fun e place expired hp => (Phase.noConfusion (hl'.symm.trans hp)), hl' ▸ trivial⟩
  | cuts hp hcut =>
    exact ⟨fun e place expired hp => absurd (hl'.symm.trans hp) afterCut_not_chosen,
      hl' ▸ afterCut_mild⟩
  | pushes hp =>
    exact ⟨fun e place expired hp => absurd (hl'.symm.trans hp) afterPush_not_chosen,
      hl' ▸ afterPush_mild⟩

theorem Known.act {s : System} (h : Known s.queue s.loop) (act : Act) :
    Known (s.act cfg now act).queue (s.act cfg now act).loop := by
  cases act with
  | loop answer => exact h.advance answer
  | call session request => exact h
  | go session =>
    refine ⟨fun e place expired hp => ?_, h.mild⟩
    obtain ⟨row, hget, hattempts⟩ := h.chosen e place expired hp
    obtain ⟨row', hget', hsame, -⟩ := go_keeps s.queue now (s.calls session) hget
    exact ⟨row', hget', hsame.trans hattempts⟩

theorem known_run {trace : List (Instant × Act)} {s : System}
    (h : Run (QueueStep cfg) System.new trace s) : Known s.queue s.loop := by
  refine Run.invariant (P := fun s => Known s.queue s.loop) ?_ ?_ h
  · rintro s ⟨now, act⟩ t hs rfl
    exact hs.act act
  · exact ⟨fun e place expired hp => Phase.noConfusion hp, trivial⟩

/-! ## From being put back to the next cut -/

/-- The loop is not past the cut of the entry; what it may be about to write to it as it is
    staging is the stop of an entry with no attempt left. -/
def Phase.Uncut (cfg : Settings) (id a : Nat) : Phase → Prop
  | .pushing e _ => e.id ≠ id
  | .writing e .staging fields _ =>
    e.id = id → cfg.maxAttempts ≤ a ∧ fields.state = some .failed ∧ fields.attempts = none
  | _ => True

/-- An entry put back with `a` attempts, before it is cut again. -/
def Waiting (cfg : Settings) (id a : Nat) (q : Queue) (l : Loop) : Prop :=
  ∃ row, q.get id = some row ∧ row.attempts = a ∧ (row.state = .queued ∨ row.state = .withdrawn ∨
      row.state = .staging ∧ l.phase.Uncut cfg id a ∨
      row.state = .failed ∧ cfg.maxAttempts ≤ a)

/-- The act cuts the entry that was staged; a cut of what it was before it was put back
    finds it queued. -/
def FreshCut (id : Nat) (s : System) (act : Act) : Prop :=
  ∃ staged e row, act = .loop (.cut staged) ∧ s.loop.phase = .cutting e ∧ e.id = id ∧
    s.queue.get id = some row ∧ row.state = .staging

theorem Phase.Settled.uncut (h : phase.Settled) : phase.Uncut cfg id a := by
  cases phase with
  | writing e expected fields after =>
    rcases h with rfl | rfl | ⟨rfl, -, -⟩
    · trivial
    · trivial
    · trivial
  | pushing e staged => exact h.elim
  | _ => trivial

theorem afterCut_uncut (he : e.id ≠ id) : (afterCut e staged).Uncut cfg id a := by
  rw [afterCut]
  split
  · exact fun h => absurd h he
  · exact fun h => absurd h he
  · exact he

theorem afterPush_uncut {ok : Bool} (he : e.id ≠ id) :
    (afterPush e staged ok now).Uncut cfg id a := by
  rw [afterPush]
  split
  · exact fun h => absurd h he
  · exact fun h => absurd h he

/-- A phase that is not past the cut of the entry leaves it waiting, when the table is as it was. -/
theorem Waiting.at_phase (h : Waiting cfg id a q l) {l' : Loop}
    (hphase : (∃ row, q.get id = some row ∧ row.attempts = a ∧ row.state = .staging ∧
      l.phase.Uncut cfg id a) → l'.phase.Uncut cfg id a) : Waiting cfg id a q l' := by
  obtain ⟨row, hget, hattempts, hstate⟩ := h
  refine ⟨row, hget, hattempts, ?_⟩
  rcases hstate with hqueued | hwithdrawn | ⟨hstaging, huncut⟩ | hfailed
  · exact .inl hqueued
  · exact .inr (.inl hwithdrawn)
  · exact .inr (.inr (.inl ⟨hstaging, hphase ⟨row, hget, hattempts, hstaging, huncut⟩⟩))
  · exact .inr (.inr (.inr hfailed))

theorem Waiting.written (h : Waiting cfg id a q l) (hk : Known q l)
    (hp : l.phase = .writing e expected fields after)
    (hmoved : transition q e.id expected fields now = .moved q') {l' : Loop}
    (hl' : l'.phase = .reloading e.id after) : Waiting cfg id a q' l' := by
  have huncut : l'.phase.Uncut cfg id a := by
    rw [hl']
    trivial
  obtain ⟨row, hget, hattempts, hstate⟩ := h
  obtain ⟨found, hfound, hexpected, hwritten, hothers⟩ := get_transition hmoved
  have hmild := hp ▸ hk.mild
  by_cases hid : id = e.id
  · subst hid
    obtain rfl : found = row := some.inj (hfound.symm.trans hget)
    have hkeeps : fields.attempts = none → (fields.apply expected now found).attempts = a := by
      intro hnone
      show fields.attempts.getD found.attempts = a
      rw [hnone]
      exact hattempts
    have hreads : ∀ {st}, fields.state = some st →
        (fields.apply expected now found).state = st := by
      intro st hst
      show fields.state.getD found.state = st
      rw [hst]
      rfl
    refine ⟨_, hwritten, ?_⟩
    rcases hstate with hqueued | hwithdrawn | ⟨hstaging, hcut⟩ | ⟨hfailed, hmax⟩
    · -- the entry is staged
      obtain rfl : expected = .queued := hexpected.symm.trans hqueued
      obtain rfl : fields = stageFields := hmild
      exact ⟨hkeeps rfl, .inr (.inr (.inl ⟨hreads rfl, huncut⟩))⟩
    · obtain rfl : expected = .withdrawn := hexpected.symm.trans hwithdrawn
      exact hmild.elim
    · -- it has no attempt left, and is stopped
      obtain rfl : expected = .staging := hexpected.symm.trans hstaging
      rw [hp] at hcut
      obtain ⟨hmax, hfailed, hnone⟩ := hcut rfl
      exact ⟨hkeeps hnone, .inr (.inr (.inr ⟨hreads hfailed, hmax⟩))⟩
    · obtain rfl : expected = .failed := hexpected.symm.trans hfailed
      obtain ⟨hnone, hsame⟩ : fields.state = none ∧ fields.attempts = none := hmild
      refine ⟨hkeeps hsame, .inr (.inr (.inr ⟨?_, hmax⟩))⟩
      show fields.state.getD found.state = .failed
      rw [hnone]
      exact hfailed
  · refine ⟨row, (hothers id hid).trans hget, hattempts, ?_⟩
    rcases hstate with hqueued | hwithdrawn | ⟨hstaging, -⟩ | hfailed
    · exact .inl hqueued
    · exact .inr (.inl hwithdrawn)
    · exact .inr (.inr (.inl ⟨hstaging, huncut⟩))
    · exact .inr (.inr (.inr hfailed))

section

variable {s : System} (h : Waiting cfg id a s.queue s.loop) (hk : Known s.queue s.loop)
include h hk

theorem Waiting.advance (answer : Answer) (hcut : ¬ FreshCut id s (.loop answer)) :
    Waiting cfg id a (s.loop.advance cfg s.queue now answer).1
      (s.loop.advance cfg s.queue now answer).2 := by
  suffices hall : ∀ q' phase, Advanced cfg s.queue s.loop now answer q' phase →
      ∀ l' : Loop, l'.phase = phase → Waiting cfg id a q' l' from
    hall _ _ (advance_cases cfg s.queue s.loop now answer) _ rfl
  intro q' phase hadv l' hl'
  cases hadv with
  | rests => exact h.at_phase fun ⟨_, _, _, _, huncut⟩ => hl' ▸ huncut
  | settles hsettled => exact h.at_phase fun _ => hl' ▸ hsettled.uncut
  | reads hmem | stages => exact h.at_phase fun _ => hl' ▸ trivial
  | marks hchosen hmoved =>
    have hphase : l'.phase.Uncut cfg id a := hl' ▸ trivial
    rcases hmoved with rfl | ⟨other, hmoved⟩
    · exact h.at_phase fun _ => hphase
    · obtain ⟨row, hget, hattempts, hstate⟩ := h
      obtain ⟨row', hget', hsame, hsame'⟩ := get_labelled hmoved hget
      refine ⟨row', hget', hsame.trans hattempts, ?_⟩
      rw [hsame']
      rcases hstate with hqueued | hwithdrawn | ⟨hstaging, -⟩ | hfailed
      · exact .inl hqueued
      · exact .inr (.inl hwithdrawn)
      · exact .inr (.inr (.inl ⟨hstaging, hphase⟩))
      · exact .inr (.inr (.inr hfailed))
  | stops hmax he =>
    rename_i e
    refine h.at_phase fun ⟨row, hget, hattempts, _, _⟩ => ?_
    rw [hl']
    rintro rfl
    refine ⟨?_, rfl, rfl⟩
    have hsame : row.attempts = e.attempts := by
      rcases he with hmem | ⟨place, hp⟩
      · rw [some.inj (hget.symm.trans (Keyed.get_of_mem hmem))]
      · obtain ⟨row', hget', hattempts'⟩ := hk.chosen _ _ _ hp
        rw [some.inj (hget.symm.trans hget'), hattempts']
    rw [← hattempts, hsame]
    exact hmax
  | cuts hp hanswer =>
    rename_i e staged
    refine h.at_phase fun ⟨row, hget, _, hstaging, _⟩ => ?_
    rw [hl']
    refine afterCut_uncut fun hid => hcut ?_
    exact ⟨staged, e, row, by rw [hanswer], hp, hid, hget, hstaging⟩
  | pushes hp =>
    refine h.at_phase fun ⟨row, _, _, _, huncut⟩ => ?_
    rw [hp] at huncut
    rw [hl']
    exact afterPush_uncut huncut
  | writes hp hmoved => exact h.written hk hp hmoved hl'

theorem waiting_step (act : Act) (hcut : ¬ FreshCut id s act) :
    Waiting cfg id a (s.act cfg now act).queue (s.act cfg now act).loop := by
  cases act with
  | loop answer => exact h.advance hk answer hcut
  | call session request => exact h
  | go session =>
    obtain ⟨row, hget, hattempts, hstate⟩ := h
    obtain ⟨row', hget', hsame, hsame'⟩ := go_keeps s.queue now (s.calls session) hget
    refine ⟨row', hget', hsame.trans hattempts, ?_⟩
    rcases hsame' with hsame' | hqueued | hwithdrawn
    · rw [hsame']
      exact hstate
    · exact .inl hqueued
    · exact .inr (.inl hwithdrawn)

end

def NoFreshCut (id : Nat) (s : System) (step : Instant × Act) : Prop := ¬ FreshCut id s step.2

/-- **An entry that was put back waits until it is cut.** -/
theorem waiting_run {trace : List (Instant × Act)} {s s' : System} (hk : Known s.queue s.loop)
    (h : Waiting cfg id a s.queue s.loop)
    (hrun : Run (Guarded (QueueStep cfg) (NoFreshCut id)) s trace s') :
    Known s'.queue s'.loop ∧ Waiting cfg id a s'.queue s'.loop := by
  refine Run.invariant
    (P := fun s => Known s.queue s.loop ∧ Waiting cfg id a s.queue s.loop) ?_ ⟨hk, h⟩ hrun
  rintro s ⟨now, act⟩ t ⟨hk, h⟩ ⟨hcut, rfl⟩
  exact ⟨hk.act act, waiting_step h hk act hcut⟩

/-! ## Being put back -/

/-- The call answers that it retried the entry, or gave it a new head. -/
def PutBack (id : Nat) (q : Queue) (now : Instant) (call : Call) : Prop :=
  ((call.go q now).2.1 = .replied (.retried id) ∨ (call.go q now).2.1 = .replied (.updated id)) ∧
    call ≠ (call.go q now).2.1

instance : Decidable (PutBack id q now call) := inferInstanceAs (Decidable (_ ∧ _))

theorem enqueue_not_putBack : enqueue q candidate ≠ .replied (.retried id) ∧
      enqueue q candidate ≠ .replied (.updated id) := by
  rw [enqueue]
  split
  · simp
  · split <;> simp

theorem matchPr_not_putBack {seen : List MergeQueueEntry} :
    matchPr q candidate seen ≠ .replied (.retried id) ∧
      matchPr q candidate seen ≠ .replied (.updated id) := by
  rw [matchPr]
  split
  · split <;> simp
  · simp

theorem withdraw_not_putBack {id' : Nat} :
    withdraw q id' ≠ .replied (.retried id) ∧ withdraw q id' ≠ .replied (.updated id) := by
  rw [withdraw]
  split
  · simp
  · split
    · simp
    · split
      · split <;> simp
      · simp

theorem retry_not_putBack {id' : Nat} :
    retry q id' ≠ .replied (.retried id) ∧ retry q id' ≠ .replied (.updated id) := by
  rw [retry]
  split
  · simp
  · split <;> simp

theorem recheck_not_putBack :
    recheck q e ≠ .replied (.retried id) ∧ recheck q e ≠ .replied (.updated id) := by
  rw [recheck]
  split <;> simp

theorem PutBack.queued (h : PutBack id q now call) :
    ∃ row, (call.go q now).1.get id = some row ∧ row.state = .queued := by
  obtain ⟨hreply, hopen⟩ := h
  cases call with
  | repointing candidate e =>
    rw [Call.go] at hreply ⊢
    split at hreply
    · rename_i q' hmoved
      obtain ⟨row, -, -, hwritten, -⟩ := get_transition hmoved
      simp at hreply
      subst hreply
      exact ⟨_, hwritten, rfl⟩
    · simp at hreply
    · simp at hreply
  | rejoining e tries p =>
    rw [Call.go] at hreply ⊢
    split at hreply
    · rename_i q' hmoved
      obtain ⟨row, -, -, hwritten, -⟩ := get_transition hmoved
      simp at hreply
      subst hreply
      exact ⟨_, hwritten, rfl⟩
    · simp [movedWhile] at hreply
    · simp at hreply
  | requested request =>
    exfalso
    cases request with
    | enqueue candidate => exact hreply.elim enqueue_not_putBack.1 enqueue_not_putBack.2
    | withdraw id' => exact hreply.elim withdraw_not_putBack.1 withdraw_not_putBack.2
    | retry id' => exact hreply.elim retry_not_putBack.1 retry_not_putBack.2
  | matching candidate seen =>
    exact (hreply.elim matchPr_not_putBack.1 matchPr_not_putBack.2).elim
  | rechecking e => exact (hreply.elim recheck_not_putBack.1 recheck_not_putBack.2).elim
  | replied reply => exact absurd rfl hopen
  | positioning candidate tries | placing e tries => cases tries <;> simp [Call.go] at hreply
  | inserting candidate tries p | clashed candidate tries | rereading id' tries =>
    rw [Call.go] at hreply
    split at hreply <;> simp at hreply
  | withdrawing e =>
    rw [Call.go] at hreply
    split at hreply <;> simp [movedWhile] at hreply
  | idle => simp [Call.go] at hreply

end Loregarden.MergeQueue
