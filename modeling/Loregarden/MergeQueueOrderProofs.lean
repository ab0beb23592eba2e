import Loregarden.MergeQueueProofs

/-! # The order of the merge queue

    An active entry stands ahead of every other live one, so there is at most one.
    **`queue_keeps_order`**: while a position is given out as it is read, and the
    entry the loop stages still stands where it was chosen, this holds in every
    state, live heads differ, and no position is ever given to two entries.

    * `Displaces`, `Gives`, `Stages`: the three ways a row is written;
    * `advance_orderly`, `operated_orderly`: what a move keeps. -/

namespace Loregarden.MergeQueue

open Ranked Runs List Option

variable {q q' : Queue} {l l' : Loop} {s s' : System} {e r r' x y : MergeQueueEntry}
  {now : Instant} {cfg : Settings} {phase : Phase} {expected : MergeQueueState} {fields : Fields}
  {after : After} {call : Call} {given : Option (Nat × Nat)} {used : List (Nat × Nat)}
  {id place p : Nat} {cuts : List Cut}

/-- The table in order, and the positions that were given out. -/
structure Disciplined (q : Queue) (used : List (Nat × Nat)) : Prop where
  /-- An active entry stands ahead of every other live one. -/
  ahead : ∀ x ∈ q.table.rows, x.state.active = true → ∀ y ∈ q.table.rows,
    y.state.terminal = false → y.id ≠ x.id → x.position < y.position
  given : ∀ x ∈ q.table.rows, (x.position, x.id) ∈ used
  below : ∀ u ∈ used, u.1 < nextPosition q
  once : ∀ u ∈ used, ∀ v ∈ used, u.1 = v.1 → u = v

theorem Disciplined.alone (h : Disciplined q used) (hx : x ∈ q.table.rows)
    (hxa : x.state.active = true) (hy : y ∈ q.table.rows) (hya : y.state.active = true) :
    x = y := by
  by_contra hne
  have hid : x.id ≠ y.id := fun hid => hne (row_eq hx hy hid)
  have hxy := h.ahead x hx hxa y hy (MergeQueueState.not_terminal_of_active hya) hid.symm
  have hyx := h.ahead y hy hya x hx (MergeQueueState.not_terminal_of_active hxa) hid
  exact Nat.lt_asymm hxy hyx

/-- An entry that stood at a place could be staged: nothing else is active, and
    everything else that is live comes after the place. -/
structure Front (q : Queue) (id place : Nat) : Prop where
  alone : ∀ x ∈ q.table.rows, x.state.active = true → x.id = id
  below : place < nextPosition q
  ahead : ∀ y ∈ q.table.rows, y.state.terminal = false → y.id ≠ id → place < y.position

theorem Disciplined.front (h : Disciplined q used) (he : headEntry q = some e) :
    Front q e.id e.position := by
  obtain ⟨hmem, -, hspec⟩ := headEntry_spec he
  refine ⟨fun x hx hxa => ?_, lt_nextPosition hmem, fun y hy hlive hid => ?_⟩
  · rcases hspec with hactive | ⟨hnone, -⟩
    · rw [h.alone hx hxa hmem hactive]
    · exact absurd (hnone x hx) (hxa ▸ Bool.false_ne_true.symm)
  · rcases hspec with hactive | ⟨-, hfirst⟩
    · exact h.ahead e hmem hactive y hy hlive hid
    · exact hfirst y hy hlive hid

/-! ## The three ways a row is written -/

/-- A row is written in its place; it does not become active, or live again. -/
structure Displaces (q q' : Queue) (r r' : MergeQueueEntry) : Prop where
  rewrites : Rewrites q q' r r'
  position : r'.position = r.position
  active : r'.state.active = true → r.state.active = true
  live : r'.state.terminal = false → r.state.terminal = false

section

variable (h : Displaces q q' r r')
include h

theorem Displaces.back (hx : x ∈ q'.table.rows) :
    ∃ y ∈ q.table.rows, y.id = x.id ∧ y.position = x.position ∧
      (x.state.active = true → y.state.active = true) ∧
      (x.state.terminal = false → y.state.terminal = false) := by
  rcases h.rewrites.cases hx with hold | rfl
  · exact ⟨x, hold.1, rfl, rfl, fun h => h, fun h => h⟩
  · exact ⟨r, h.rewrites.mem, h.rewrites.id.symm, h.position.symm, h.active, h.live⟩

theorem Displaces.nextPosition_le : nextPosition q ≤ nextPosition q' :=
  h.rewrites.nextPosition_le h.position.ge

theorem Displaces.front (hf : Front q id place) : Front q' id place where
  alone := fun x hx hxa => by
    obtain ⟨x₀, hx₀, hid, -, hact, -⟩ := h.back hx
    exact hid.symm.trans (hf.alone x₀ hx₀ (hact hxa))
  below := Nat.lt_of_lt_of_le hf.below h.nextPosition_le
  ahead := fun y hy hlive hid => by
    obtain ⟨y₀, hy₀, hyid, hpos, -, hlive₀⟩ := h.back hy
    exact hpos ▸ hf.ahead y₀ hy₀ (hlive₀ hlive) (hyid ▸ hid)

theorem Displaces.disciplined (hd : Disciplined q used) : Disciplined q' used where
  ahead := fun x hx hxa y hy hlive hid => by
    obtain ⟨x₀, hx₀, hxid, hxpos, hact, -⟩ := h.back hx
    obtain ⟨y₀, hy₀, hyid, hypos, -, hlive₀⟩ := h.back hy
    rw [← hxpos, ← hypos]
    exact hd.ahead x₀ hx₀ (hact hxa) y₀ hy₀ (hlive₀ hlive) (hxid ▸ hyid ▸ hid)
  given := fun x hx => by
    obtain ⟨x₀, hx₀, hxid, hxpos, -, -⟩ := h.back hx
    rw [← hxid, ← hxpos]
    exact hd.given x₀ hx₀
  below := fun u hu => Nat.lt_of_lt_of_le (hd.below u hu) h.nextPosition_le
  once := hd.once

end

/-- A row joins at the back: one that was there, or a new one. -/
structure Gives (q q' : Queue) (r : MergeQueueEntry) : Prop where
  rows : ∀ x ∈ q'.table.rows, x ∈ q.table.rows ∨ x = r
  mem : r ∈ q'.table.rows
  state : r.state = .queued
  position : r.position = nextPosition q
  nextPosition_le : nextPosition q ≤ nextPosition q'

theorem Gives.not_active (h : Gives q q' r) : r.state.active ≠ true := by
  rw [h.state]
  exact Bool.false_ne_true

theorem Gives.front (h : Gives q q' r) (hf : Front q id place) : Front q' id place where
  alone := fun x hx hxa => by
    rcases h.rows x hx with hold | rfl
    · exact hf.alone x hold hxa
    · exact absurd hxa h.not_active
  below := Nat.lt_of_lt_of_le hf.below h.nextPosition_le
  ahead := fun y hy hlive hid => by
    rcases h.rows y hy with hold | rfl
    · exact hf.ahead y hold hlive hid
    · exact h.position ▸ hf.below

theorem Gives.disciplined (h : Gives q q' r) (hd : Disciplined q used) :
    Disciplined q' ((nextPosition q, r.id) :: used) where
  ahead := fun x hx hxa y hy hlive hid => by
    rcases h.rows x hx with hxold | rfl
    · rcases h.rows y hy with hyold | rfl
      · exact hd.ahead x hxold hxa y hyold hlive hid
      · exact h.position ▸ lt_nextPosition hxold
    · exact absurd hxa h.not_active
  given := fun x hx => by
    rcases h.rows x hx with hold | rfl
    · exact mem_cons_of_mem _ (hd.given x hold)
    · exact h.position ▸ mem_cons_self
  below := fun u hu => by
    rcases mem_cons.mp hu with rfl | hold
    · exact h.position ▸ lt_nextPosition h.mem
    · exact Nat.lt_of_lt_of_le (hd.below u hold) h.nextPosition_le
  once := fun u hu v hv huv => by
    -- the new position is above every one that was given out
    rcases mem_cons.mp hu with rfl | hu
    · rcases mem_cons.mp hv with rfl | hv
      · rfl
      · exact absurd huv (hd.below v hv).ne'
    · rcases mem_cons.mp hv with rfl | hv
      · exact absurd huv (hd.below u hu).ne
      · exact hd.once u hu v hv huv

theorem Rewrites.staged_disciplined (h : Rewrites q q' r r') (hpos : r'.position = r.position)
    (hf : Front q r.id r.position) (hd : Disciplined q used) : Disciplined q' used where
  ahead := fun x hx hxa y hy hlive hid => by
    have hx' : x = r' := by
      rcases h.cases hx with hold | hnew
      · exact absurd (hf.alone x hold.1 hxa) hold.2
      · exact hnew
    subst hx'
    rcases h.cases hy with hold | rfl
    · rw [hpos]
      exact hf.ahead y hold.1 hlive hold.2
    · exact absurd rfl hid
  given := fun x hx => by
    rcases h.cases hx with hold | rfl
    · exact hd.given x hold.1
    · rw [hpos, h.id]
      exact hd.given r h.mem
  below := fun u hu => Nat.lt_of_lt_of_le (hd.below u hu) (h.nextPosition_le hpos.ge)
  once := hd.once

/-- A call that gives out a position gives out the next one. -/
def Call.Next (q : Queue) : Call → Prop
  | .inserting _ _ p | .rejoining _ _ p => p = nextPosition q
  | _ => True

theorem Operated.order (h : Operated q call q' given) (hnext : call.Next q) :
    q' = q ∧ given = none ∨ (∃ r r', Displaces q q' r r' ∧ given = none) ∨
      ∃ r, Gives q q' r ∧ given = some (nextPosition q, r.id) := by
  cases h with
  | same => exact .inl ⟨rfl, rfl⟩
  | displaced h live early state position =>
    refine .inr (.inl ⟨_, _, ⟨h, position, fun ha => ?_, fun _ => live⟩, rfl⟩)
    rcases state with hs | hs
    · rw [hs] at ha
      cases ha
    · rw [hs] at ha
      cases ha
  | @retried _ _ r r' _ p go h id found state position =>
    have hp : p = nextPosition q := by
      rw [go] at hnext
      exact hnext
    refine .inr (.inr ⟨r', ⟨fun x hx => ?_, h.mem_new, state, position.trans hp, ?_⟩, ?_⟩)
    · exact (h.cases hx).imp_left And.left
    · refine h.nextPosition_le ?_
      rw [position, hp]
      exact (lt_nextPosition h.mem).le
    · rw [hp, h.id, id]
  | @admitted _ _ r _ p go h state position =>
    have hp : p = nextPosition q := by
      rw [go] at hnext
      exact hnext
    refine .inr (.inr ⟨r, ⟨fun x hx => (h.rows x).mp hx, (h.rows r).mpr (.inr rfl), state,
      position.trans hp, ?_⟩, by rw [hp]⟩)
    exact nextPosition_mono fun x hx => ⟨x, (h.rows x).mpr (.inl hx), le_rfl⟩

/-! ## What a move of the loop keeps -/

/-- A write of the loop that leaves its entry in its place, and makes none active. -/
structure Placid (expected : MergeQueueState) (fields : Fields) : Prop where
  active : fields.state ≠ none → expected.active = true
  position : fields.position = none

/-- The entry the loop has chosen, and not yet staged, stands at the front. -/
def Loop.Placed (q : Queue) (l : Loop) : Prop :=
  match l.phase with
  | .chosen e place _ => Front q e.id place
  | .writing e expected fields after =>
    Placid expected fields ∨ ∃ place, expected = .queued ∧ fields = stageFields ∧
      after = .stage place ∧ Front q e.id place
  | _ => True

/-- The table is in order, and the loop's entry stands at the front. -/
structure Orderly (q : Queue) (used : List (Nat × Nat)) (l : Loop) : Prop where
  table : Disciplined q used
  phase : l.Placed q

theorem Loop.Placed.of_phase (h : l.Placed q) (hp : l.phase = phase) : (l.at phase).Placed q := by
  subst hp
  exact h

theorem Orderly.phase_eq (h : Orderly q used l) (hp : l.phase = phase) : (l.at phase).Placed q :=
  h.phase.of_phase hp

theorem placed_of_goesOn (h : l.phase.GoesOn cuts e) : l.Placed q := by
  cases hp : l.phase with
  | writing e' expected fields after =>
    rw [hp] at h
    rw [Loop.Placed, hp]
    exact .inl ⟨h.2.1.active, h.2.1.position⟩
  | chosen e' place expired =>
    rw [hp] at h
    exact h.elim
  | idle | reloading id after | cutting e' | filing e' | pushing e' built | waiting e'
  | landing e' pr | asserting e' pr | merging e' | refused e' | confirming e' | resuming e' =>
    rw [Loop.Placed, hp]
    trivial

theorem Loop.Placed.mono (h : l.Placed q) (hf : ∀ id place, Front q id place → Front q' id place) :
    l.Placed q' := by
  cases hp : l.phase with
  | writing e expected fields after =>
    rw [Loop.Placed, hp] at h ⊢
    refine h.imp_right ?_
    rintro ⟨place, hexp, hfields, hafter, hfront⟩
    exact ⟨place, hexp, hfields, hafter, hf _ _ hfront⟩
  | chosen e place expired =>
    rw [Loop.Placed, hp] at h ⊢
    exact hf _ _ h
  | idle | reloading id after | cutting e | filing e | pushing e built | waiting e
  | landing e pr | asserting e pr | merging e | refused e | confirming e | resuming e =>
    rw [Loop.Placed, hp]
    trivial

theorem operated_orderly (h : Operated q call q' given) (hnext : call.Next q)
    (ho : Orderly q used l) : Orderly q' (given.toList ++ used) l := by
  rcases h.order hnext with ⟨rfl, rfl⟩ | ⟨r, r', hd, rfl⟩ | ⟨r, hg, rfl⟩
  · exact ho
  · exact ⟨hd.disciplined ho.table, ho.phase.mono fun _ _ => hd.front⟩
  · exact ⟨hg.disciplined ho.table, ho.phase.mono fun _ _ => hg.front⟩

section

variable (h : Orderly q used l)
include h

theorem Orderly.goesOn (cuts : List Cut) (hl : l'.phase.GoesOn cuts e) : Orderly q used l' :=
  ⟨h.table, placed_of_goesOn hl⟩

theorem Orderly.idle : Orderly q used (l.at .idle) := ⟨h.table, trivial⟩

omit h in
theorem Placid.displaces (h : Placid expected fields) (hstate : r.state = expected)
    (hw : Rewrites q q' r (fields.apply expected now r)) :
    Displaces q q' r (fields.apply expected now r) := by
  cases hs : fields.state with
  | none =>
    have hsame : (fields.apply expected now r).state = r.state := by
      show fields.state.getD r.state = r.state
      rw [hs, getD_none]
    refine ⟨hw, ?_, fun ha => hsame ▸ ha, fun hlive => hsame ▸ hlive⟩
    show fields.position.getD r.position = r.position
    rw [h.position, getD_none]
  | some state =>
    have hactive : r.state.active = true := hstate ▸ h.active (hs ▸ some_ne_none _)
    refine ⟨hw, ?_, fun _ => hactive, fun _ => MergeQueueState.not_terminal_of_active hactive⟩
    show fields.position.getD r.position = r.position
    rw [h.position, getD_none]

/-- The entry the loop is about to stage has left its place. -/
def Loop.misplaced (q : Queue) (l : Loop) : Bool :=
  match l.phase with
  | .writing e .queued _ (.stage place) =>
    (q.get e.id).any fun row => row.state = .queued ∧ row.position ≠ place
  | _ => false

theorem write_orderly (hp : l.phase = .writing e expected fields after)
    (hplace : l.misplaced q = false) :
    Orderly (l.write q now e expected fields after).1 used
      (l.write q now e expected fields after).2 := by
  rw [Loop.write]
  split
  · rename_i q' hmoved
    obtain ⟨r, hid, hstate, hw⟩ := transition_rewrites hmoved
    rcases h.phase_eq hp with hplacid | ⟨place, rfl, rfl, rfl, hfront⟩
    · exact ⟨(hplacid.displaces hstate hw).disciplined h.table, trivial⟩
    · refine ⟨hw.staged_disciplined rfl ?_ h.table, trivial⟩
      have hget : q.get e.id = some r := hid ▸ Keyed.get_of_mem hw.mem
      simp only [Loop.misplaced, hp, hget, any_some, decide_eq_false_iff_not] at hplace
      have hpos : r.position = place := by
        by_contra hne
        exact hplace ⟨hstate, hne⟩
      rw [hpos, hid]
      exact hfront
  · exact h.idle
  · exact h.idle

theorem markBehind_orderly {other : Nat} (hp : l.phase = .chosen e place false)
    (hmoved : transition q other .queued { wait := some .behind } now = .moved q') :
    Orderly q' used (l.at (.chosen e place true)) := by
  obtain ⟨r, hid, hstate, hw⟩ := transition_rewrites hmoved
  have hplacid : Placid .queued { wait := some .behind } := ⟨fun hs => absurd rfl hs, rfl⟩
  have hd := hplacid.displaces hstate hw
  have hfront : Front q e.id place := h.phase_eq hp
  exact ⟨hd.disciplined h.table, hd.front hfront⟩

/-- **A move of the loop** keeps the order, when the entry it stages still is where it was
    chosen. -/
theorem advance_orderly (answer : Answer) (hplace : answer = .write → l.misplaced q = false) :
    Orderly (l.advance cfg q now answer).1 used (l.advance cfg q now answer).2 := by
  rw [Loop.advance.eq_def]
  split
  · exact h.idle
  -- idle, pick
  · split
    · exact h
    · rename_i e hhead
      exact ⟨h.table, h.table.front hhead⟩
  -- chosen, markBehind
  · rename_i e place other hp
    split
    · exact h
    · split
      · rename_i hmoved
        exact markBehind_orderly h hp hmoved
      · have hfront : Front q e.id place := h.phase_eq hp
        exact ⟨h.table, hfront⟩
      · exact h.idle
  -- chosen, reload
  · rename_i e place hp
    split
    · exact h.idle
    · rename_i e' hget
      have hfront : Front q e.id place := h.phase_eq hp
      rw [← (get_mem hget).2] at hfront
      exact ⟨h.table, hfront⟩
  -- chosen, step
  · rename_i e place hp
    have hfront : Front q e.id place := h.phase_eq hp
    rcases step_cases place with hgo | ⟨hstate, hstage⟩
    · exact h.goesOn [] hgo
    · rw [hstage]
      exact ⟨h.table, .inr ⟨place, rfl, rfl, rfl, hfront⟩⟩
  -- writing, write
  · rename_i hp
    exact write_orderly h hp (hplace rfl)
  -- reloading, reload
  · rename_i id after hp
    split
    · exact h.idle
    · rename_i e hget
      rcases reloaded_cases cfg e after with hgo | ⟨pr, -, hassert⟩
      · exact h.goesOn [] hgo
      · rw [hassert]
        exact ⟨h.table, trivial⟩
  -- cutting, cut
  · exact h.goesOn [_] (afterCut_goesOn fun _ => mem_singleton_self _)
  -- filing, file
  · split
    · exact h.goesOn [] filed_goesOn
    · exact h.idle
  -- pushing, push
  · exact h.goesOn [_] (afterPush_goesOn (mem_singleton_self _))
  -- waiting, read
  · rename_i e reading hp
    dsimp only
    rcases wait_cases reading with hgo | ⟨pr, required, rfl, hland, -⟩
    · split
      · rename_i hland
        rw [hland] at hgo
        exact hgo.elim
      · exact h.goesOn [] hgo
    · rw [hland]
      exact ⟨h.table, trivial⟩
  -- landing, fetch
  · rename_i e pr base hp
    rcases land_cases e pr base with hgo | ⟨-, hmerge⟩
    · exact h.goesOn [] hgo
    · rw [hmerge]
      exact ⟨h.table, .inl ⟨fun _ => rfl, rfl⟩⟩
  -- asserting, tree
  · split
    · exact h.idle
    · split
      · exact ⟨h.table, trivial⟩
      · exact h.goesOn [] (stop_goesOn rfl rfl)
  -- merging, merge
  · rename_i e accepted hp
    refine h.goesOn (e := e) [] ?_
    split <;> exact rfl
  -- refused, fetch
  · exact h.goesOn [] (mergeRefused_goesOn _)
  -- confirming, read
  · exact h.goesOn [] (confirmMerged_goesOn _)
  -- resuming, read
  · exact h.goesOn [] (resumeMerging_goesOn _)
  · exact h

end

/-! ## Everyone at once -/

/-- A position is given out that is not the next one, or the loop stages an entry that
    left its place. -/
def outOfTurn (s : System) : Act → Bool
  | .go session =>
    match s.calls session with
    | .inserting _ _ p | .rejoining _ _ p => p ≠ nextPosition s.queue
    | _ => false
  | .loop .write => s.loop.misplaced s.queue
  | _ => false

def InTurn (s : System) (step : Instant × Act) : Prop := outOfTurn s step.2 = false

instance (s : System) (step : Instant × Act) : Decidable (InTurn s step) :=
  inferInstanceAs (Decidable (_ = _))

structure System.Orderly (s : System) : Prop where
  orderly : MergeQueue.Orderly s.queue s.used s.loop
  careful : ∀ session, (s.calls session).Careful

theorem System.new_orderly : System.new.Orderly where
  orderly := {
    table := {
      ahead := fun _ h => absurd h not_mem_nil
      given := fun _ h => absurd h not_mem_nil
      below := fun _ h => absurd h not_mem_nil
      once := fun _ h => absurd h not_mem_nil }
    phase := trivial }
  careful := fun _ => trivial

theorem next_of_inTurn {session : Nat} (h : InTurn s (now, .go session)) :
    (s.calls session).Next s.queue := by
  have h : outOfTurn s (.go session) = false := h
  cases hc : s.calls session with
  | inserting candidate tries p | rejoining e tries p =>
    simp only [outOfTurn, hc, decide_eq_false_iff_not, not_not] at h
    exact h
  | idle | replied reply | requested request | matching candidate seen | repointing candidate e
  | positioning candidate tries | clashed candidate tries | withdrawing e | rechecking e
  | placing e tries | rereading id tries => trivial

theorem act_orderly (h : s.Orderly) {act : Act} (hturn : InTurn s (now, act)) :
    (s.act cfg now act).Orderly := by
  cases act with
  | loop answer =>
    refine ⟨advance_orderly h.orderly answer fun hwrite => ?_, h.careful⟩
    subst hwrite
    exact hturn
  | call session request => exact ⟨h.orderly, update_careful h.careful trivial⟩
  | go session =>
    exact ⟨operated_orderly (go_operated (h.careful session)) (next_of_inTurn hturn) h.orderly,
      update_careful h.careful (go_careful (h.careful _))⟩

/-- **The queue keeps its order**: in every run in which each position is given out as it
    was read and the loop stages an entry where it chose it, at most one entry is staging,
    testing or merging, no queued entry stands before it, no two live entries have one
    head, and every position was given to one entry only. -/
theorem queue_keeps_order {trace : List (Instant × Act)}
    (hr : Run (Guarded (QueueStep cfg) InTurn) System.new trace s) :
    (∀ x ∈ s.queue.table.rows, ∀ y ∈ s.queue.table.rows,
        x.state.active = true → y.state.active = true → x = y) ∧
      (∀ x ∈ s.queue.table.rows, ∀ y ∈ s.queue.table.rows,
        x.state.active = true → y.state = .queued → x.position < y.position) ∧
      (∀ x ∈ s.queue.table.rows, ∀ y ∈ s.queue.table.rows,
        x.state.terminal = false → y.state.terminal = false → x.headSha = y.headSha → x = y) ∧
      (∀ x ∈ s.queue.table.rows, (x.position, x.id) ∈ s.used) ∧
      ∀ u ∈ s.used, ∀ v ∈ s.used, u.1 = v.1 → u = v := by
  have hend : s.Orderly := by
    refine Run.invariant (P := System.Orderly) ?_ System.new_orderly hr
    rintro s step _ hs ⟨hturn, rfl⟩
    exact act_orderly hs hturn
  have htable := hend.orderly.table
  refine ⟨fun x hx y hy hxa hya => htable.alone hx hxa hy hya, fun x hx y hy hxa hyq => ?_,
    fun x hx y hy hxl hyl hhead => ?_, htable.given, htable.once⟩
  · have hlive : y.state.terminal = false := hyq ▸ rfl
    refine htable.ahead x hx hxa y hy hlive fun hid => ?_
    rw [row_eq hy hx hid] at hyq
    rw [hyq] at hxa
    cases hxa
  · exact inj_on_of_nodup_map s.queue.unique.2 (mem_live.mpr ⟨hx, hxl⟩)
      (mem_live.mpr ⟨hy, hyl⟩) hhead

/-- Pull requests 7 and 8 are queued, and 7 is staged and tested. -/
def queuedInTurn : List Act :=
  asks 0 (.enqueue candidate7) 4 ++ asks 1 (.enqueue candidate8) 4 ++ stages

theorem queue_keeps_order_inTurn :
    (systemAfter queuedInTurn).queue.table.rows.map (fun e => (e.state, e.position)) =
        [(.testing, 1), (.queued, 2)] ∧
      (∀ x ∈ (systemAfter queuedInTurn).queue.table.rows,
        ∀ y ∈ (systemAfter queuedInTurn).queue.table.rows,
          x.state.active = true → y.state = .queued → x.position < y.position) ∧
      ∀ u ∈ (systemAfter queuedInTurn).used, ∀ v ∈ (systemAfter queuedInTurn).used,
        u.1 = v.1 → u = v := by
  have hr : Run (Guarded (QueueStep {}) InTurn) System.new
      (queuedInTurn.map fun act => (0, act)) (systemAfter queuedInTurn) :=
    run_guarded (by decide +kernel)
  obtain ⟨-, hfirst, -, -, honce⟩ := queue_keeps_order hr
  exact ⟨by decide +kernel, hfirst, honce⟩

/-- The loop chooses pull request 7, which is withdrawn and retried behind 8; then the
    loop stages it. -/
def stagedFromBehind : List Act :=
  asks 0 (.enqueue candidate7) 4 ++ asks 0 (.enqueue candidate8) 4 ++ [.loop .pick] ++
    asks 1 (.withdraw 0) 2 ++ asks 1 (.retry 0) 4 ++ [.loop .step, .loop .write]

/-- Pull request 7 reads the next position; 8 is given it, is withdrawn and retried to
    the one after; and 7 is given it too. -/
def givenAgain : List Act :=
  asks 0 (.enqueue candidate7) 3 ++ asks 1 (.enqueue candidate8) 4 ++ asks 1 (.withdraw 0) 2 ++
    asks 1 (.retry 0) 4 ++ [.go 0]

/-- An entry is staged behind a queued one, and a position is given to two entries. -/
theorem queue_loses_order : (∃ trace s, Run (QueueStep {}) System.new trace s ∧
      ∃ x ∈ s.queue.table.rows, ∃ y ∈ s.queue.table.rows,
        x.state = .staging ∧ y.state = .queued ∧ y.position < x.position) ∧
    ∃ trace s, Run (QueueStep {}) System.new trace s ∧ s.used = [(1, 1), (2, 0), (1, 0)] :=
  ⟨⟨_, _, run_systemAfter stagedFromBehind, by decide +kernel⟩,
    ⟨_, _, run_systemAfter givenAgain, by decide +kernel⟩⟩

end Loregarden.MergeQueue
