import Mathlib.Data.List.Pairwise
import Loregarden.AutopilotModel

/-! # Whether a tick keeps the plan busy, and apart

The picks are the candidates that are let through, as far as the budget goes (`pick_eq`): a
candidate is let through unless it is above or below, in the plan, one in flight or let through
before it. What is in the tree but not in the plan, and a turn that is spent on a refusal, is what
the tick misses (`busyAndApart_iff`). -/

namespace Loregarden.Autopilot

open GraphSearch Ranked Relation List Nat

variable {parent : Tree} {nodes : List PlanNode}
variable {a b : TicketId} {node n c : PlanNode}

/-- `b` is above `a` in the ticket tree. -/
def Above (parent : Tree) (a b : TicketId) : Prop := TransGen (Up parent) a b

/-- One is above the other. -/
def Related (parent : Tree) (a b : TicketId) : Prop := Above parent a b ∨ Above parent b a

/-- One is above the other, and every ticket between them is a node of the plan. -/
def PlanRelated (parent : Tree) (nodes : List PlanNode) (a b : TicketId) : Prop :=
  TransGen (Up (planParent parent nodes)) a b ∨ TransGen (Up (planParent parent nodes)) b a

/-- One is above the other, past a ticket that is no node of the plan. -/
def OffPlan (parent : Tree) (nodes : List PlanNode) (a b : TicketId) : Prop :=
  ∃ m, m ∉ nodes.map PlanNode.id ∧
    ((Above parent a m ∧ Above parent m b) ∨ (Above parent b m ∧ Above parent m a))

/-! ## The plan's walks -/

/-- A parent in the plan is a parent, both being nodes. -/
theorem planParent_eq_some : planParent parent nodes a = some b ↔
      a ∈ nodes.map PlanNode.id ∧ b ∈ nodes.map PlanNode.id ∧ parent a = some b := by
  rw [planParent]
  by_cases ha : a ∈ nodes.map PlanNode.id
  · rw [if_pos ha, Option.filter_eq_some_iff]
    constructor
    · rintro ⟨hp, hb⟩
      exact ⟨ha, of_decide_eq_true hb, hp⟩
    · rintro ⟨-, hb, hp⟩
      exact ⟨hp, decide_eq_true hb⟩
  · rw [if_neg ha]
    exact ⟨nofun, fun h => absurd h.1 ha⟩

/-- The walk reaches what is above it along nodes. -/
theorem mem_ancestorIds {x : TicketId} :
    x ∈ ancestorIds parent nodes node ↔ TransGen (Up (planParent parent nodes)) node.id x := by
  refine mem_climb (planParent parent nodes) (nodes.map PlanNode.id) ?_ ?_ node.id x
  · intro a b h
    exact (planParent_eq_some.mp h).1
  · rw [length_map]
    omega

theorem mem_ids_of_planWalk
    (h : TransGen (Up (planParent parent nodes)) a b) : a ∈ nodes.map PlanNode.id := by
  obtain ⟨c, hc, -⟩ := TransGen.head'_iff.mp h
  exact (planParent_eq_some.mp hc).1

theorem PlanRelated.symm (h : PlanRelated parent nodes a b) : PlanRelated parent nodes b a :=
  Or.symm h

theorem Related.symm (h : Related parent a b) : Related parent b a := Or.symm h

theorem OffPlan.related (h : OffPlan parent nodes a b) : Related parent a b := by
  obtain ⟨m, -, ⟨ham, hmb⟩ | ⟨hbm, hma⟩⟩ := h
  · exact .inl (ham.trans hmb)
  · exact .inr (hbm.trans hma)

section

variable (ha : a ∈ nodes.map PlanNode.id) (hb : b ∈ nodes.map PlanNode.id)
include ha hb

/-- One above the other is so along nodes, or past a ticket that is none. -/
theorem above_cases (h : Above parent a b) :
    TransGen (Up (planParent parent nodes)) a b ∨
      ∃ m, m ∉ nodes.map PlanNode.id ∧ Above parent a m ∧ Above parent m b := by
  induction h using TransGen.head_induction_on with
  | single h => exact .inl (.single (planParent_eq_some.mpr ⟨ha, hb, h⟩))
  | head hac hcb ih =>
    rename_i a c
    by_cases hc : c ∈ nodes.map PlanNode.id
    · rcases ih hc with hplan | ⟨m, hm, hcm, hmb⟩
      · exact .inl (.head (planParent_eq_some.mpr ⟨ha, hc, hac⟩) hplan)
      · exact .inr ⟨m, hm, .head hac hcm, hmb⟩
    · exact .inr ⟨c, hc, .single hac, hcb⟩

/-- **Two nodes one of which is above the other are so within the plan, or off it.** -/
theorem Related.cases (h : Related parent a b) :
    PlanRelated parent nodes a b ∨ OffPlan parent nodes a b := by
  rcases h with h | h
  · rcases above_cases ha hb h with hplan | ⟨m, hm, ham, hmb⟩
    · exact .inl (.inl hplan)
    · exact .inr ⟨m, hm, .inl ⟨ham, hmb⟩⟩
  · rcases above_cases hb ha h with hplan | ⟨m, hm, hbm, hma⟩
    · exact .inl (.inr hplan)
    · exact .inr ⟨m, hm, .inr ⟨hbm, hma⟩⟩

end

/-! ## Who is let through -/

/-- `Front taken line through`: of a line, taken one by one, those are let through that are not
    related within the plan to one taken before. -/
inductive Front (parent : Tree) (nodes : List PlanNode) :
    List PlanNode → List PlanNode → List PlanNode → Prop where
  | nil {taken : List PlanNode} : Front parent nodes taken [] []
  | through {taken line through : List PlanNode} {c : PlanNode}
      (hfree : ∀ m ∈ taken, ¬ PlanRelated parent nodes c.id m.id)
      (hrest : Front parent nodes (taken ++ [c]) line through) :
      Front parent nodes taken (c :: line) (c :: through)
  | passed {taken line through : List PlanNode} {c : PlanNode}
      (hheld : ∃ m ∈ taken, PlanRelated parent nodes c.id m.id)
      (hrest : Front parent nodes taken line through) :
      Front parent nodes taken (c :: line) through

namespace Front

variable {taken line through : List PlanNode}

/-- Some are let through of every line. -/
theorem exists_through (parent : Tree) (nodes taken line : List PlanNode) :
    ∃ through, Front parent nodes taken line through := by
  induction line generalizing taken with
  | nil => exact ⟨[], .nil⟩
  | cons c line ih =>
    by_cases hheld : ∃ m ∈ taken, PlanRelated parent nodes c.id m.id
    · obtain ⟨through, h⟩ := ih taken
      exact ⟨through, .passed hheld h⟩
    · obtain ⟨through, h⟩ := ih (taken ++ [c])
      exact ⟨c :: through, .through (fun m hm hrel => hheld ⟨m, hm, hrel⟩) h⟩

section

variable (h : Front parent nodes taken line through)
include h

/-- They are of the line. -/
theorem mem_line : ∀ c ∈ through, c ∈ line := by
  induction h with
  | nil =>
    intro c hc
    exact hc
  | through hfree hrest ih =>
    intro c hc
    rcases mem_cons.mp hc with rfl | hc
    · exact mem_cons_self
    · exact mem_cons_of_mem _ (ih c hc)
  | passed hheld hrest ih =>
    intro c hc
    exact mem_cons_of_mem _ (ih c hc)

/-- They are unrelated to what was taken before. -/
theorem free : ∀ c ∈ through, ∀ m ∈ taken, ¬ PlanRelated parent nodes c.id m.id := by
  induction h with
  | nil =>
    intro c hc
    exact absurd hc not_mem_nil
  | through hfree hrest ih =>
    intro c hc m hm
    rcases mem_cons.mp hc with rfl | hc
    · exact hfree m hm
    · exact ih c hc m (mem_append_left _ hm)
  | passed hheld hrest ih => exact ih

/-- The line, and what was taken before, settle who they are. -/
theorem unique {through' : List PlanNode}
    (h' : Front parent nodes taken line through') : through = through' := by
  induction h generalizing through' with
  | nil =>
    cases h'
    rfl
  | through hfree hrest ih =>
    cases h' with
    | through hfree' hrest' => rw [ih hrest']
    | passed hheld' hrest' =>
      obtain ⟨m, hm, hrel⟩ := hheld'
      exact absurd hrel (hfree m hm)
  | passed hheld hrest ih =>
    cases h' with
    | through hfree' hrest' =>
      obtain ⟨m, hm, hrel⟩ := hheld
      exact absurd hrel (hfree' m hm)
    | passed hheld' hrest' => exact ih hrest'

/-- They are unrelated to each other. -/
theorem apart : through.Pairwise fun a b => ¬ PlanRelated parent nodes a.id b.id := by
  induction h with
  | nil => exact .nil
  | through hfree hrest ih =>
    rename_i taken line through c
    refine pairwise_cons.mpr ⟨fun b hb hrel => ?_, ih⟩
    have hc : c ∈ taken ++ [c] := mem_append_right _ (mem_singleton_self c)
    exact hrest.free b hb c hc hrel.symm
  | passed hheld hrest ih => exact ih

end

end Front

namespace Context

variable {ctx : Context}

/-- The related ids of a node. -/
theorem mem_related {x : TicketId} :
    x ∈ ctx.related parent node ↔ PlanRelated parent ctx.nodes node.id x := by
  rw [related, mem_append, mem_ancestorIds, PlanRelated]
  refine or_congr Iff.rfl ?_
  constructor
  · intro h
    obtain ⟨other, hother, rfl⟩ := mem_map.mp h
    exact mem_ancestorIds.mp (of_decide_eq_true (mem_filter.mp hother).2)
  · intro h
    obtain ⟨other, hother, rfl⟩ := mem_map.mp (mem_ids_of_planWalk h)
    exact mem_map_of_mem
      (mem_filter.mpr ⟨hother, decide_eq_true (mem_ancestorIds.mpr h)⟩)

/-- A node is held where one that is taken is related to it. -/
theorem held_iff {taken : List PlanNode} :
    (∃ id ∈ ctx.related parent node, id ∈ taken.map PlanNode.id) ↔
      ∃ m ∈ taken, PlanRelated parent ctx.nodes node.id m.id := by
  constructor
  · rintro ⟨id, hid, htaken⟩
    obtain ⟨m, hm, rfl⟩ := mem_map.mp htaken
    exact ⟨m, hm, mem_related.mp hid⟩
  · rintro ⟨m, hm, h⟩
    exact ⟨m.id, mem_related.mpr h, mem_map_of_mem hm⟩

/-- **The loop of `select_next` adds those let through, as far as its budget goes.** -/
theorem pick_eq {budget : Int} {taken line through : List PlanNode}
    (h : Front parent ctx.nodes taken line through) (picked : List PlanNode) :
    ctx.pick parent budget line (taken.map PlanNode.id) picked
      = picked ++ through.take (budget - picked.length).toNat := by
  have hfull : ∀ {node : PlanNode} {line through taken picked : List PlanNode},
      budget ≤ picked.length →
      ctx.pick parent budget (node :: line) (taken.map PlanNode.id) picked
        = picked ++ through.take (budget - picked.length).toNat := by
    intro node line through taken picked hle
    have hzero : (budget - picked.length).toNat = 0 := by omega
    rw [pick, if_pos hle, hzero, take_zero, append_nil]
  induction h generalizing picked with
  | nil => rw [pick, take_nil, append_nil]
  | through hfree hrest ih =>
    rename_i taken line through c
    by_cases hle : budget ≤ picked.length
    · exact hfull hle
    · have hnot : ¬ ∃ m ∈ taken, PlanRelated parent ctx.nodes c.id m.id := by
        rintro ⟨m, hm, hrel⟩
        exact hfree m hm hrel
      have htaken : taken.map PlanNode.id ++ [c.id] = (taken ++ [c]).map PlanNode.id := by
        rw [map_append, map_singleton]
      have hroom : (budget - picked.length).toNat
          = (budget - (picked ++ [c]).length).toNat + 1 := by
        rw [length_append, length_singleton]
        omega
      rw [pick, if_neg hle, if_neg (fun hheld => hnot (held_iff.mp hheld)), htaken, ih, hroom,
        take_succ_cons, append_assoc]
      rfl
  | passed hheld hrest ih =>
    by_cases hle : budget ≤ picked.length
    · exact hfull hle
    · rw [pick, if_neg hle, if_pos (held_iff.mpr hheld), ih]

end Context

theorem markUnderway_keeps {holder : PlanNode} (hn : n ∈ markUnderway parent holder nodes) :
    ∃ r ∈ nodes, n.ticket = r.ticket ∧ (r.status ≠ .ready → n.status = r.status) := by
  obtain ⟨r, hr, rfl⟩ := mem_map.mp hn
  refine ⟨r, hr, ?_, ?_⟩
  · split <;> rfl
  · intro hready
    rw [if_neg (fun h => hready h.2.2)]

/-- Marking what is under way changes ready nodes only. -/
theorem marked_keeps (holders : List PlanNode)
    (hn : n ∈ holders.foldl (fun nodes holder => markUnderway parent holder nodes) nodes) :
    ∃ r ∈ nodes, n.ticket = r.ticket ∧ (r.status ≠ .ready → n.status = r.status) := by
  induction holders generalizing nodes with
  | nil => exact ⟨n, hn, rfl, fun _ => rfl⟩
  | cons holder holders ih =>
    obtain ⟨m, hm, hticket, hstatus⟩ := ih hn
    obtain ⟨r, hr, hticket', hstatus'⟩ := markUnderway_keeps hm
    refine ⟨r, hr, hticket.trans hticket', fun hready => ?_⟩
    have hm' : m.status = r.status := hstatus' hready
    rw [hstatus (hm' ▸ hready), hm']

/-- A status that is not `ready` before dependencies are considered is the node's. -/
theorem statuses_keeps {activity : TicketId → Activity} (hn : n ∈ statuses parent nodes activity)
    (hready : (statusOf n.ticket (activity n.id)).1 ≠ .ready) :
    n.status = (statusOf n.ticket (activity n.id)).1 := by
  obtain ⟨m, hm, rfl⟩ := mem_map.mp hn
  obtain ⟨r, hr, hticket, hstatus⟩ := marked_keeps _ hm
  obtain ⟨r, -, rfl⟩ := mem_map.mp hr
  have hread : m.status = (statusOf m.ticket (activity m.id)).1 := by
    rw [PlanNode.id, hticket]
    refine hstatus ?_
    show (statusOf r.ticket (activity r.id)).1 ≠ .ready
    rw [PlanNode.id, ← show m.ticket = r.ticket from hticket]
    exact hready
  show (if m.status = .ready ∧ _ then NodeStatus.waiting else m.status) = _
  rw [if_neg (fun h => hready (hread ▸ h.1)), hread]

/-- The ticket waits for a person: at a gate, by its state, its block or its tag. -/
def NeedsPerson (ticket : Ticket) (activity : Activity) : Prop :=
  activity = .awaiting ∨ ticket.stageAwaiting = true ∨ ticket.state = .parked ∨
    ticket.personBlock = true ∨ ticket.needsPersonTag = true

/-- A ticket that waits for a person is neither ready nor blocked. -/
theorem statusOf_needsPerson {ticket : Ticket} {activity : Activity}
    (h : NeedsPerson ticket activity) :
    (statusOf ticket activity).1 ≠ .ready ∧ (statusOf ticket activity).1 ≠ .blocked := by
  rw [statusOf]
  split
  · exact ⟨nofun, nofun⟩
  · split
    · exact ⟨nofun, nofun⟩
    · rename_i hgate
      split
      · exact ⟨nofun, nofun⟩
      · split
        · exact ⟨nofun, nofun⟩
        · rename_i hperson
          rcases h with h | h | h
          · exact absurd (.inl h) hgate
          · exact absurd (.inr h) hgate
          · exact absurd h hperson

/-! ## A tick -/

namespace Tick

variable {t : Tick}

/-- An own node of the plan that is ready, or blocked by what a retry may clear and nothing else. -/
def Eligible (t : Tick) (c : PlanNode) : Prop :=
  c ∈ t.ctx.nodes ∧ c.external = false ∧ c.id ≠ t.ctx.initiative ∧
    (c.status = .ready ∨ c.status = .blocked ∧ t.retryable c.id = true ∧ c.waitingOn = [])

instance : DecidablePred t.Eligible := fun _ => inferInstanceAs (Decidable (_ ∧ _ ∧ _ ∧ _))

/-- The turn of `c` comes behind `before`: of those nodes, in the order of their keys, these are
    let through, and the budget goes as far. -/
def Turn (t : Tick) (before : List PlanNode) (c : PlanNode) : Prop :=
  ∃ through, Front t.parent t.ctx.nodes t.ctx.inFlight
      (ranked t.ctx.key (t.ctx.nodes.filter (t.Eligible ·))) through ∧
    before ++ [c] <+: through ∧ (before.length : Int) + t.ctx.inFlight.length < t.maxParallel

/-- The picks the tick has dispatched once it is past `before`. -/
def tried (t : Tick) (before : List PlanNode) : List TicketId :=
  (before.map PlanNode.id).filter (· ∉ t.resuming)

/-- A ticket passes every check, behind those dispatched: no other above it has a run. -/
structure Passes (t : Tick) (tried : List TicketId) (id : TicketId) : Prop where
  live : t.checks.sandbox = false
  placed : t.checks.hasWorkspace id = true
  quiet : ∀ a, a ≠ id → Above t.parent id a → t.checks.activeRun tried a = false
  met : t.checks.unmet tried id = false
  startable : t.checks.subtreeHold tried id = false
  queued : t.checks.queues tried id = true

/-- A candidate apart from all that is in flight passes every check, as the tick finds it. -/
def SomeFree (t : Tick) : Prop :=
  ∃ c ∈ t.ctx.candidates t.retryable, (∀ m ∈ t.ctx.inFlight, ¬ Related t.parent c.id m.id) ∧
      dispatch t.parent t.checks t.tickets.length [] c.id = none

/-- The tick starts nothing: it is off or stopped, or each whose turn comes is on its way or fails
    a check when it is its turn. -/
def Idle (t : Tick) : Prop :=
  t.autopilot = false ∨ t.stopReached = true ∨ 3 ≤ t.blocked ∨
    ∀ before c, t.Turn before c → c.id ∈ t.resuming ∨ ¬ t.Passes (t.tried before) c.id

/-- What a tick is for: the plan's lanes are kept busy, with tickets that are apart. -/
structure BusyAndApart (t : Tick) : Prop where
  bounded : t.picks = [] ∨ (t.picks.length + t.ctx.inFlight.length : Int) ≤ t.maxParallel
  own : ∀ c ∈ t.picks, c.external = false ∧ c.status ≠ .needsPerson
  tended : ∀ raw activity, t.ctx.nodes = statuses t.parent raw activity →
    ∀ c ∈ t.picks, ¬ NeedsPerson c.ticket (activity c.id)
  apart : ∀ a ∈ t.picks ++ t.ctx.inFlight, ∀ b ∈ t.picks ++ t.ctx.inFlight, a ≠ b →
    ¬ Related t.parent a.id b.id
  busy : (t.ctx.inFlight.length : Int) < t.maxParallel → t.SomeFree → 0 < t.runAutopilot

/-- **The condition**, on the tickets, the tree and the checks of the tick. -/
structure InOrder (t : Tick) : Prop where
  flight : ∀ a ∈ t.ctx.inFlight, ∀ b ∈ t.ctx.inFlight, a ≠ b → ¬ Related t.parent a.id b.id
  /-- A candidate whose turn comes is not related off the plan to one in flight, or to another
      whose turn comes. -/
  inPlan : ∀ before c, t.Turn before c → ∀ m, (m ∈ t.ctx.inFlight ∨ ∃ before', t.Turn before' m) →
    c ≠ m → ¬ OffPlan t.parent t.ctx.nodes c.id m.id
  /-- Where it starts nothing and has room, all that is apart from what is in flight fails a
      check as the tick finds it. -/
  idle : t.Idle → (t.ctx.inFlight.length : Int) < t.maxParallel → ∀ c, t.Eligible c →
    (∀ m ∈ t.ctx.inFlight, ¬ Related t.parent c.id m.id) → ¬ t.Passes [] c.id

/-- A ticket is dispatched where it passes the checks. -/
theorem passes_iff {tried : List TicketId} {id : TicketId} :
    dispatch t.parent t.checks t.tickets.length tried id = none ↔ t.Passes tried id := by
  have hquiet : ancestorRunning t.parent t.checks t.tickets.length tried id = none ↔
      ∀ a, a ≠ id → Above t.parent id a → t.checks.activeRun tried a = false := by
    rw [ancestorRunning, find?_eq_none]
    refine forall_congr' fun a => ?_
    rw [selfAndAncestors, mem_tail_climb t.parent t.tickets t.parent_of (by omega), and_imp,
      Bool.not_eq_true]
    exact Iff.rfl
  rw [dispatch]
  constructor
  · intro h
    split at h
    · cases h
    · next hlive =>
      split at h
      · cases h
      · next hplaced =>
        split at h
        · cases h
        · next hnone =>
          split at h
          · cases h
          · next hmet =>
            split at h
            · cases h
            · next hstart =>
              split at h
              · next hqueued =>
                exact ⟨by simpa using hlive, by simpa using hplaced, hquiet.mp hnone,
                  by simpa using hmet, by simpa using hstart, hqueued⟩
              · cases h
  · rintro ⟨hlive, hplaced, hclear, hmet, hstart, hqueued⟩
    rw [hquiet.mpr hclear, hlive, hplaced]
    simp [hmet, hstart, hqueued]

/-- The candidates are the eligible nodes in the order of their keys. -/
theorem candidates_eq : t.ctx.candidates t.retryable =
    ranked t.ctx.key (t.ctx.nodes.filter (t.Eligible ·)) := by
  rw [Context.candidates, Context.own, filter_filter]
  congr 1
  refine filter_congr fun c hc => ?_
  rw [Context.startable, Bool.eq_iff_iff, Bool.and_eq_true, Bool.and_eq_true, Bool.not_eq_true',
    decide_eq_true_iff, decide_eq_true_iff, decide_eq_true_iff, Eligible, and_iff_right hc]
  tauto

theorem mem_candidates_iff : c ∈ t.ctx.candidates t.retryable ↔ t.Eligible c := by
  rw [candidates_eq, mem_ranked, mem_filter, decide_eq_true_iff]
  exact and_iff_right_of_imp And.left

/-- The picks are those let through, as far as the budget goes. -/
theorem picks_eq : ∃ through,
    Front t.parent t.ctx.nodes t.ctx.inFlight (t.ctx.candidates t.retryable) through ∧
      t.picks = through.take (t.maxParallel - t.ctx.inFlight.length).toNat := by
  obtain ⟨through, h⟩ := Front.exists_through t.parent t.ctx.nodes t.ctx.inFlight
    (t.ctx.candidates t.retryable)
  refine ⟨through, h, ?_⟩
  rw [picks, Context.selectNext, Context.pick_eq h []]
  simp

/-- The turn of a candidate comes where it is picked. -/
theorem turn_iff {before : List PlanNode} : t.Turn before c ↔ before ++ [c] <+: t.picks := by
  obtain ⟨through, hfront, hpicks⟩ := @picks_eq t
  rw [hpicks, prefix_take_iff, length_append, length_singleton, Turn, ← candidates_eq]
  constructor
  · rintro ⟨through', hfront', hpiece, hroom⟩
    rw [hfront'.unique hfront] at hpiece
    exact ⟨hpiece, by omega⟩
  · rintro ⟨hpiece, hroom⟩
    exact ⟨through, hfront, hpiece, by omega⟩

theorem mem_picks_iff : c ∈ t.picks ↔ ∃ before, t.Turn before c := by
  constructor
  · intro hc
    obtain ⟨before, after, heq⟩ := append_of_mem hc
    refine ⟨before, turn_iff.mpr ⟨after, ?_⟩⟩
    rw [heq, append_assoc]
    rfl
  · rintro ⟨before, hturn⟩
    exact (turn_iff.mp hturn).subset (mem_append_right _ (mem_singleton_self c))

theorem mem_candidates_of_mem_picks (hc : c ∈ t.picks) : c ∈ t.ctx.candidates t.retryable := by
  obtain ⟨through, hfront, hpicks⟩ := @picks_eq t
  rw [hpicks] at hc
  exact hfront.mem_line c (mem_of_mem_take hc)

theorem mem_own_of_candidate (hc : c ∈ t.ctx.candidates t.retryable) :
    c ∈ t.ctx.own ∧ Context.startable t.retryable c = true :=
  mem_filter.mp (mem_ranked.mp hc)

theorem mem_ids_of_own (hc : c ∈ t.ctx.own) : c.id ∈ t.ctx.nodes.map PlanNode.id :=
  mem_map_of_mem (mem_filter.mp hc).1

/-- A pick is ready, or blocked and to be retried. -/
theorem status_of_pick (hc : c ∈ t.picks) : c.status = .ready ∨ c.status = .blocked := by
  have hstart := (mem_own_of_candidate (mem_candidates_of_mem_picks hc)).2
  rcases of_decide_eq_true hstart with h | h
  · exact .inl h
  · exact .inr h.1

/-- No more are picked than the budget has. -/
theorem picks_bounded :
    t.picks = [] ∨ (t.picks.length + t.ctx.inFlight.length : Int) ≤ t.maxParallel := by
  obtain ⟨through, -, hpicks⟩ := @picks_eq t
  by_cases hfull : t.maxParallel ≤ t.ctx.inFlight.length
  · left
    rw [hpicks, show (t.maxParallel - t.ctx.inFlight.length).toNat = 0 by omega, take_zero]
  · have hlen : t.picks.length ≤ (t.maxParallel - t.ctx.inFlight.length).toNat := by
      rw [hpicks]
      exact length_take_le _ _
    omega

/-- A pick is a ticket of the initiative that waits for nobody. -/
theorem picks_own (hc : c ∈ t.picks) : c.external = false ∧ c.status ≠ .needsPerson := by
  have hown := (mem_own_of_candidate (mem_candidates_of_mem_picks hc)).1
  have hkind := (Bool.and_eq_true_iff.mp (mem_filter.mp hown).2).1
  refine ⟨Bool.not_eq_true' _ ▸ hkind, ?_⟩
  rcases status_of_pick hc with h | h <;> rw [h] <;> exact nofun

theorem picks_tended {raw : List PlanNode} {activity : TicketId → Activity}
    (hread : t.ctx.nodes = statuses t.parent raw activity) (hc : c ∈ t.picks) :
    ¬ NeedsPerson c.ticket (activity c.id) := by
  intro hneeds
  obtain ⟨hready, hblocked⟩ := statusOf_needsPerson hneeds
  have hown := (mem_own_of_candidate (mem_candidates_of_mem_picks hc)).1
  have hmem : c ∈ statuses t.parent raw activity := hread ▸ (mem_filter.mp hown).1
  have hstatus := statuses_keeps hmem hready
  rcases status_of_pick hc with h | h
  · exact hready (hstatus ▸ h)
  · exact hblocked (hstatus ▸ h)

/-- Picks are not related along nodes, nor to what is in flight. -/
theorem picks_apart {m : PlanNode} (hc : c ∈ t.picks) (hm : m ∈ t.picks ++ t.ctx.inFlight)
    (hne : c ≠ m) : ¬ PlanRelated t.parent t.ctx.nodes c.id m.id := by
  obtain ⟨through, hfront, hpicks⟩ := @picks_eq t
  have hthrough : ∀ x ∈ t.picks, x ∈ through := by
    intro x hx
    rw [hpicks] at hx
    exact mem_of_mem_take hx
  rcases mem_append.mp hm with hm | hm
  · have hsymm : Std.Symm fun a b : PlanNode => ¬ PlanRelated t.parent t.ctx.nodes a.id b.id :=
      ⟨fun a b hab hrel => hab hrel.symm⟩
    exact hfront.apart.forall (hthrough c hc) (hthrough m hm) hne
  · exact hfront.free c (hthrough c hc) m hm

theorem mem_ids_of_busy {a : PlanNode} (ha : a ∈ t.picks ++ t.ctx.inFlight) :
    a.id ∈ t.ctx.nodes.map PlanNode.id := by
  rcases mem_append.mp ha with ha | ha
  · exact mem_ids_of_own (mem_own_of_candidate (mem_candidates_of_mem_picks ha)).1
  · exact mem_ids_of_own (mem_filter.mp ha).1

/-- All that is busy is apart where what is in flight is, and no pick is off the plan. -/
theorem apart_iff : (∀ a ∈ t.picks ++ t.ctx.inFlight, ∀ b ∈ t.picks ++ t.ctx.inFlight, a ≠ b →
      ¬ Related t.parent a.id b.id) ↔
    (∀ a ∈ t.ctx.inFlight, ∀ b ∈ t.ctx.inFlight, a ≠ b → ¬ Related t.parent a.id b.id) ∧
      ∀ c ∈ t.picks, ∀ m ∈ t.picks ++ t.ctx.inFlight, c ≠ m →
        ¬ OffPlan t.parent t.ctx.nodes c.id m.id := by
  constructor
  · intro h
    refine ⟨fun a ha b hb => h a (mem_append_right _ ha) b (mem_append_right _ hb), ?_⟩
    intro c hc m hm hne hoff
    exact h c (mem_append_left _ hc) m hm hne hoff.related
  · rintro ⟨hflight, hoff⟩
    have hpick : ∀ c ∈ t.picks, ∀ m ∈ t.picks ++ t.ctx.inFlight, c ≠ m →
        ¬ Related t.parent c.id m.id := by
      intro c hc m hm hne hrel
      rcases hrel.cases (mem_ids_of_busy (mem_append_left _ hc)) (mem_ids_of_busy hm) with h | h
      · exact picks_apart hc hm hne h
      · exact hoff c hc m hm hne h
    intro a ha b hb hne
    rcases mem_append.mp ha with hpa | hfa
    · exact hpick a hpa b hb hne
    · rcases mem_append.mp hb with hpb | hfb
      · exact fun hrel => hpick b hpb a ha hne.symm hrel.symm
      · exact hflight a hfa b hfb hne

/-- Something is dispatched where some pick passes at its turn. -/
theorem dispatchEach_pos {picks : List PlanNode} {tried : List TicketId} :
    0 < t.dispatchEach picks tried ↔ ∃ before c, before ++ [c] <+: picks ∧ c.id ∉ t.resuming ∧
        t.Passes (tried ++ t.tried before) c.id := by
  induction picks generalizing tried with
  | nil =>
    constructor
    · intro h
      exact absurd h (lt_irrefl 0)
    · rintro ⟨before, c, hpiece, -⟩
      have hlen := hpiece.length_le
      exact absurd hlen (by simp)
  | cons node rest ih =>
    rw [dispatchEach]
    by_cases hskip : node.id ∈ t.resuming
    · rw [if_pos hskip, ih]
      have htried : ∀ before, t.tried (node :: before) = t.tried before := by
        intro before
        rw [Tick.tried, map_cons, filter_cons_of_neg (by simpa using hskip)]
        rfl
      constructor
      · rintro ⟨before, c, hpiece, hc, hpass⟩
        exact ⟨node :: before, c, cons_prefix_cons.mpr ⟨rfl, hpiece⟩, hc,
          (htried before).symm ▸ hpass⟩
      · rintro ⟨before, c, hpiece, hc, hpass⟩
        cases before with
        | nil =>
          rw [(cons_prefix_cons.mp hpiece).1] at hc
          exact absurd hskip hc
        | cons b before =>
          obtain ⟨rfl, hrest⟩ := cons_prefix_cons.mp hpiece
          exact ⟨before, c, hrest, hc, htried before ▸ hpass⟩
    · rw [if_neg hskip]
      have htried : ∀ before, tried ++ [node.id] ++ t.tried before
          = tried ++ t.tried (node :: before) := by
        intro before
        rw [append_assoc, Tick.tried, Tick.tried, map_cons,
          filter_cons_of_pos (by simpa using hskip)]
        rfl
      by_cases hpass : t.Passes tried node.id
      · rw [if_pos (passes_iff.mpr hpass)]
        refine ⟨fun _ => ⟨[], node, ?_, hskip, ?_⟩, fun _ => by omega⟩
        · exact cons_prefix_cons.mpr ⟨rfl, nil_prefix⟩
        · rw [Tick.tried, map_nil, filter_nil, append_nil]
          exact hpass
      · rw [if_neg (mt passes_iff.mp hpass), zero_add, ih]
        constructor
        · rintro ⟨before, c, hpiece, hc, hok⟩
          exact ⟨node :: before, c, cons_prefix_cons.mpr ⟨rfl, hpiece⟩, hc, htried before ▸ hok⟩
        · rintro ⟨before, c, hpiece, hc, hok⟩
          cases before with
          | nil =>
            rw [(cons_prefix_cons.mp hpiece).1, Tick.tried, map_nil, filter_nil, append_nil] at hok
            exact absurd hok hpass
          | cons b before =>
            obtain ⟨rfl, hrest⟩ := cons_prefix_cons.mp hpiece
            exact ⟨before, c, hrest, hc, (htried before).symm ▸ hok⟩

/-- A tick starts nothing where it is idle. -/
theorem runAutopilot_eq_zero : t.runAutopilot = 0 ↔ t.Idle := by
  have hloop : t.dispatchEach t.picks [] = 0 ↔
      ∀ before c, t.Turn before c → c.id ∈ t.resuming ∨ ¬ t.Passes (t.tried before) c.id := by
    rw [← not_iff_not, ← ne_eq, ← Nat.pos_iff_ne_zero, dispatchEach_pos]
    push Not
    refine exists_congr fun before => exists_congr fun c => and_congr turn_iff.symm ?_
    rw [nil_append]
  rw [runAutopilot, Idle]
  by_cases hon : t.autopilot = true
  · by_cases hstop : t.stopReached = true
    · rw [if_neg (by simp [hon]), if_pos hstop]
      exact iff_of_true rfl (.inr (.inl hstop))
    · by_cases hbreak : 3 ≤ t.blocked
      · rw [if_neg (by simp [hon]), if_neg hstop]
        exact iff_of_true (if_pos hbreak) (.inr (.inr (.inl hbreak)))
      · have hrun : ¬ breakerLimit ≤ t.blocked := hbreak
        rw [if_neg (by simp [hon]), if_neg hstop, if_neg hrun, hloop]
        simp [hon, hstop, hbreak]
  · rw [if_pos (by simp [hon])]
    exact iff_of_true rfl (.inl (by simpa using hon))

/-- Two tickets of one milestone, the first of which waits for work that never landed. -/
def starved : Tick where
  autopilot := true
  stopReached := false
  blocked := 0
  maxParallel := 1
  parent := fun id => if id = 1 ∨ id = 2 then some 0 else none
  tickets := [1, 2]
  ctx :=
    { initiative := 0
      nodes := [{ ticket := { id := 1, externalId := "T-1" }, status := .ready, phase := 0 },
        { ticket := { id := 2, externalId := "T-2" }, status := .ready, phase := 0 }]
      now := 0
      nodup := by decide }
  retryable := fun _ => false
  resuming := []
  parent_of := by
    intro a b h
    split at h
    · simpa using ‹a = 1 ∨ a = 2›
    · cases h
  checks :=
    { sandbox := false
      hasWorkspace := fun _ => true
      activeRun := fun _ _ => false
      unmet := fun _ id => id = 1
      subtreeHold := fun _ _ => false
      queues := fun _ _ => true }

/-- A feature of a milestone, and a task of a capability of the feature: the initiative tracks
    the capability on its own, so that it is planned as its task. -/
def overlapping : Tick :=
  { starved with
    maxParallel := 2
    parent := fun id => match id with
      | 1 => some 0
      | 2 => some 3
      | 3 => some 1
      | _ => none
    tickets := [1, 2, 3]
    parent_of := by
      intro a b h
      split at h <;> simp_all
    checks := { starved.checks with unmet := fun _ _ => false } }

end Tick

end Loregarden.Autopilot
