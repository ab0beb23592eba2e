import Mathlib.Data.List.Infix
import Loregarden.RollupProofs

/-! # One sweep at startup

    The sweep visits the parents deepest first. A parent is then visited after all
    its children, and settles; an initiative is no deeper than the top-level tickets
    it tracks, and settles when the states it is visited with are as good as those
    the sweep leaves.

    * `depth_child`, `sweepOrder_before`: a child is swept before its parent;
    * `dueState`: the state a ticket below the initiatives is due;
    * `sweep_settles`: when one sweep settles the whole forest. -/

namespace Loregarden.Rollup

open Ranked Settling List Nat
open Option hiding mem_map
open Lanes (TicketState Instant)
open TicketWait (WorkItemType)

variable {db db' : Database} {t c : Ticket} {now : Instant} {n m : Nat}
  {rank : Nat → Nat} {parents : List Ticket}

/-! ## Deepest first -/

/-- A chain that only goes up in rank never meets what it has seen. -/
def Ascends (rank : Nat → Nat) (seen : List Nat) (next : Option Nat) : Prop :=
  ∀ q, next = some q → ∀ x ∈ seen, rank x < rank q

def room (rank : Nat → Nat) (parents : List Ticket) : Option Nat → Nat
  | none => 0
  | some q => 1 + parents.countP fun t => rank q ≤ rank t.id

theorem room_le (rank : Nat → Nat) (parents : List Ticket) (next : Option Nat) :
    room rank parents next ≤ parents.length + 1 := by
  cases next with
  | none => exact zero_le _
  | some q =>
    have hle := countP_le_length (p := fun t : Ticket => decide (rank q ≤ rank t.id))
      (l := parents)
    rw [room]
    omega

theorem countP_lt {α : Type*} {p q : α → Bool} {l : List α} {x : α}
    (h : ∀ a, p a = true → q a = true) (hx : x ∈ l) (hp : p x = false) (hq : q x = true) :
    l.countP p < l.countP q := by
  induction l with
  | nil => exact absurd hx not_mem_nil
  | cons a l ih =>
    have hle : l.countP p ≤ l.countP q := countP_mono_left fun a _ => h a
    rcases mem_cons.mp hx with rfl | hx
    · rw [countP_cons_of_pos hq, countP_cons_of_neg (by rw [hp]; exact Bool.false_ne_true)]
      exact lt_succ_of_le hle
    · have hlt := ih hx
      rw [countP_cons, countP_cons]
      by_cases ha : p a = true
      · rw [if_pos ha, if_pos (h a ha)]
        omega
      · rw [if_neg ha]
        omega

theorem find_id {q : Nat} (h : parents.find? (·.id = q) = some t) : t ∈ parents ∧ t.id = q := by
  have hid := List.find?_some h
  exact ⟨mem_of_find?_eq_some h, of_decide_eq_true hid⟩

section

variable (hrank : ∀ t ∈ parents, ∀ p, t.parentTicketId = some p → rank t.id < rank p)
include hrank

theorem room_next (q : Nat) : room rank parents ((parents.find? (·.id = q)).bind (·.parentTicketId)) <
      room rank parents (some q) := by
  cases hfind : parents.find? (·.id = q) with
  | none =>
    show 0 < 1 + _
    omega
  | some t =>
    obtain ⟨hmem, rfl⟩ := find_id hfind
    show room rank parents t.parentTicketId < _
    cases hp : t.parentTicketId with
    | none =>
      show 0 < 1 + _
      omega
    | some p =>
      have hlt := hrank t hmem p hp
      refine Nat.add_lt_add_left (countP_lt (fun a ha => ?_) hmem ?_ ?_) 1
      · exact decide_eq_true (hlt.le.trans (of_decide_eq_true ha))
      · exact decide_eq_false (Nat.not_le.mpr hlt)
      · exact decide_eq_true (le_refl _)

theorem ascends_next {seen : List Nat} {q : Nat} (h : Ascends rank seen (some q)) :
    Ascends rank (q :: seen) ((parents.find? (·.id = q)).bind (·.parentTicketId)) := by
  intro p hp x hx
  obtain ⟨t, hfind, hparent⟩ := bind_eq_some_iff.mp hp
  obtain ⟨hmem, rfl⟩ := find_id hfind
  have hlt := hrank t hmem p hparent
  rcases mem_cons.mp hx with rfl | hx
  · exact hlt
  · exact (h t.id rfl x hx).trans hlt

theorem stepsAbove_congr {fuel fuel' : Nat} {seen seen' : List Nat} {next : Option Nat}
    (hs : Ascends rank seen next) (hs' : Ascends rank seen' next)
    (hf : room rank parents next < fuel) (hf' : room rank parents next < fuel') :
    stepsAbove parents fuel seen next = stepsAbove parents fuel' seen' next := by
  induction fuel generalizing fuel' seen seen' next with
  | zero => exact absurd hf (not_lt_zero _)
  | succ fuel ih =>
    obtain ⟨fuel', rfl⟩ := Nat.exists_eq_succ_of_ne_zero (Nat.ne_zero_of_lt hf')
    cases next with
    | none => rfl
    | some q =>
      have hnew : ∀ {l : List Nat}, Ascends rank l (some q) → q ∉ l := fun h hq =>
        lt_irrefl _ (h q rfl q hq)
      have hroom := room_next hrank q
      rw [stepsAbove, stepsAbove, if_neg (hnew hs), if_neg (hnew hs')]
      rw [ih (ascends_next hrank hs) (ascends_next hrank hs')
        (lt_of_lt_of_le hroom (le_of_lt_succ hf))
        (lt_of_lt_of_le hroom (le_of_lt_succ hf'))]

theorem depth_child (hc : c ∈ parents) (hparent : c.parentTicketId = some t.id)
    (hfind : parents.find? (·.id = t.id) = some t) : depth parents c = 1 + depth parents t := by
  have hct := hrank c hc t.id hparent
  have htmem := mem_of_find?_eq_some hfind
  have hne : t.id ∉ [c.id] := fun h => by
    rw [mem_singleton.mp h] at hct
    exact lt_irrefl _ hct
  have hup : Ascends rank [t.id] t.parentTicketId := fun p hp x hx => by
    rw [mem_singleton.mp hx]
    exact hrank t htmem p hp
  have hup' : Ascends rank [t.id, c.id] t.parentTicketId := fun p hp x hx => by
    rcases mem_cons.mp hx with rfl | hx
    · exact hrank t htmem p hp
    · rw [mem_singleton.mp hx]
      exact hct.trans (hrank t htmem p hp)
  have hroom' := room_next hrank t.id
  rw [hfind] at hroom'
  have hle := room_le rank parents (some t.id)
  rw [depth, depth, hparent, stepsAbove, if_neg hne, hfind]
  refine congrArg (1 + ·) (stepsAbove_congr hrank hup' hup ?_ ?_)
  · exact lt_of_lt_of_le hroom' hle
  · omega

end

theorem mem_sweepOrder : t ∈ sweepOrder db ↔ t ∈ summarising db := by
  rw [sweepOrder, mem_insertionSort]

theorem mem_summarising : t ∈ summarising db ↔ t ∈ db.tickets.rows ∧
    ((∃ c ∈ db.tickets.rows, c.parentTicketId = some t.id) ∨
      ∃ r ∈ db.members, r.initiativeId = t.id) := by
  rw [summarising, mem_filter, decide_eq_true_iff, mem_filterMap, mem_map]

theorem sweepOrder_nodup (db : Database) : ((sweepOrder db).map (·.id)).Nodup := by
  have hperm : ((sweepOrder db).map (·.id)).Perm ((summarising db).map (·.id)) :=
    (perm_insertionSort _ _).map _
  rw [hperm.nodup_iff]
  exact db.tickets.nodup.sublist (filter_sublist.map _)

theorem sweepOrder_sorted (db : Database) : (sweepOrder db).Pairwise fun a c =>
    depth (summarising db) c ≤ depth (summarising db) a := by
  have : Std.Total fun a c : Ticket => depth (summarising db) c ≤ depth (summarising db) a :=
    ⟨fun a c => le_total _ _⟩
  exact pairwise_insertionSort _ _

theorem sweepOrder_before (hier : Hierarchical db) {before after : List Ticket}
    (hsplit : sweepOrder db = before ++ t :: after) (hc : c ∈ sweepOrder db)
    (hparent : c.parentTicketId = some t.id) : c ∈ before := by
  obtain ⟨rank, hrank⟩ := hier.acyclic
  have ht : t ∈ sweepOrder db := hsplit ▸ mem_append_right before mem_cons_self
  have htmem := mem_sweepOrder.mp ht
  have hcmem := mem_sweepOrder.mp hc
  have hfind : (summarising db).find? (·.id = t.id) = some t := by
    cases hf : (summarising db).find? (·.id = t.id) with
    | none => exact absurd (decide_eq_true rfl) (List.find?_eq_none.mp hf t htmem)
    | some t' =>
      obtain ⟨hmem, hid⟩ := find_id hf
      exact congrArg some
        (Keyed.eq_of_id (mem_summarising.mp hmem).1 (mem_summarising.mp htmem).1 hid)
  have hdepth := depth_child (fun t ht => hrank t (mem_summarising.mp ht).1) hcmem hparent hfind
  have hsorted := sweepOrder_sorted db
  rw [hsplit] at hc hsorted
  rcases mem_append.mp hc with hbefore | hlater
  · exact hbefore
  · rcases mem_cons.mp hlater with rfl | hafter
    · omega
    · have hle := (pairwise_cons.mp (pairwise_append.mp hsorted).2.1).1 c hafter
      omega

/-- The state a ticket below the initiatives is due, from the states below it. -/
def dueState (db : Database) : Nat → Nat → TicketState
  | 0, id => ((db.get id).map (·.state)).getD .backlog
  | fuel + 1, id =>
    match db.get id with
    | none => .backlog
    | some t =>
      match deriveParentState ((db.children id).map fun c => dueState db fuel c.id) with
      | none => t.state
      | some target => if t.writable then target else t.state

def due (db : Database) (id : Nat) : TicketState := dueState db (db.tickets.rows.length + 1) id

def sweptBefore (db : Database) (id : Nat) : List Ticket := (sweepOrder db).takeWhile (·.id ≠ id)

/-- The state the sweep finds a ticket in when it visits the initiative `id`. -/
def seenState (db : Database) (id : Nat) (t : Ticket) : TicketState :=
  if t ∈ sweptBefore db id then due db t.id else t.state

/-- The sweep visits an initiative with states as good as those it leaves: they say the
    same of its state, or, where that may not be written, of the kind of its block. -/
structure Foresees (db : Database) (t : Ticket) : Prop where
  state : t.writable = true →
    deriveParentState ((initiativeRoots db t.id).map (seenState db t.id)) =
      deriveParentState ((initiativeRoots db t.id).map fun c => due db c.id)
  kind : t.writable = false → t.state = .blocked →
    t.blockKind = none ∨ t.blockKind = some .tickets →
      (deriveParentState ((initiativeRoots db t.id).map (seenState db t.id)) = some .blocked ↔
        deriveParentState ((initiativeRoots db t.id).map fun c => due db c.id) = some .blocked)

theorem deriveParentState_eq_none {states : List TicketState} :
    deriveParentState states = none ↔ states = [] := by
  rw [deriveParentState]
  split
  · rename_i h
    exact ⟨fun _ => h, fun _ => rfl⟩
  · rename_i h
    refine ⟨fun hnone => ?_, fun hnil => absurd hnil h⟩
    split at hnone
    · cases hnone
    · split at hnone
      · cases hnone
      · split at hnone <;> cases hnone

theorem stampTicketsKind_kind {target : TicketState} : (stampTicketsKind t target).2.blockKind =
    if t.state = .blocked ∧ target = .blocked then
      if t.blockKind = none then some .tickets else t.blockKind
    else if t.blockKind = some .tickets then none else t.blockKind := by
  rw [stampTicketsKind]
  by_cases hr : t.state = .blocked ∧ target = .blocked
  · by_cases hk : t.blockKind = none
    · rw [if_pos ⟨hr, hk⟩, if_pos hr, if_pos hk]
    · rw [if_neg fun h => hk h.2, if_neg fun h => h.1 hr, if_pos hr, if_neg hk]
  · by_cases hk : t.blockKind = some .tickets
    · rw [if_neg fun h => hr h.1, if_pos ⟨hr, hk⟩, if_neg hr, if_pos hk]
    · rw [if_neg fun h => hr h.1, if_neg fun h => hk h.2, if_neg hr, if_neg hk]

theorem stampTicketsKind_agrees_iff {a target : TicketState} :
    ((t.state = .blocked ∧ target = .blocked → (stampTicketsKind t a).2.blockKind ≠ none) ∧
      (¬ (t.state = .blocked ∧ target = .blocked) →
        (stampTicketsKind t a).2.blockKind ≠ some .tickets)) ↔
      (t.state = .blocked → t.blockKind = none ∨ t.blockKind = some .tickets →
        (a = .blocked ↔ target = .blocked)) := by
  rw [stampTicketsKind_kind]
  by_cases hb : t.state = .blocked
  · by_cases hk : t.blockKind = none
    · -- a kind the rollup may write
      by_cases ha : a = .blocked <;> by_cases hd : target = .blocked <;> simp [hb, hk, ha, hd]
    · by_cases hk' : t.blockKind = some .tickets
      · by_cases ha : a = .blocked <;> by_cases hd : target = .blocked <;> simp [hb, hk', ha, hd]
      · -- a kind of the ticket's own is kept
        by_cases ha : a = .blocked <;> simp [hb, hk, hk', ha]
  · by_cases hk' : t.blockKind = some .tickets <;> simp [hb, hk']

theorem agrees_reconcileRow_iff {seen states : List TicketState}
    (hnone : deriveParentState seen = none ↔ deriveParentState states = none) :
    Agrees (reconcileRow t seen now).2 states ↔
      (t.writable = true → deriveParentState seen = deriveParentState states) ∧
        (t.writable = false → t.state = .blocked →
          t.blockKind = none ∨ t.blockKind = some .tickets →
            (deriveParentState seen = some .blocked ↔ deriveParentState states = some .blocked)) := by
  cases hs : deriveParentState seen with
  | none =>
    rw [hnone.mp hs]
    exact ⟨fun _ => ⟨fun _ => rfl, fun _ _ _ => Iff.rfl⟩, fun _ => agrees_of_none (hnone.mp hs)⟩
  | some a =>
    cases hd : deriveParentState states with
    | none => exact absurd (hs.symm.trans (hnone.mpr hd)) (by simp)
    | some target =>
      cases hw : t.writable with
      | true =>
        constructor
        · intro ha
          refine ⟨fun _ => ?_, fun hf => (by cases hf)⟩
          have hstate := ha.state (reconcileRow_writable.trans hw) target hd
          rw [reconcileRow_state, hs] at hstate
          exact congrArg some ((if_pos hw).symm.trans hstate)
        · rintro ⟨heq, -⟩
          have hsame : deriveParentState states = deriveParentState seen := by
            rw [hd, hs, heq rfl]
          have hagain : Agrees (reconcileRow t seen now).2 seen := reconcileRow_again
          exact ⟨fun h => hsame ▸ hagain.state h, fun x hx => hagain.kind x (hsame ▸ hx)⟩
      | false =>
        have hrow : (reconcileRow t seen now).2 = (stampTicketsKind t a).2 := by
          rw [reconcileRow_some hs, derive, if_neg (by rw [hw]; exact Bool.false_ne_true)]
        have hkeep : (stampTicketsKind t a).2.writable = false := by
          rw [← hrow, reconcileRow_writable, hw]
        have hsome : ∀ x : TicketState, some x = some .blocked ↔ x = .blocked := fun _ =>
          some_inj
        rw [hrow, hsome, hsome]
        constructor
        · intro ha
          have hkind := ha.kind target hd
          rw [stampTicketsKind_state] at hkind
          exact ⟨fun hf => (by cases hf), fun _ => stampTicketsKind_agrees_iff.mp hkind⟩
        · rintro ⟨-, hkind⟩
          refine ⟨fun h => absurd (hkeep.symm.trans h) Bool.false_ne_true, fun x hx => ?_⟩
          cases hd.symm.trans hx
          rw [stampTicketsKind_state]
          exact stampTicketsKind_agrees_iff.mpr (hkind rfl)

variable {done : List Nat × Database} {order : List Ticket}

theorem sweep_shape (order : List Ticket) (done : List Nat × Database) :
    SameShape done.2 (order.foldl (sweepOne now) done).2 := by
  induction order generalizing done with
  | nil => exact .refl _
  | cons parent order ih =>
    have hone : SameShape done.2 (sweepOne now done parent).2 := reconcileParent_shape
    exact hone.trans (ih _)

theorem sweep_get {db₀ : Database} (now : Instant) (order : List Ticket)
    (done : List Nat × Database) (h : SameShape db₀ done.2) :
    (order.foldl (sweepOne now) done).2.get =
      (order.map (·.id)).foldl (visit (visitRow db₀ now)) done.2.get := by
  induction order generalizing done with
  | nil => rfl
  | cons parent order ih =>
    rw [foldl_cons, map_cons, foldl_cons, ← get_reconcileParent h]
    exact ih _ (h.trans reconcileParent_shape)

theorem reconcileParent_eq_self (h : Settled (visitRow db now) db.get n) :
    reconcileParent db n now = (false, db) := by
  have hfst : (reconcileParent db n now).1 = false := by
    rw [Bool.eq_false_iff]
    exact fun ht => (reconcileParent_fst (.refl db)).mp ht h
  have hagree := (settled_iff (.refl db)).mp h
  refine Prod.ext hfst ?_
  rw [reconcileParent]
  split
  · rfl
  · rename_i parent hget
    obtain ⟨hmem, hid⟩ := get_mem hget
    have hrows : (db.tickets.rows.map fun row =>
        if row.id = n then (reconcileRow row (childStates db n) now).2 else row) =
          db.tickets.rows := by
      refine (map_congr_left fun row hrow => ?_).trans (map_id _)
      split
      · rename_i hn
        cases Keyed.eq_of_id hrow hmem (hn.trans hid.symm)
        exact agrees_iff.mpr (hagree parent hget)
      · rfl
    show Database.mk (Keyed.update _ _ _ _) db.members = db
    rw [show db.tickets.update n _ _ = db.tickets from Keyed.ext hrows rfl]

theorem reconcileAllParents_eq_self : reconcileAllParents db now = ([], db) ↔
    ∀ t ∈ sweepOrder db, Settled (visitRow db now) db.get t.id := by
  have hget := sweep_get now (sweepOrder db) ([], db) (.refl db)
  constructor
  · intro hsame
    rw [← reconcileAllParents, hsame] at hget
    have hall := (foldl_visit_eq_self (sweepOrder_nodup db)).mp hget.symm
    exact fun t ht => hall t.id (mem_map_of_mem ht)
  · intro hall
    rw [reconcileAllParents]
    generalize sweepOrder db = order at hall
    induction order with
    | nil => rfl
    | cons parent order ih =>
      rw [foldl_cons, sweepOne, reconcileParent_eq_self (hall parent mem_cons_self)]
      exact ih fun t ht => hall t (mem_cons_of_mem parent ht)

theorem reconcileAllParents_shape : SameShape db (reconcileAllParents db now).2 :=
  sweep_shape (sweepOrder db) ([], db)

theorem reconcileAllParents_get : (reconcileAllParents db now).2.get =
    ((sweepOrder db).map (·.id)).foldl (visit (visitRow db now)) db.get :=
  sweep_get now (sweepOrder db) ([], db) (.refl db)

/-! ## What the sweep leaves -/

theorem sources_children (ht : t ∈ db.tickets.rows) (hi : t.workItemType ≠ .initiative)
    (h : Sources db t.id m) : ∃ c ∈ db.children t.id, c.id = m := by
  rcases h with ⟨c, hc, hp⟩ | ⟨⟨t', ht', hinit⟩, -⟩
  · obtain ⟨hmem, hid⟩ := get_mem hc
    exact ⟨c, mem_children.mpr ⟨hmem, hp⟩, hid⟩
  · rw [get_of_mem ht] at ht'
    cases ht'
    exact absurd hinit hi

theorem sources_of_children (hc : c ∈ db.children n) : Sources db n c.id := by
  obtain ⟨hmem, hp⟩ := mem_children.mp hc
  exact .inl ⟨c, get_of_mem hmem, hp⟩

theorem Hierarchical.below (hier : Hierarchical db) (h : Sources db n m) (hm : db.get m = some c) :
    c.workItemType ≠ .initiative := by
  obtain ⟨hmem, rfl⟩ := get_mem hm
  rcases h with ⟨c', hc', hp⟩ | ⟨-, hmember⟩
  · rw [hm] at hc'
    cases hc'
    intro hinit
    rw [hier.top c hmem hinit] at hp
    cases hp
  · exact hier.member _ hmember c hmem rfl

/-- What is summarised by a swept ticket that is no initiative does not change after its visit. -/
theorem sweep_later (now : Instant) (hier : Hierarchical db) {before after : List Ticket}
    (hsplit : sweepOrder db = before ++ t :: after) (hi : t.workItemType ≠ .initiative)
    (hm : Sources db t.id m) (hnot : m ∉ before.map (·.id)) :
    ((sweepOrder db).map (·.id)).foldl (visit (visitRow db now)) db.get m = db.get m := by
  have ht : t ∈ sweepOrder db := hsplit ▸ mem_append_right before mem_cons_self
  obtain ⟨c, hc, rfl⟩ := sources_children (mem_summarising.mp (mem_sweepOrder.mp ht)).1 hi hm
  obtain ⟨hcmem, hparent⟩ := mem_children.mp hc
  refine foldl_visit_of_not_mem fun hin => hnot ?_
  obtain ⟨c', hc', hid⟩ := mem_map.mp hin
  cases Keyed.eq_of_id (mem_summarising.mp (mem_sweepOrder.mp hc')).1 hcmem hid
  exact mem_map_of_mem (sweepOrder_before hier hsplit hc' hparent)

theorem sweepOrder_split (ht : t ∈ sweepOrder db) :
    ∃ before after, sweepOrder db = before ++ t :: after ∧
      (sweepOrder db).map (·.id) = before.map (·.id) ++ t.id :: after.map (·.id) := by
  obtain ⟨before, after, hsplit⟩ := append_of_mem ht
  refine ⟨before, after, hsplit, ?_⟩
  rw [hsplit, map_append, map_cons]

theorem sweep_settled (hier : Hierarchical db) (ht : t ∈ sweepOrder db)
    (hi : t.workItemType ≠ .initiative) :
    Settled (visitRow db now)
      (((sweepOrder db).map (·.id)).foldl (visit (visitRow db now)) db.get) t.id := by
  obtain ⟨before, after, hsplit, hids⟩ := sweepOrder_split ht
  have hnodup := sweepOrder_nodup db
  have hlater := fun m hm hnot => sweep_later (m := m) now hier hsplit hi hm hnot
  rw [hids] at hnodup hlater ⊢
  exact settled_of_split hier.reads hier.not_self hnodup hlater

theorem derive_statesOf {rows : Nat → Option Ticket} {l : List Ticket}
    {f : Ticket → TicketState} (hl : ∀ c ∈ l, c ∈ db.tickets.rows ∧ Sources db n c.id)
    (hall : ∀ c ∈ db.tickets.rows, Sources db n c.id → c ∈ l)
    (hf : ∀ c ∈ l, (rows c.id).map (·.state) = some (f c)) :
    deriveParentState (statesOf db n rows) = deriveParentState (l.map f) := by
  refine deriveParentState_congr fun s => ?_
  rw [mem_statesOf, mem_map]
  constructor
  · rintro ⟨m, hm, hs, t, ht, rfl⟩
    obtain ⟨c, hc, rfl⟩ := mem_map.mp hm
    have hcl := hall c hc hs
    have hstate := hf c hcl
    rw [ht] at hstate
    exact ⟨c, hcl, (some_inj.mp hstate).symm⟩
  · rintro ⟨c, hc, rfl⟩
    obtain ⟨hmem, hs⟩ := hl c hc
    exact ⟨c.id, mem_map_of_mem hmem, hs, map_eq_some_iff.mp (hf c hc)⟩

theorem not_mem_sweepOrder (ht : t ∈ db.tickets.rows) (h : t ∉ sweepOrder db) :
    t.id ∉ (sweepOrder db).map (·.id) := by
  intro hin
  obtain ⟨t', ht', hid⟩ := mem_map.mp hin
  exact h (Keyed.eq_of_id (mem_summarising.mp (mem_sweepOrder.mp ht')).1 ht hid ▸ ht')

theorem sweep_dueState (hier : Hierarchical db) {fuel : Nat}
    (hrank : ∀ t ∈ db.tickets.rows, ∀ p, t.parentTicketId = some p → rank t.id < rank p)
    (ht : t ∈ db.tickets.rows) (hi : t.workItemType ≠ .initiative)
    (hfuel : db.tickets.rows.countP (fun r => rank r.id < rank t.id) < fuel) :
    (((sweepOrder db).map (·.id)).foldl (visit (visitRow db now)) db.get t.id).map (·.state) =
      some (dueState db fuel t.id) := by
  induction fuel generalizing t with
  | zero => exact absurd hfuel (not_lt_zero _)
  | succ fuel ih =>
    have hbelow : ∀ c ∈ db.children t.id,
        (((sweepOrder db).map (·.id)).foldl (visit (visitRow db now)) db.get c.id).map (·.state) =
          some (dueState db fuel c.id) := by
      intro c hc
      obtain ⟨hcmem, hparent⟩ := mem_children.mp hc
      have hlt := hrank c hcmem t.id hparent
      refine ih hcmem (hier.below (sources_of_children hc) (get_of_mem hcmem)) ?_
      have hcount := countP_lt (p := fun r : Ticket => decide (rank r.id < rank c.id))
        (q := fun r : Ticket => decide (rank r.id < rank t.id)) (l := db.tickets.rows)
        (fun r hr => decide_eq_true ((of_decide_eq_true hr).trans hlt)) hcmem
        (decide_eq_false (lt_irrefl _)) (decide_eq_true hlt)
      omega
    rw [dueState, get_of_mem ht]
    by_cases hswept : t ∈ sweepOrder db
    · obtain ⟨before, after, hsplit, hids⟩ := sweepOrder_split hswept
      have hnodup := sweepOrder_nodup db
      have hlater := fun m hm hnot => sweep_later (m := m) now hier hsplit hi hm hnot
      rw [hids] at hnodup hlater hbelow ⊢
      rw [foldl_visit_final hier.reads hier.not_self hnodup hlater, visitRow,
        Function.update_self, get_of_mem ht, map_some, map_some,
        reconcileRow_state]
      have hstates : deriveParentState (statesOf db t.id (Function.update
          ((before.map (·.id) ++ t.id :: after.map (·.id)).foldl (visit (visitRow db now)) db.get)
          t.id (db.get t.id))) =
            deriveParentState ((db.children t.id).map fun c => dueState db fuel c.id) := by
        refine derive_statesOf (fun c hc => ?_) (fun c hc hs => ?_) fun c hc => ?_
        · exact ⟨(mem_children.mp hc).1, sources_of_children hc⟩
        · obtain ⟨c', hc', hid⟩ := sources_children ht hi hs
          exact Keyed.eq_of_id (mem_children.mp hc').1 hc hid ▸ hc'
        · have hs : Sources db t.id c.id := sources_of_children hc
          have hne : c.id ≠ t.id := fun h => hier.not_self (h ▸ hs : Sources db t.id t.id)
          rw [Function.update_of_ne hne]
          exact hbelow c hc
      rw [get_of_mem ht] at hstates
      revert hstates
      generalize deriveParentState (statesOf db t.id _) = target
      rintro rfl
      cases deriveParentState ((db.children t.id).map fun c => dueState db fuel c.id) with
      | none | some target => rfl
    · -- nobody's parent
      have hleaf : db.children t.id = [] := by
        rw [eq_nil_iff_forall_not_mem]
        intro c hc
        obtain ⟨hcmem, hparent⟩ := mem_children.mp hc
        exact hswept (mem_sweepOrder.mpr (mem_summarising.mpr ⟨ht, .inl ⟨c, hcmem, hparent⟩⟩))
      rw [foldl_visit_of_not_mem (not_mem_sweepOrder ht hswept), get_of_mem ht, hleaf]
      rfl

theorem sweep_due (hier : Hierarchical db) (ht : t ∈ db.tickets.rows)
    (hi : t.workItemType ≠ .initiative) :
    (((sweepOrder db).map (·.id)).foldl (visit (visitRow db now)) db.get t.id).map (·.state) =
      some (due db t.id) := by
  obtain ⟨rank, hrank⟩ := hier.acyclic
  exact sweep_dueState hier hrank ht hi (lt_succ_of_le countP_le_length)

theorem mem_roots (hi : t.workItemType = .initiative) (ht : t ∈ db.tickets.rows) :
    c ∈ initiativeRoots db t.id ↔ c ∈ db.tickets.rows ∧ Sources db t.id c.id := by
  rw [mem_initiativeRoots, mem_children, mem_memberTickets, ← and_or_left]
  refine and_congr_right fun hc => ?_
  constructor
  · rintro (hp | hm)
    · exact .inl ⟨c, get_of_mem hc, hp⟩
    · exact .inr ⟨⟨t, get_of_mem ht, hi⟩, hm⟩
  · rintro (⟨c', hc', hp⟩ | ⟨-, hm⟩)
    · rw [get_of_mem hc] at hc'
      cases hc'
      exact .inl hp
    · exact .inr hm

theorem sweptBefore_eq {before after : List Ticket}
    (hsplit : sweepOrder db = before ++ t :: after) :
    sweptBefore db t.id = before := by
  have hnodup := sweepOrder_nodup db
  rw [hsplit, map_append, map_cons] at hnodup
  rw [sweptBefore, hsplit, takeWhile_append_of_pos fun c hc => ?_, takeWhile_cons_of_neg]
  · exact append_nil before
  · simp
  · refine decide_eq_true fun hid => (nodup_append'.mp hnodup).2.2 ?_ mem_cons_self
    exact hid ▸ mem_map_of_mem hc

/-- **A swept initiative is settled** exactly when it was visited with states as good as
    those the sweep leaves. -/
theorem sweep_foresees (hier : Hierarchical db) (ht : t ∈ sweepOrder db)
    (hi : t.workItemType = .initiative) :
    Settled (visitRow db now)
        (((sweepOrder db).map (·.id)).foldl (visit (visitRow db now)) db.get) t.id ↔
      Foresees db t := by
  obtain ⟨before, after, hsplit, hids⟩ := sweepOrder_split ht
  have hrow := (mem_summarising.mp (mem_sweepOrder.mp ht)).1
  have hnodup := sweepOrder_nodup db
  have hdue : ∀ c ∈ initiativeRoots db t.id,
      (((sweepOrder db).map (·.id)).foldl (visit (visitRow db now)) db.get c.id).map (·.state) =
        some (due db c.id) := by
    intro c hc
    obtain ⟨hcmem, hs⟩ := (mem_roots hi hrow).mp hc
    exact sweep_due hier hcmem (hier.below hs (get_of_mem hcmem))
  have hmem : ∀ c ∈ initiativeRoots db t.id, c ∈ db.tickets.rows ∧ Sources db t.id c.id :=
    fun c hc => (mem_roots hi hrow).mp hc
  have hall : ∀ c ∈ db.tickets.rows, Sources db t.id c.id → c ∈ initiativeRoots db t.id :=
    fun c hc hs => (mem_roots hi hrow).mpr ⟨hc, hs⟩
  have hnot : t.id ∉ before.map (·.id) := fun hin => by
    rw [hids] at hnodup
    exact (nodup_append'.mp hnodup).2.2 hin mem_cons_self
  -- what the visit of the initiative finds
  have hseen : ∀ c ∈ initiativeRoots db t.id,
      ((before.map (·.id)).foldl (visit (visitRow db now)) db.get c.id).map (·.state) =
        some (seenState db t.id c) := by
    intro c hc
    obtain ⟨hcmem, hs⟩ := hmem c hc
    have hne : c.id ≠ t.id := fun h => hier.not_self (h ▸ hs : Sources db t.id t.id)
    rw [seenState, sweptBefore_eq hsplit]
    rw [hids] at hnodup hdue
    rw [foldl_visit_before hnodup hne]
    have hin : c.id ∈ before.map (·.id) ↔ c ∈ before := by
      constructor
      · intro h
        obtain ⟨c', hc', hid⟩ := mem_map.mp h
        have hc'mem : c' ∈ sweepOrder db := hsplit ▸ mem_append_left _ hc'
        exact Keyed.eq_of_id (mem_summarising.mp (mem_sweepOrder.mp hc'mem)).1 hcmem hid ▸ hc'
      · exact fun h => mem_map_of_mem h
    by_cases hb : c ∈ before
    · rw [if_pos (hin.mpr hb), if_pos hb]
      exact hdue c hc
    · rw [if_neg fun h => hb (hin.mp h), if_neg hb, get_of_mem hcmem]
      rfl
  have hafter := derive_statesOf hmem hall hdue
  have hbefore := derive_statesOf hmem hall hseen
  rw [hids] at hnodup hafter ⊢
  have hfinal : (before.map (·.id) ++ t.id :: after.map (·.id)).foldl (visit (visitRow db now))
      db.get t.id = some (reconcileRow t (statesOf db t.id
        ((before.map (·.id)).foldl (visit (visitRow db now)) db.get)) now).2 := by
    rw [foldl_visit_split hnodup, visitRow, foldl_visit_of_not_mem hnot, get_of_mem hrow,
      map_some]
  rw [Settled, visitRow, hfinal, map_some, some_inj, agrees_iff,
    agrees_reconcileRow_iff, hbefore, hafter]
  · exact ⟨fun h => ⟨h.1, h.2⟩, fun h => ⟨h.state, h.kind⟩⟩
  · rw [hbefore, hafter, deriveParentState_eq_none, deriveParentState_eq_none,
      map_eq_nil_iff, map_eq_nil_iff]

/-- The forest is settled: every ticket that may be written has the state its children
    give it, and a sweep changes nothing. -/
structure ForestSettled (db : Database) : Prop where
  agrees : ∀ t ∈ db.tickets.rows, t.writable = true →
    ∀ target ∈ deriveParentState (childStates db t.id), t.state = target
  again : ∀ now, reconcileAllParents db now = ([], db)

theorem SameShape.summarising (h : SameShape db db') (ht : t ∈ sweepOrder db') :
    t.id ∈ (sweepOrder db).map (·.id) := by
  obtain ⟨hmem, hsum⟩ := mem_summarising.mp (mem_sweepOrder.mp ht)
  obtain ⟨t₀, ht₀, heq⟩ := h.mem hmem
  have hid : t₀.id = t.id := congrArg Shape.id heq
  refine mem_map.mpr ⟨t₀, mem_sweepOrder.mpr (mem_summarising.mpr ⟨ht₀, ?_⟩), hid⟩
  rw [hid]
  rcases hsum with ⟨c, hc, hp⟩ | hmember
  · obtain ⟨c₀, hc₀, hceq⟩ := h.mem hc
    exact .inl ⟨c₀, hc₀, (congrArg Shape.parentTicketId hceq).trans hp⟩
  · exact .inr (h.members ▸ hmember)

theorem childStates_eq_nil (h : SameShape db db') (ht : t ∈ db'.tickets.rows)
    (hnot : t.id ∉ (sweepOrder db).map (·.id)) : childStates db' t.id = [] := by
  rw [eq_nil_iff_forall_not_mem]
  intro s hs
  obtain ⟨m, c, hsource, hc, -⟩ := mem_childStates.mp hs
  have hmem : t ∈ sweepOrder db' := by
    refine mem_sweepOrder.mpr (mem_summarising.mpr ⟨ht, ?_⟩)
    rcases hsource with ⟨c, hc, hp⟩ | ⟨-, hmember⟩
    · exact .inl ⟨c, (get_mem hc).1, hp⟩
    · exact .inr ⟨_, hmember, rfl⟩
  exact hnot (h.summarising hmem)

theorem forestSettled_iff {db₀ : Database} (now : Instant) (h : SameShape db₀ db) :
    ForestSettled db ↔
    ∀ n ∈ (sweepOrder db₀).map (·.id), Settled (visitRow db₀ now) db.get n := by
  have hback : ∀ n ∈ (sweepOrder db₀).map (·.id), n ∈ (sweepOrder db).map (·.id) := by
    intro n hn
    obtain ⟨t, ht, rfl⟩ := mem_map.mp hn
    exact h.symm.summarising ht
  constructor
  · intro hs n hn
    obtain ⟨t, ht, rfl⟩ := mem_map.mp (hback n hn)
    have hsettled := reconcileAllParents_eq_self.mp (hs.again now) t ht
    exact (settled_iff h).mpr ((settled_iff (.refl db)).mp hsettled)
  · intro hall
    have hagree : ∀ t ∈ db.tickets.rows, Agrees t (childStates db t.id) := by
      intro t ht
      by_cases hin : t.id ∈ (sweepOrder db₀).map (·.id)
      · exact (settled_iff h).mp (hall t.id hin) t (get_of_mem ht)
      · rw [childStates_eq_nil h ht hin]
        exact agrees_of_none rfl
    constructor
    · exact fun t ht hw => (hagree t ht).state hw
    · intro later
      refine reconcileAllParents_eq_self.mpr fun t ht => (settled_iff (.refl db)).mpr ?_
      intro r hr
      obtain ⟨hmem, hid⟩ := get_mem hr
      exact hid ▸ hagree r hmem

/-- **One sweep settles the forest** exactly when every initiative is visited with states
    as good as those the sweep leaves. -/
theorem sweep_settles (hier : Hierarchical db) : ForestSettled (reconcileAllParents db now).2 ↔
      ∀ t ∈ sweepOrder db, t.workItemType = .initiative → Foresees db t := by
  rw [forestSettled_iff now reconcileAllParents_shape, reconcileAllParents_get]
  constructor
  · intro hall t ht hi
    exact (sweep_foresees hier ht hi).mp (hall t.id (mem_map_of_mem ht))
  · intro hall n hn
    obtain ⟨t, ht, rfl⟩ := mem_map.mp hn
    by_cases hi : t.workItemType = .initiative
    · exact (sweep_foresees hier ht hi).mpr (hall t ht hi)
    · exact sweep_settled hier ht hi

instance (db : Database) (t : Ticket) : Decidable (Foresees db t) :=
  decidable_of_iff (_ ∧ _) ⟨fun h => ⟨h.1, h.2⟩, fun h => ⟨h.state, h.kind⟩⟩

/-- A feature whose only task is done, and the initiative that tracks the feature, which
    the query returns first or second. -/
def trackedFeature (first : Bool) : Database where
  tickets := {
    rows :=
      (if first then [{ id := 0, workItemType := .initiative }, { id := 1 }]
        else [{ id := 1 }, { id := 0, workItemType := .initiative }]) ++
      [{ id := 2, parentTicketId := some 1, workItemType := .task, state := .done }]
    next := 3
    nodup := by cases first <;> decide
    fresh := by cases first <;> decide }
  members := [⟨0, 1⟩]

theorem trackedFeature_hierarchical (first : Bool) : Hierarchical (trackedFeature first) where
  acyclic := by
    have hrank : ∀ t ∈ (trackedFeature first).tickets.rows, ∀ p ∈ t.parentTicketId,
        3 - t.id < 3 - p := by cases first <;> decide
    exact ⟨fun n => 3 - n, hrank⟩
  top := by cases first <;> decide
  member := by cases first <;> decide
  tracked := by cases first <;> decide

theorem sweep_settles_second : ForestSettled (reconcileAllParents (trackedFeature false) 0).2 :=
  (sweep_settles (trackedFeature_hierarchical false)).mpr (by decide)

/-- The initiative is visited before its feature goes to done: only a second sweep moves it. -/
theorem sweep_leaves_initiative :
    ∃ db, Hierarchical db ∧ ¬ ForestSettled (reconcileAllParents db 0).2 := by
  refine ⟨trackedFeature true, trackedFeature_hierarchical true, fun h => ?_⟩
  have hnext : (reconcileAllParents (reconcileAllParents (trackedFeature true) 0).2 0).1 = [0] := by
    decide
  rw [h.again 0] at hnext
  cases hnext

end Loregarden.Rollup

