import Mathlib.Data.List.Dedup
import Loregarden.RollupModel
import Loregarden.SettlingProofs

/-! # What the rollup settles

    A visit reads a ticket's own row and the states of what it summarises, so the
    rollup is a settling of the rows, `visitRow`, over a shape that no visit changes.

    * `Agrees`, `agrees_iff`: a row that a visit would leave as it is;
    * `get_reconcileParent`: a visit of the tables is a visit of the rows;
    * `Hierarchical.reads`: what a visit reads. -/

namespace Loregarden.Rollup

open Ranked Settling List
open Lanes (TicketState Instant)
open TicketWait (WorkItemType)

variable {db db' db₀ : Database} {t t' : Ticket} {states states' : List TicketState}
  {target : TicketState} {actor : String} {now : Instant} {id n m : Nat}

/-! ## One row -/

/-- A row agrees with what it summarises: its state when it may be written, and its kind
    where the rollup owns it. -/
structure Agrees (t : Ticket) (states : List TicketState) : Prop where
  state : t.writable = true → ∀ target ∈ deriveParentState states, t.state = target
  kind : ∀ target ∈ deriveParentState states,
    (t.state = .blocked ∧ target = .blocked → t.blockKind ≠ none) ∧
      (¬ (t.state = .blocked ∧ target = .blocked) → t.blockKind ≠ some .tickets)

/-- A write is no change exactly where the state is the one to be written. -/
theorem writeState_eq_self_iff : (writeState t target actor now).2 = t ↔ t.state = target := by
  rw [writeState]
  split
  · rename_i h
    exact ⟨fun _ => h, fun _ => rfl⟩
  · rename_i h
    constructor
    · intro hsame
      exact absurd (congrArg Ticket.state hsame).symm h
    · intro hstate
      exact absurd hstate h

/-- It answers that it wrote where it did. -/
theorem writeState_fst : (writeState t target actor now).1 = true ↔
    (writeState t target actor now).2 ≠ t := by
  rw [ne_eq, writeState_eq_self_iff, writeState]
  split
  · rename_i h
    exact ⟨fun hf => (Bool.false_ne_true hf).elim, fun hf => absurd h hf⟩
  · rename_i h
    exact ⟨fun _ => h, fun _ => rfl⟩

/-- What is written is what was asked for. -/
theorem writeState_state : (writeState t target actor now).2.state = target := by
  rw [writeState]
  split
  · assumption
  · rfl

/-- A derivation writes only where the ticket lets it. -/
theorem derive_state : (derive t target actor now).2.state =
    if t.writable then target else t.state := by
  rw [derive]
  split
  · exact writeState_state
  · rfl

/-- It is no change where the ticket is closed to it, or agrees already. -/
theorem derive_eq_self_iff : (derive t target actor now).2 = t ↔
    (t.writable = true → t.state = target) := by
  rw [derive]
  split
  · rename_i h
    exact writeState_eq_self_iff.trans ⟨fun hs _ => hs, fun hs => hs h⟩
  · rename_i h
    exact ⟨fun _ hw => absurd hw h, fun _ => rfl⟩

/-- It answers that it wrote where it did. -/
theorem derive_fst : (derive t target actor now).1 = true ↔ (derive t target actor now).2 ≠ t := by
  rw [derive]
  split
  · exact writeState_fst
  · exact ⟨fun hf => (Bool.false_ne_true hf).elim, fun hf => absurd rfl hf⟩

/-- The stamp of a block leaves the state alone. -/
theorem stampTicketsKind_state : (stampTicketsKind t target).2.state = t.state := by
  rw [stampTicketsKind]
  split
  · rfl
  · split <;> rfl

/-- It is no change where a block has its kind, and nothing else has the kind of one. -/
theorem stampTicketsKind_eq_self_iff : (stampTicketsKind t target).2 = t ↔
    (t.state = .blocked ∧ target = .blocked → t.blockKind ≠ none) ∧
      (¬ (t.state = .blocked ∧ target = .blocked) → t.blockKind ≠ some .tickets) := by
  rw [stampTicketsKind]
  split
  · rename_i h
    constructor
    · intro hsame
      have hkind : some BlockKind.tickets = t.blockKind := congrArg Ticket.blockKind hsame
      rw [h.2] at hkind
      cases hkind
    · intro hboth
      exact absurd h.2 (hboth.1 h.1)
  · rename_i hnone
    split
    · rename_i h
      constructor
      · intro hsame
        have hkind : none = t.blockKind := congrArg Ticket.blockKind hsame
        rw [h.2] at hkind
        cases hkind
      · intro hboth
        exact absurd h.2 (hboth.2 h.1)
    · rename_i htickets
      exact ⟨fun _ => ⟨fun hr hk => hnone ⟨hr, hk⟩, fun hr hk => htickets ⟨hr, hk⟩⟩, fun _ => rfl⟩

/-- It answers that it wrote where it did. -/
theorem stampTicketsKind_fst : (stampTicketsKind t target).1 = true ↔
    (stampTicketsKind t target).2 ≠ t := by
  rw [ne_eq, stampTicketsKind_eq_self_iff, stampTicketsKind]
  split
  · rename_i h
    exact ⟨fun _ hboth => hboth.1 h.1 h.2, fun _ => rfl⟩
  · rename_i hnone
    split
    · rename_i h
      exact ⟨fun _ hboth => hboth.2 h.1 h.2, fun _ => rfl⟩
    · rename_i htickets
      constructor
      · intro hf
        exact (Bool.false_ne_true hf).elim
      · intro hnot
        exact absurd ⟨fun hr hk => hnone ⟨hr, hk⟩, fun hr hk => htickets ⟨hr, hk⟩⟩ hnot

/-- A row whose children derive a state: the state is derived, and a block stamped. -/
theorem reconcileRow_some (h : deriveParentState states = some target) : reconcileRow t states now =
      ((stampTicketsKind (derive t target "rollup" now).2 target).1 ||
          (derive t target "rollup" now).1,
        (stampTicketsKind (derive t target "rollup" now).2 target).2) := by
  rw [reconcileRow, h]

/-- A row without such children stays. -/
theorem reconcileRow_none (h : deriveParentState states = none) :
    reconcileRow t states now = (false, t) := by
  rw [reconcileRow, h]

/-- The state a row ends with. -/
theorem reconcileRow_state : (reconcileRow t states now).2.state =
    match deriveParentState states with
    | none => t.state
    | some target => if t.writable then target else t.state := by
  cases h : deriveParentState states with
  | none => rw [reconcileRow_none h]
  | some target => rw [reconcileRow_some h, stampTicketsKind_state, derive_state]

/-- Where nothing is derived there is nothing to disagree with. -/
theorem agrees_of_none (h : deriveParentState states = none) : Agrees t states where
  state := fun _ target ht => by rw [h] at ht; cases ht
  kind := fun target ht => by rw [h] at ht; cases ht

/-- **A row stays exactly where it agrees with its children.** -/
theorem agrees_iff : (reconcileRow t states now).2 = t ↔ Agrees t states := by
  cases h : deriveParentState states with
  | none =>
    rw [reconcileRow_none h]
    exact ⟨fun _ => agrees_of_none h, fun _ => rfl⟩
  | some target =>
    rw [reconcileRow_some h]
    constructor
    · intro hsame
      have hstate : (derive t target "rollup" now).2.state = t.state := by
        rw [← stampTicketsKind_state, hsame]
      rw [derive_state] at hstate
      have hwrite : t.writable = true → t.state = target := fun hw => by
        rw [if_pos hw] at hstate
        exact hstate.symm
      rw [derive_eq_self_iff.mpr hwrite] at hsame
      have hkind := stampTicketsKind_eq_self_iff.mp hsame
      constructor
      · intro hw target' ht
        cases h.symm.trans ht
        exact hwrite hw
      · intro target' ht
        cases h.symm.trans ht
        exact hkind
    · intro ha
      have hderive : (derive t target "rollup" now).2 = t :=
        derive_eq_self_iff.mpr fun hw => ha.state hw target h
      show (stampTicketsKind (derive t target "rollup" now).2 target).2 = t
      rw [hderive]
      exact stampTicketsKind_eq_self_iff.mpr (ha.kind target h)

/-- It answers that it wrote where it did. -/
theorem reconcileRow_fst : (reconcileRow t states now).1 = true ↔
    (reconcileRow t states now).2 ≠ t := by
  cases h : deriveParentState states with
  | none =>
    rw [reconcileRow_none h]
    exact ⟨fun hf => (Bool.false_ne_true hf).elim, fun hf => absurd rfl hf⟩
  | some target =>
    rw [reconcileRow_some h, Bool.or_eq_true, stampTicketsKind_fst, derive_fst]
    by_cases hd : (derive t target "rollup" now).2 = t
    · rw [hd]
      exact ⟨fun hor => hor.resolve_right fun hne => hne rfl, fun hs => .inl hs⟩
    · refine ⟨fun _ hsame => hd ?_, fun _ => .inr hd⟩
      refine derive_eq_self_iff.mpr fun hw => ?_
      have hstate : (derive t target "rollup" now).2.state = t.state := by
        rw [← stampTicketsKind_state, hsame]
      rw [derive_state, if_pos hw] at hstate
      exact hstate.symm

/-- Whether a ticket may be written is decided by its state and its lock. -/
theorem writable_eq (hs : t'.state = t.state) (hl : t'.stateLocked = t.stateLocked) :
    t'.writable = t.writable := by
  rw [Ticket.writable, Ticket.writable, hs, hl]

/-- The stamp leaves the lock alone. -/
theorem stampTicketsKind_locked : (stampTicketsKind t target).2.stateLocked = t.stateLocked := by
  rw [stampTicketsKind]
  split
  · rfl
  · split <;> rfl

/-- Once reconciled, a row agrees with the children it was reconciled with. -/
theorem reconcileRow_again : Agrees (reconcileRow t states now).2 states := by
  cases h : deriveParentState states with
  | none => exact agrees_of_none h
  | some target =>
    rw [reconcileRow_some h]
    constructor
    · intro hw target' ht
      cases h.symm.trans ht
      by_cases hwt : t.writable = true
      · rw [stampTicketsKind_state, derive_state, if_pos hwt]
      · rw [derive, if_neg hwt] at hw
        rw [writable_eq stampTicketsKind_state stampTicketsKind_locked] at hw
        exact absurd hw hwt
    · intro target' ht
      cases h.symm.trans ht
      rw [stampTicketsKind]
      split
      · rename_i hstamp
        exact ⟨fun _ hk => (by cases hk), fun hr => absurd hstamp.1 hr⟩
      · rename_i hnone
        split
        · rename_i hstamp
          exact ⟨fun hr => absurd hr hstamp.1, fun _ hk => (by cases hk)⟩
        · rename_i htickets
          exact ⟨fun hr hk => hnone ⟨hr, hk⟩, fun hr hk => htickets ⟨hr, hk⟩⟩

/-- No state is derived that closes a ticket to further derivations. -/
theorem deriveParentState_ne (h : deriveParentState states = some target) :
    target ≠ .wontDo ∧ target ≠ .parked := by
  rw [deriveParentState] at h
  split at h
  · cases h
  · split at h
    · cases h
      exact ⟨TicketState.noConfusion, TicketState.noConfusion⟩
    · split at h
      · cases h
        exact ⟨TicketState.noConfusion, TicketState.noConfusion⟩
      · split at h
        · cases h
          exact ⟨TicketState.noConfusion, TicketState.noConfusion⟩
        · cases h
          exact ⟨TicketState.noConfusion, TicketState.noConfusion⟩

/-- Whether a row may be written outlives its reconciliation. -/
theorem reconcileRow_writable : (reconcileRow t states now).2.writable = t.writable := by
  cases h : deriveParentState states with
  | none => rw [reconcileRow_none h]
  | some target =>
    rw [reconcileRow_some h, writable_eq stampTicketsKind_state stampTicketsKind_locked, derive,
      writeState]
    split
    · rename_i hw
      split
      · rfl
      · obtain ⟨hdo, hpark⟩ := deriveParentState_ne h
        rw [hw]
        refine decide_eq_true fun hnot => ?_
        rcases hnot with hl | hd | hp
        · exact of_decide_eq_true hw (.inl hl)
        · exact hdo hd
        · exact hpark hp
    · rfl

/-- Only which states there are counts, not their order or number. -/
theorem deriveParentState_congr (h : ∀ s, s ∈ states ↔ s ∈ states') :
    deriveParentState states = deriveParentState states' := by
  have hnil : states = [] ↔ states' = [] := by
    rw [eq_nil_iff_forall_not_mem, eq_nil_iff_forall_not_mem]
    exact forall_congr' fun s => not_congr (h s)
  have hany : ∀ q : TicketState → Bool, states.any q = states'.any q := fun q => by
    rw [Bool.eq_iff_iff, any_eq_true, any_eq_true]
    exact exists_congr fun s => and_congr_left fun _ => h s
  have hall : ∀ q : TicketState → Bool, states.all q = states'.all q := fun q => by
    rw [Bool.eq_iff_iff, all_eq_true, all_eq_true]
    exact forall_congr' fun s => imp_congr_left (h s)
  simp only [deriveParentState, hnil, hany, hall]

/-- The same of the row. -/
theorem reconcileRow_congr (h : ∀ s, s ∈ states ↔ s ∈ states') :
    reconcileRow t states now = reconcileRow t states' now := by
  rw [reconcileRow, reconcileRow, deriveParentState_congr h]

/-! ## The shape of the tables -/

/-- What of a ticket no roll-up writes. -/
structure Shape where
  id : Nat
  parentTicketId : Option Nat
  workItemType : WorkItemType

def Ticket.shape (t : Ticket) : Shape := ⟨t.id, t.parentTicketId, t.workItemType⟩

/-- The same tickets under the same parents, tracked by the same initiatives. -/
structure SameShape (db db' : Database) : Prop where
  rows : db'.tickets.rows.map Ticket.shape = db.tickets.rows.map Ticket.shape
  members : db'.members = db.members

theorem SameShape.refl (db : Database) : SameShape db db := ⟨rfl, rfl⟩

section

variable (h : SameShape db db')
include h

theorem SameShape.symm : SameShape db' db := ⟨h.rows.symm, h.members.symm⟩

theorem SameShape.trans {db'' : Database} (h' : SameShape db' db'') : SameShape db db'' :=
  ⟨h'.rows.trans h.rows, h'.members.trans h.members⟩

omit h in
theorem get_mem (h : db.get id = some t) : t ∈ db.tickets.rows ∧ t.id = id := Keyed.get_eq_some h

omit h in
theorem get_of_mem (h : t ∈ db.tickets.rows) : db.get t.id = some t := Keyed.get_of_mem h

/-- A ticket of the one has its shape in the other. -/
theorem SameShape.mem (ht : t ∈ db'.tickets.rows) : ∃ t₀ ∈ db.tickets.rows, t₀.shape = t.shape := by
  have hshape : t.shape ∈ db'.tickets.rows.map Ticket.shape := mem_map_of_mem ht
  rw [h.rows] at hshape
  obtain ⟨t₀, ht₀, heq⟩ := mem_map.mp hshape
  exact ⟨t₀, ht₀, heq⟩

/-- The same, by its id. -/
theorem SameShape.get (ht : db'.get id = some t) :
    ∃ t₀, db.get id = some t₀ ∧ t₀.shape = t.shape := by
  obtain ⟨hmem, rfl⟩ := get_mem ht
  obtain ⟨t₀, ht₀, heq⟩ := h.mem hmem
  have hid : t₀.id = t.id := congrArg Shape.id heq
  exact ⟨t₀, hid ▸ get_of_mem ht₀, heq⟩

/-- `m` is among the tickets that `n` summarises. -/
def Sources (db : Database) (n m : Nat) : Prop :=
  (∃ t, db.get m = some t ∧ t.parentTicketId = some n) ∨
    (∃ t, db.get n = some t ∧ t.workItemType = .initiative) ∧ ⟨n, m⟩ ∈ db.members

/-- Who reads whom is decided by the shapes. -/
theorem SameShape.sources (hs : Sources db' n m) : Sources db n m := by
  rcases hs with ⟨t, ht, hp⟩ | ⟨⟨t, ht, hi⟩, hm⟩
  · obtain ⟨t₀, ht₀, heq⟩ := h.get ht
    exact .inl ⟨t₀, ht₀, (congrArg Shape.parentTicketId heq).trans hp⟩
  · obtain ⟨t₀, ht₀, heq⟩ := h.get ht
    exact .inr ⟨⟨t₀, ht₀, (congrArg Shape.workItemType heq).trans hi⟩, h.members ▸ hm⟩

end

/-- The children of a ticket. -/
theorem mem_children : t ∈ db.children n ↔ t ∈ db.tickets.rows ∧ t.parentTicketId = some n := by
  rw [Database.children, mem_filter, decide_eq_true_iff]

/-- The tickets an initiative has as members. -/
theorem mem_memberTickets : t ∈ db.memberTickets n ↔
    t ∈ db.tickets.rows ∧ ⟨n, t.id⟩ ∈ db.members := by
  rw [Database.memberTickets, mem_filterMap]
  constructor
  · rintro ⟨⟨i, m⟩, hmember, hget⟩
    rw [mem_filter, decide_eq_true_iff] at hmember
    obtain ⟨hmem, rfl⟩ := get_mem hget
    obtain ⟨hrow, rfl⟩ := hmember
    exact ⟨hmem, hrow⟩
  · rintro ⟨hmem, hrow⟩
    refine ⟨⟨n, t.id⟩, mem_filter.mpr ⟨hrow, decide_eq_true rfl⟩, get_of_mem hmem⟩

/-- Its roots: its children, and its members. -/
theorem mem_initiativeRoots : t ∈ initiativeRoots db n ↔
    t ∈ db.children n ∨ t ∈ db.memberTickets n := by
  rw [initiativeRoots, mem_insertionSort, mem_dedup, mem_append, mem_filter, decide_eq_true_iff]
  constructor
  · exact fun h => h.imp_right And.left
  · rintro (hc | hm)
    · exact .inl hc
    · by_cases hin : t.id ∈ (db.children n).map (·.id)
      · obtain ⟨c, hc, hid⟩ := mem_map.mp hin
        have hrow := (mem_memberTickets.mp hm).1
        have heq : c = t := Keyed.eq_of_id (mem_children.mp hc).1 hrow hid
        exact .inl (heq ▸ hc)
      · exact .inr ⟨hm, hin⟩

theorem isInitiative_iff : (db.get n).any (·.workItemType = .initiative) = true ↔
    ∃ t, db.get n = some t ∧ t.workItemType = .initiative := by
  rw [Option.any_eq_true]
  exact exists_congr fun t => and_congr_right fun _ => decide_eq_true_iff

/-- The states a ticket is rolled up from are those of the tickets it reads. -/
theorem mem_childStates {s : TicketState} : s ∈ childStates db n ↔
    ∃ m t, Sources db n m ∧ db.get m = some t ∧ t.state = s := by
  rw [childStates]
  split
  · rename_i hinit
    rw [mem_map]
    constructor
    · rintro ⟨t, ht, rfl⟩
      rcases mem_initiativeRoots.mp ht with hc | hm
      · obtain ⟨hrow, hp⟩ := mem_children.mp hc
        exact ⟨t.id, t, .inl ⟨t, get_of_mem hrow, hp⟩, get_of_mem hrow, rfl⟩
      · obtain ⟨hrow, hmember⟩ := mem_memberTickets.mp hm
        exact ⟨t.id, t, .inr ⟨isInitiative_iff.mp hinit, hmember⟩, get_of_mem hrow, rfl⟩
    · rintro ⟨m, t, hs, hget, rfl⟩
      obtain ⟨hrow, rfl⟩ := get_mem hget
      refine ⟨t, mem_initiativeRoots.mpr ?_, rfl⟩
      rcases hs with ⟨t', ht', hp⟩ | ⟨-, hmember⟩
      · rw [hget] at ht'
        cases ht'
        exact .inl (mem_children.mpr ⟨hrow, hp⟩)
      · exact .inr (mem_memberTickets.mpr ⟨hrow, hmember⟩)
  · rename_i hinit
    rw [mem_map]
    constructor
    · rintro ⟨t, ht, rfl⟩
      obtain ⟨hrow, hp⟩ := mem_children.mp ht
      exact ⟨t.id, t, .inl ⟨t, get_of_mem hrow, hp⟩, get_of_mem hrow, rfl⟩
    · rintro ⟨m, t, hs, hget, rfl⟩
      obtain ⟨hrow, rfl⟩ := get_mem hget
      rcases hs with ⟨t', ht', hp⟩ | ⟨hi, -⟩
      · rw [hget] at ht'
        cases ht'
        exact ⟨t, mem_children.mpr ⟨hrow, hp⟩, rfl⟩
      · exact absurd (isInitiative_iff.mpr hi) hinit

/-! ## A visit of the tables is a visit of the rows -/

open Classical in
/-- The states of what a ticket summarises, as the rows have them. -/
noncomputable def statesOf (db₀ : Database) (n : Nat) (rows : Nat → Option Ticket) :
    List TicketState :=
  (db₀.tickets.rows.map (·.id)).filterMap fun m =>
    if Sources db₀ n m then (rows m).map (·.state) else none

noncomputable def visitRow (db₀ : Database) (now : Instant) (n : Nat)
    (rows : Nat → Option Ticket) : Option Ticket :=
  (rows n).map fun t => (reconcileRow t (statesOf db₀ n rows) now).2

theorem mem_statesOf {rows : Nat → Option Ticket} {s : TicketState} :
    s ∈ statesOf db₀ n rows ↔ ∃ m ∈ db₀.tickets.rows.map (·.id), Sources db₀ n m ∧
      ∃ t, rows m = some t ∧ t.state = s := by
  rw [statesOf, mem_filterMap]
  refine exists_congr fun m => and_congr_right fun _ => ?_
  split
  · rename_i hs
    rw [Option.map_eq_some_iff]
    exact ⟨fun h => ⟨hs, h⟩, And.right⟩
  · rename_i hs
    exact ⟨fun h => (by cases h), fun h => absurd h.1 hs⟩

/-- Read through the rows as they are, these are the same states. -/
theorem statesOf_get (h : SameShape db₀ db) (s : TicketState) :
    s ∈ statesOf db₀ n db.get ↔ s ∈ childStates db n := by
  rw [mem_statesOf, mem_childStates]
  constructor
  · rintro ⟨m, -, hs, t, hget, hstate⟩
    exact ⟨m, t, h.symm.sources hs, hget, hstate⟩
  · rintro ⟨m, t, hs, hget, hstate⟩
    obtain ⟨t₀, ht₀, -⟩ := h.get hget
    obtain ⟨hmem, rfl⟩ := get_mem ht₀
    exact ⟨t₀.id, mem_map_of_mem hmem, h.sources hs, t, hget, hstate⟩

/-- They depend on the states of the tickets that are read, and on nothing else. -/
theorem statesOf_congr {rows rows' : Nat → Option Ticket}
    (h : ∀ m, Sources db₀ n m → (rows m).map (·.state) = (rows' m).map (·.state)) :
    statesOf db₀ n rows = statesOf db₀ n rows' := by
  refine filterMap_congr fun m _ => ?_
  split
  · rename_i hs
    exact h m hs
  · rfl

/-- A ticket that is not there is passed over. -/
theorem reconcileParent_none (h : db.get n = none) : reconcileParent db n now = (false, db) := by
  rw [reconcileParent, h]

/-- A reconciliation writes the one row, and answers whether it changed. -/
theorem reconcileParent_some (h : db.get n = some t) :
    (reconcileParent db n now).1 = (reconcileRow t (childStates db n) now).1 ∧
      ∀ m, (reconcileParent db n now).2.get m =
        if m = n then some (reconcileRow t (childStates db n) now).2 else db.get m := by
  rw [reconcileParent, h]
  refine ⟨rfl, fun m => ?_⟩
  refine (Keyed.get_update fun row => reconcileRow_id row _ _).trans ?_
  split
  · show (db.get n).map _ = _
    rw [h, Option.map_some]
  · rfl

section

variable (h : SameShape db₀ db)
include h

/-- A visit of a row reads its children as they are. -/
theorem visitRow_get : visitRow db₀ now n db.get = (db.get n).map fun t =>
      (reconcileRow t (childStates db n) now).2 := by
  refine Option.map_congr fun t _ => ?_
  rw [reconcileRow_congr (statesOf_get h)]

/-- A reconciliation is a visit of the rows. -/
theorem get_reconcileParent :
    (reconcileParent db n now).2.get = visit (visitRow db₀ now) db.get n := by
  funext m
  rw [visit, Function.update_apply, visitRow_get h]
  cases hn : db.get n with
  | none =>
    rw [reconcileParent_none hn]
    split
    · rename_i hmn
      rw [hmn]
      exact hn
    · rfl
  | some t =>
    rw [(reconcileParent_some hn).2 m, Option.map_some]

/-- It answers that it wrote where the row was not settled. -/
theorem reconcileParent_fst :
    (reconcileParent db n now).1 = true ↔ ¬ Settled (visitRow db₀ now) db.get n := by
  rw [Settled, visitRow_get h]
  cases hn : db.get n with
  | none =>
    rw [reconcileParent_none hn]
    exact ⟨fun hf => (Bool.false_ne_true hf).elim, fun hf => absurd rfl hf⟩
  | some t =>
    rw [(reconcileParent_some hn).1, Option.map_some, Option.some_inj]
    exact reconcileRow_fst

end

theorem stampTicketsKind_shape : (stampTicketsKind t target).2.shape = t.shape := by
  rw [stampTicketsKind]
  split
  · rfl
  · split <;> rfl

theorem derive_shape : (derive t target actor now).2.shape = t.shape := by
  rw [derive, writeState]
  split
  · split <;> rfl
  · rfl

theorem reconcileRow_shape : (reconcileRow t states now).2.shape = t.shape := by
  cases h : deriveParentState states with
  | none => rw [reconcileRow_none h]
  | some target => rw [reconcileRow_some h, stampTicketsKind_shape, derive_shape]

/-- It keeps the shape of the table. -/
theorem reconcileParent_shape : SameShape db (reconcileParent db n now).2 := by
  rw [reconcileParent]
  split
  · exact .refl db
  · refine ⟨?_, rfl⟩
    show ((db.tickets.rows.map fun row => _)).map Ticket.shape = _
    rw [map_map]
    refine map_congr_left fun row _ => ?_
    rw [Function.comp_apply]
    split
    · exact reconcileRow_shape
    · rfl

/-- A row is settled where it agrees with its children. -/
theorem settled_iff (h : SameShape db₀ db) : Settled (visitRow db₀ now) db.get n ↔
    ∀ t ∈ db.get n, Agrees t (childStates db n) := by
  rw [Settled, visitRow_get h]
  cases hn : db.get n with
  | none => exact ⟨fun _ t ht => (by cases ht), fun _ => rfl⟩
  | some t =>
    rw [Option.map_some, Option.some_inj]
    constructor
    · intro hsame t' ht'
      cases ht'
      exact agrees_iff.mp hsame
    · intro ha
      exact agrees_iff.mpr (ha t rfl)

/-- A hierarchy as its writers keep it: no parent cycle, and initiatives have no parent
    and are nobody's member. -/
structure Hierarchical (db : Database) : Prop where
  acyclic : ∃ rank : Nat → Nat, ∀ t ∈ db.tickets.rows, ∀ p, t.parentTicketId = some p →
    rank t.id < rank p
  top : ∀ t ∈ db.tickets.rows, t.workItemType = .initiative → t.parentTicketId = none
  member : ∀ r ∈ db.members, ∀ t ∈ db.tickets.rows, t.id = r.ticketId → t.workItemType ≠ .initiative
  tracked : ∀ r ∈ db.members, ∀ t ∈ db.tickets.rows, t.id = r.initiativeId →
    t.workItemType = .initiative

/-- Above no ticket of a hierarchy is itself. -/
theorem Hierarchical.not_self (h : Hierarchical db) : ¬ Sources db n n := by
  rintro (⟨t, ht, hp⟩ | ⟨⟨t, ht, hi⟩, hm⟩)
  · obtain ⟨rank, hrank⟩ := h.acyclic
    obtain ⟨hmem, rfl⟩ := get_mem ht
    exact Nat.lt_irrefl _ (hrank t hmem _ hp)
  · obtain ⟨hmem, rfl⟩ := get_mem ht
    exact h.member _ hm t hmem rfl hi

/-- A visit of a hierarchy reads the rows below and no other. -/
theorem Hierarchical.reads (h : Hierarchical db₀) :
    Reads (visitRow db₀ now) fun n m => Sources db₀ n m where
  congr := fun n rows rows' hn hrows => by
    rw [visitRow, visitRow, hn, statesOf_congr fun m hm => congrArg _ (hrows m hm)]
  again := fun n rows => by
    have hstates : statesOf db₀ n (visit (visitRow db₀ now) rows n) = statesOf db₀ n rows := by
      refine statesOf_congr fun m hm => ?_
      rw [visit_of_ne fun hmn => h.not_self (hmn ▸ hm)]
    rw [visitRow, hstates, visit_self, visitRow, Option.map_map]
    exact Option.map_congr fun t _ => agrees_iff.mpr reconcileRow_again

end Loregarden.Rollup
