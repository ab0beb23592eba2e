import Loregarden.RollupProofs

/-! # The walk up from a changed ticket

**`reconcile_ancestors_restores`**: when every writable ticket agrees with what it summarises and
one ticket's state changes, then after `reconcile_ancestors` every other writable ticket agrees
again. A ticket that no longer agrees is, at every moment, the changed one, the next of the chain,
or an initiative that tracks one that moved (`Climbing`); the walk visits all of those but the
first. -/

namespace Loregarden.Rollup

open Ranked Settling List
open Lanes (TicketState Instant)
open TicketWait (WorkItemType)

variable {db db₀ : Database} {t : Ticket} {now : Instant} {id n m T : Nat} {walk : Walk}
  {next : Option Nat} {fuel : Nat} {off : Nat → Prop}

section

variable (h : SameShape db₀ db)
include h

theorem SameShape.reconcile : SameShape db₀ (reconcileParent db n now).2 :=
  h.trans reconcileParent_shape

omit h in
theorem settled_reconcile (hier : Hierarchical db₀) (h : SameShape db₀ db)
    (hn : n = id ∨ Settled (visitRow db₀ now) db.get n ∧ ¬ Sources db₀ n id) :
    Settled (visitRow db₀ now) (reconcileParent db id now).2.get n := by
  rw [get_reconcileParent h]
  by_cases hid : n = id
  · rw [hid]
    exact hier.reads.settled_visit
  · obtain ⟨hs, hsrc⟩ := hn.resolve_left hid
    exact hs.visit hier.reads hid hsrc

theorem settled_of_unmoved (hmoved : ¬ (reconcileParent db id now).1 = true) :
    Settled (visitRow db₀ now) db.get id ∧ (reconcileParent db id now).2.get = db.get := by
  have hs : Settled (visitRow db₀ now) db.get id :=
    not_not.mp fun hns => hmoved ((reconcileParent_fst h).mpr hns)
  exact ⟨hs, (get_reconcileParent h).trans (visit_eq_self_iff.mpr hs)⟩

theorem settled_of_none (hget : db.get n = none) : Settled (visitRow db₀ now) db.get n :=
  (settled_iff h).mpr fun t ht => by rw [hget] at ht; cases ht

/-! ## The chain -/

def Tracks (db₀ : Database) (n : Nat) (moved : List Nat) : Prop := ∃ m ∈ moved, ⟨n, m⟩ ∈ db₀.members

/-- The walk so far: what does not agree is the changed ticket, the next of the chain, an
    initiative that tracks one that moved, or was `off` before. -/
structure Climbing (db₀ : Database) (now : Instant) (off : Nat → Prop) (T : Nat)
    (next : Option Nat) (walk : Walk) : Prop where
  shape : SameShape db₀ walk.db
  start : T ∈ walk.seen
  unsettled : ∀ n, ¬ Settled (visitRow db₀ now) walk.db.get n →
    n = T ∨ next = some n ∨ Tracks db₀ n (T :: walk.changed) ∨ off n
  seen : ∀ n ∈ walk.seen, n = T ∨ Settled (visitRow db₀ now) walk.db.get n

/-- The chain goes up: what was seen is below the next ticket, and is no initiative. -/
structure Upward (db₀ : Database) (rank : Nat → Nat) (next : Option Nat) (seen : List Nat) :
    Prop where
  below : ∀ p ∈ next, ∀ n ∈ seen, rank n < rank p
  tickets : ∀ p ∈ next, ∀ n ∈ seen, ∀ t, db₀.get n = some t → t.workItemType ≠ .initiative

def unseen (db₀ : Database) (seen : List Nat) : List Nat :=
  (db₀.tickets.rows.map (·.id)).filter fun n => n ∉ seen

omit h in
theorem unseen_cons_lt {seen : List Nat} {p : Nat} (hp : p ∉ seen)
    (hmem : p ∈ db₀.tickets.rows.map (·.id)) :
    (unseen db₀ (p :: seen)).length < (unseen db₀ seen).length := by
  have hfilter : unseen db₀ (p :: seen) = (unseen db₀ seen).filter (· ≠ p) := by
    rw [unseen, unseen, filter_filter]
    refine filter_congr fun n _ => ?_
    rw [← Bool.decide_and, decide_eq_decide, mem_cons, not_or]
  rw [hfilter, length_filter_lt_length_iff_exists]
  exact ⟨p, mem_filter.mpr ⟨hmem, decide_eq_true hp⟩, by simp⟩

theorem SameShape.parent (hget : db.get n = some t) :
    ∃ t₀, db₀.get n = some t₀ ∧ t₀.parentTicketId = t.parentTicketId ∧
      t₀.workItemType = t.workItemType := by
  obtain ⟨t₀, ht₀, heq⟩ := h.get hget
  exact ⟨t₀, ht₀, congrArg Shape.parentTicketId heq, congrArg Shape.workItemType heq⟩

end

theorem sources_cases (h : Sources db₀ n m) {t₀ : Ticket} (hget : db₀.get m = some t₀) :
    t₀.parentTicketId = some n ∨ ⟨n, m⟩ ∈ db₀.members := by
  rcases h with ⟨t, ht, hp⟩ | ⟨-, hm⟩
  · rw [hget] at ht
    cases ht
    exact .inl hp
  · exact .inr hm

theorem Climbing.stops {p : Nat} (h : Climbing db₀ now off T (some p) walk)
    (hs : Settled (visitRow db₀ now) walk.db.get p) {db' : Database}
    (hshape : SameShape db₀ db') (hsame : db'.get = walk.db.get) :
    Climbing db₀ now off T none { walk with db := db', seen := p :: walk.seen } where
  shape := hshape
  start := mem_cons_of_mem _ h.start
  unsettled := fun n hn => by
    rw [hsame] at hn
    rcases h.unsettled n hn with hT | hnext | hrest
    · exact .inl hT
    · cases hnext
      exact absurd hs hn
    · exact .inr (.inr hrest)
  seen := fun n hn => by
    rw [hsame]
    rcases mem_cons.mp hn with rfl | hold
    · exact .inr hs
    · exact h.seen n hold

section

variable (hier : Hierarchical db₀)
include hier

theorem Climbing.moves {rank : Nat → Nat} {p : Nat}
    (h : Climbing db₀ now off T (some p) walk) (hup : Upward db₀ rank (some p) walk.seen)
    (hrank : ∀ t ∈ db₀.tickets.rows, ∀ q, t.parentTicketId = some q → rank t.id < rank q)
    (hget : walk.db.get p = some t) :
    Climbing db₀ now off T t.parentTicketId
        { db := (reconcileParent walk.db p now).2, changed := walk.changed ++ [p]
          seen := p :: walk.seen } ∧
      Upward db₀ rank t.parentTicketId (p :: walk.seen) := by
  obtain ⟨t₀, ht₀, hparent, -⟩ := h.shape.parent hget
  obtain ⟨hmem₀, hid₀⟩ := get_mem ht₀
  have hbelow : ∀ q ∈ t.parentTicketId, rank p < rank q := fun q hq => by
    have hlt := hrank t₀ hmem₀ q (hparent.trans hq)
    rwa [hid₀] at hlt
  refine ⟨⟨h.shape.reconcile, mem_cons_of_mem _ h.start, fun n hn => ?_, fun n hn => ?_⟩,
    fun q hq n hn => ?_, fun q hq n hn t' ht' => ?_⟩
  · by_cases hT : n = T
    · exact .inl hT
    have hreads : n ≠ p ∧ (¬ Settled (visitRow db₀ now) walk.db.get n ∨ Sources db₀ n p) := by
      refine ⟨fun hnp => hn (settled_reconcile hier h.shape (.inl hnp)), ?_⟩
      by_contra hnot
      rw [not_or, not_not] at hnot
      exact hn (settled_reconcile hier h.shape (.inr hnot))
    rcases hreads.2 with hold | hsrc
    · rcases h.unsettled n hold with hT' | hnext | ⟨m, hm, hmember⟩ | hoff
      · exact absurd hT' hT
      · cases hnext
        exact absurd rfl hreads.1
      · refine .inr (.inr (.inl ⟨m, ?_, hmember⟩))
        rcases mem_cons.mp hm with rfl | hm
        · exact mem_cons_self
        · exact mem_cons_of_mem _ (mem_append_left _ hm)
      · exact .inr (.inr (.inr hoff))
    · rcases sources_cases hsrc ht₀ with hpar | hmember
      · exact .inr (.inl (hparent.symm.trans hpar))
      · exact .inr (.inr (.inl ⟨p, mem_cons_of_mem _
          (mem_append_right _ (mem_singleton_self p)), hmember⟩))
  · rcases mem_cons.mp hn with rfl | hold
    · exact .inr (settled_reconcile hier h.shape (.inl rfl))
    · refine (h.seen n hold).imp_right fun hs =>
        settled_reconcile hier h.shape (.inr ⟨hs, fun hsrc => ?_⟩)
      -- what was seen is below the next ticket, and is no initiative
      rcases hsrc with ⟨t', ht', hpar⟩ | ⟨⟨t', ht', hinit⟩, -⟩
      · rw [ht₀] at ht'
        cases ht'
        have hlt := hrank t₀ hmem₀ n hpar
        rw [hid₀] at hlt
        exact Nat.lt_asymm hlt (hup.below p rfl n hold)
      · exact hup.tickets p rfl n hold t' ht' hinit
  · rcases mem_cons.mp hn with rfl | hold
    · exact hbelow q hq
    · exact (hup.below p rfl n hold).trans (hbelow q hq)
  · rcases mem_cons.mp hn with rfl | hold
    · rw [ht₀] at ht'
      cases ht'
      intro hinit
      have hnone := hier.top t₀ hmem₀ hinit
      rw [hparent, hq] at hnone
      cases hnone
    · exact hup.tickets p rfl n hold t' ht'

theorem climb_climbing {rank : Nat → Nat}
    (hrank : ∀ t ∈ db₀.tickets.rows, ∀ q, t.parentTicketId = some q → rank t.id < rank q)
    (h : Climbing db₀ now off T next walk) (hup : Upward db₀ rank next walk.seen)
    (hfuel : (unseen db₀ walk.seen).length < fuel) :
    Climbing db₀ now off T none (climb now fuel next walk) := by
  induction fuel generalizing next walk with
  | zero => exact absurd hfuel (Nat.not_lt_zero _)
  | succ fuel ih =>
    cases next with
    | none => exact h
    | some p =>
      have hnew : p ∉ walk.seen := fun hin => Nat.lt_irrefl _ (hup.below p rfl p hin)
      rw [climb, if_neg hnew]
      split
      · rename_i hget
        exact h.stops (settled_of_none h.shape hget) h.shape rfl
      · rename_i t hget
        dsimp only
        split
        · rename_i hunmoved
          obtain ⟨hs, hsame⟩ := settled_of_unmoved h.shape hunmoved
          exact h.stops hs h.shape.reconcile hsame
        · obtain ⟨hclimb, hup'⟩ := h.moves hier hup hrank hget
          refine ih hclimb hup' ?_
          obtain ⟨t₀, ht₀, -⟩ := h.shape.get hget
          obtain ⟨hmem₀, hid₀⟩ := get_mem ht₀
          have hrow : p ∈ db₀.tickets.rows.map (·.id) := mem_map.mpr ⟨t₀, hmem₀, hid₀⟩
          have hlt := unseen_cons_lt hnew hrow
          exact Nat.lt_of_lt_of_le hlt (Nat.le_of_lt_succ hfuel)

/-- What still does not agree: the changed ticket, an initiative yet to be visited, or what
    was `off` before. -/
structure Tracking (db₀ : Database) (now : Instant) (off : Nat → Prop) (T : Nat)
    (rest : List Nat) (walk : Walk) : Prop where
  shape : SameShape db₀ walk.db
  unsettled : ∀ n, ¬ Settled (visitRow db₀ now) walk.db.get n → n = T ∨ n ∈ rest ∨ off n
  seen : ∀ n ∈ walk.seen, n = T ∨ Settled (visitRow db₀ now) walk.db.get n

theorem Hierarchical.unread (hid : ∃ m, ⟨id, m⟩ ∈ db₀.members)
    (hget : ∃ t, db₀.get id = some t) : ¬ Sources db₀ n id := by
  obtain ⟨m, hm⟩ := hid
  obtain ⟨t, ht⟩ := hget
  obtain ⟨hmem, rfl⟩ := get_mem ht
  have hinit := hier.tracked _ hm t hmem rfl
  rintro (⟨t', ht', hp⟩ | ⟨-, hmember⟩)
  · rw [ht] at ht'
    cases ht'
    rw [hier.top t hmem hinit] at hp
    cases hp
  · exact hier.member _ hmember t hmem rfl hinit

theorem reconcileTracking_tracking {i : Nat} {rest : List Nat}
    (hi : ∃ m, ⟨i, m⟩ ∈ db₀.members) (h : Tracking db₀ now off T (i :: rest) walk) :
    Tracking db₀ now off T rest (reconcileTracking now walk i) := by
  rw [reconcileTracking]
  split
  · rename_i hin
    refine ⟨h.shape, fun n hn => ?_, h.seen⟩
    rcases h.unsettled n hn with hT | hrest | hoff
    · exact .inl hT
    · rcases mem_cons.mp hrest with rfl | hrest
      · exact .inl ((h.seen n hin).resolve_right hn)
      · exact .inr (.inl hrest)
    · exact .inr (.inr hoff)
  · have hkeeps : ∀ n, n = i ∨ Settled (visitRow db₀ now) walk.db.get n →
        Settled (visitRow db₀ now) (reconcileParent walk.db i now).2.get n := by
      intro n hn
      by_cases hget : ∃ t, db₀.get i = some t
      · exact settled_reconcile hier h.shape
          (hn.imp_right fun hs => ⟨hs, hier.unread hi hget⟩)
      · -- no such row: nothing is written
        have hnone : walk.db.get i = none := by
          cases hw : walk.db.get i with
          | none => rfl
          | some t =>
            obtain ⟨t₀, ht₀, -⟩ := h.shape.get hw
            exact absurd ⟨t₀, ht₀⟩ hget
        rw [reconcileParent_none hnone]
        rcases hn with rfl | hs
        · exact settled_of_none h.shape hnone
        · exact hs
    refine ⟨h.shape.reconcile, fun n hn => ?_, fun n hn => ?_⟩
    · have hold : n ≠ i ∧ ¬ Settled (visitRow db₀ now) walk.db.get n :=
        ⟨fun hni => hn (hkeeps n (.inl hni)), fun hs => hn (hkeeps n (.inr hs))⟩
      refine (h.unsettled n hold.2).imp_right fun hrest => hrest.imp_left fun hrest => ?_
      exact (mem_cons.mp hrest).resolve_left hold.1
    · rcases mem_cons.mp hn with rfl | hold
      · exact .inr (hkeeps n (.inl rfl))
      · exact (h.seen n hold).imp_right fun hs => hkeeps n (.inr hs)

theorem foldl_tracking {rest : List Nat}
    (hi : ∀ i ∈ rest, ∃ m, ⟨i, m⟩ ∈ db₀.members) (h : Tracking db₀ now off T rest walk) :
    Tracking db₀ now off T [] (rest.foldl (reconcileTracking now) walk) := by
  induction rest generalizing walk with
  | nil => exact h
  | cons i rest ih =>
    exact ih (fun j hj => hi j (mem_cons_of_mem i hj))
      (reconcileTracking_tracking hier (hi i mem_cons_self) h)

end

theorem mem_initiativesTracking {ids : List Nat} : n ∈ initiativesTracking db ids ↔
    Tracks db n ids := by
  rw [initiativesTracking, mem_insertionSort, mem_dedup, mem_map]
  constructor
  · rintro ⟨⟨i, m⟩, hmember, rfl⟩
    rw [mem_filter, decide_eq_true_iff] at hmember
    exact ⟨m, hmember.2, hmember.1⟩
  · rintro ⟨m, hm, hmember⟩
    exact ⟨⟨n, m⟩, mem_filter.mpr ⟨hmember, decide_eq_true hm⟩, rfl⟩

theorem setState_shape (db : Database) (T : Nat) (state : TicketState) (locked : Bool)
    (kind : Option BlockKind) :
    SameShape db (db.setState T state locked kind) := by
  refine ⟨?_, rfl⟩
  show (db.tickets.rows.map fun row => _).map Ticket.shape = _
  rw [map_map]
  refine map_congr_left fun row _ => ?_
  rw [Function.comp_apply]
  split <;> rfl

theorem setState_get (state : TicketState) (locked : Bool) (kind : Option BlockKind)
    (h : n ≠ T) : (db.setState T state locked kind).get n = db.get n := by
  rw [Database.get, Database.setState, Keyed.get_update, if_neg h]
  rfl

theorem reconcileAncestors_settled (now : Instant) (hier : Hierarchical db₀) (h : SameShape db₀ db)
    (hget : db.get T = some t)
    (hs : ∀ n, n ≠ T → ¬ Sources db₀ n T → Settled (visitRow db₀ now) db.get n ∨ off n) :
    SameShape db₀ (reconcileAncestors db t now).db ∧
      ∀ n, n ≠ T → Settled (visitRow db₀ now) (reconcileAncestors db t now).db.get n ∨ off n := by
  obtain ⟨rank, hrank⟩ := hier.acyclic
  obtain ⟨t₀, ht₀, hparent, -⟩ := h.parent hget
  obtain ⟨hmem₀, hid₀⟩ := get_mem ht₀
  obtain ⟨hmem, rfl⟩ := get_mem hget
  have hclimb : Climbing db₀ now off t.id t.parentTicketId { db := db, seen := [t.id] } := by
    refine ⟨h, mem_cons_self, fun n hn => ?_, fun n hn => ?_⟩
    · by_cases hT : n = t.id
      · exact .inl hT
      by_cases hsrc : Sources db₀ n t.id
      · rcases sources_cases hsrc ht₀ with hpar | hmember
        · exact .inr (.inl (hparent.symm.trans hpar))
        · exact .inr (.inr (.inl ⟨t.id, mem_cons_self, hmember⟩))
      · exact .inr (.inr (.inr ((hs n hT hsrc).resolve_left hn)))
    · exact .inl (mem_singleton.mp hn)
  have hup : Upward db₀ rank t.parentTicketId [t.id] := by
    refine ⟨fun p hp n hn => ?_, fun p hp n hn t' ht' hinit => ?_⟩
    · rw [mem_singleton.mp hn, ← hid₀]
      exact hrank t₀ hmem₀ p (hparent.trans hp)
    · rw [mem_singleton.mp hn, ht₀] at ht'
      cases ht'
      have hnone := hier.top t₀ hmem₀ hinit
      rw [hparent, hp] at hnone
      cases hnone
  have hfuel : (unseen db₀ [t.id]).length < db.tickets.rows.length + 1 := by
    have hlen : db.tickets.rows.length = db₀.tickets.rows.length := by
      have hmap := congrArg List.length h.rows
      rwa [length_map, length_map] at hmap
    rw [hlen, Nat.lt_succ_iff, unseen]
    exact (length_filter_le _ _).trans (length_map _).le
  have hend := climb_climbing hier hrank hclimb hup hfuel
  set walk := climb now (db.tickets.rows.length + 1) t.parentTicketId
    { db := db, seen := [t.id] } with hwalk
  have htracking : Tracking db₀ now off t.id (initiativesTracking walk.db (t.id :: walk.changed))
      walk := by
    refine ⟨hend.shape, fun n hn => ?_, hend.seen⟩
    rcases hend.unsettled n hn with hT | hnone | ⟨m, hm, hmember⟩ | hoff
    · exact .inl hT
    · cases hnone
    · exact .inr (.inl (mem_initiativesTracking.mpr ⟨m, hm, hend.shape.members ▸ hmember⟩))
    · exact .inr (.inr hoff)
  have hfinal := foldl_tracking hier (fun i hi => by
    obtain ⟨m, -, hmember⟩ := mem_initiativesTracking.mp hi
    exact ⟨m, hend.shape.members ▸ hmember⟩) htracking
  refine ⟨hfinal.shape, fun n hT => ?_⟩
  by_contra hnot
  rw [not_or] at hnot
  rcases hfinal.unsettled n hnot.1 with hT' | hnil | hoff
  · exact hT hT'
  · exact absurd hnil not_mem_nil
  · exact hnot.2 hoff

/-! ## Who owns a state -/

def SameOwners (db db' : Database) : Prop :=
  ∀ n, (db'.get n).map Ticket.writable = (db.get n).map Ticket.writable

theorem reconcileParent_owners : SameOwners db (reconcileParent db id now).2 := by
  intro n
  cases hget : db.get id with
  | none => rw [reconcileParent_none hget]
  | some t =>
    rw [(reconcileParent_some hget).2 n]
    split
    · rename_i hn
      rw [hn, hget, Option.map_some, Option.map_some, reconcileRow_writable]
    · rfl

theorem climb_owners : SameOwners walk.db (climb now fuel next walk).db := by
  induction fuel generalizing next walk with
  | zero => exact fun _ => rfl
  | succ fuel ih =>
    cases next with
    | none => exact fun _ => rfl
    | some p =>
      rw [climb]
      split
      · exact fun _ => rfl
      · split
        · exact fun _ => rfl
        · dsimp only
          split
          · exact reconcileParent_owners
          · exact fun n => (ih n).trans (reconcileParent_owners n)

theorem reconcileTracking_owners {i : Nat} :
    SameOwners walk.db (reconcileTracking now walk i).db := by
  rw [reconcileTracking]
  split
  · exact fun _ => rfl
  · exact reconcileParent_owners

theorem foldl_owners {rest : List Nat} :
    SameOwners walk.db (rest.foldl (reconcileTracking now) walk).db := by
  induction rest generalizing walk with
  | nil => exact fun _ => rfl
  | cons i rest ih => exact fun n => (ih n).trans (reconcileTracking_owners n)

theorem reconcileAncestors_owners (db : Database) (t : Ticket) (now : Instant) :
    SameOwners db (reconcileAncestors db t now).db :=
  fun n => (foldl_owners n).trans (climb_owners n)

/-- Every ticket that may be written, but for one, agrees with what it summarises. -/
def AgreesApart (db : Database) (T : Nat) : Prop :=
  ∀ r ∈ db.tickets.rows, r.id ≠ T → r.writable = true → Agrees r (childStates db r.id)

/-- **The walk up restores the rollup**: when every writable ticket agrees with what it
    summarises and one ticket's state changes to any value, then after
    `reconcile_ancestors` on it every other writable ticket agrees. -/
theorem reconcile_ancestors_restores (hier : Hierarchical db)
    (hagree : ∀ t ∈ db.tickets.rows, t.writable = true → Agrees t (childStates db t.id))
    (state : TicketState) (locked : Bool) (kind : Option BlockKind)
    (hget : (db.setState T state locked kind).get T = some t) :
    AgreesApart (reconcileAncestors (db.setState T state locked kind) t now).db T := by
  have hshape := setState_shape db T state locked kind
  have hbefore : ∀ n, Settled (visitRow db now) db.get n ∨
      (db.get n).map Ticket.writable = some false := by
    intro n
    cases hn : db.get n with
    | none => exact .inl (settled_of_none (.refl db) hn)
    | some t =>
      obtain ⟨hmem, rfl⟩ := get_mem hn
      cases hw : t.writable with
      | false => exact .inr (congrArg some hw)
      | true =>
        refine .inl ((settled_iff (.refl db)).mpr fun t' ht' => ?_)
        rw [hn] at ht'
        cases ht'
        exact hagree t hmem hw
  obtain ⟨hend, hsettled⟩ := reconcileAncestors_settled now hier hshape hget
    fun n hT hsrc => (hbefore n).imp_left fun hs => by
      show visitRow db now n (db.setState T state locked kind).get = _
      rw [hier.reads.congr n _ db.get (setState_get state locked kind hT) fun m hm =>
        setState_get state locked kind fun hmT => hsrc (hmT ▸ hm), setState_get state locked kind hT]
      exact hs
  intro r hr hT hw
  have hgetr := get_of_mem hr
  refine (settled_iff hend).mp ((hsettled r.id hT).resolve_right fun hoff => ?_) r hgetr
  have howner := reconcileAncestors_owners (db.setState T state locked kind) t now r.id
  rw [hgetr, setState_get state locked kind hT, hoff, Option.map_some, hw] at howner
  cases howner

instance (t : Ticket) (states : List TicketState) : Decidable (Agrees t states) :=
  decidable_of_iff _ (agrees_iff : (reconcileRow t states 0).2 = t ↔ _)

/-- An initiative that tracks the capability of a feature; the capability has a task. -/
def trackedTask : Database where
  tickets := {
    rows := [{ id := 0, workItemType := .initiative }, { id := 1 },
      { id := 2, parentTicketId := some 1, workItemType := .capability },
      { id := 3, parentTicketId := some 2, workItemType := .task }]
    next := 4
    nodup := by decide
    fresh := by decide }
  members := [⟨0, 2⟩]

theorem trackedTask_hierarchical : Hierarchical trackedTask where
  acyclic := by
    have hrank : ∀ t ∈ trackedTask.tickets.rows, ∀ p ∈ t.parentTicketId, 4 - t.id < 4 - p := by
      decide
    exact ⟨fun n => 4 - n, hrank⟩
  top := by decide
  member := by decide
  tracked := by decide

theorem reconcile_ancestors_restores_done :
    AgreesApart (reconcileAncestors (trackedTask.setState 3 .done false none)
      { id := 3, parentTicketId := some 2, workItemType := .task, state := .done } 0).db 3 :=
  reconcile_ancestors_restores trackedTask_hierarchical (by decide) .done false none (by decide)

/-- The changed ticket is a parent itself, and nothing recomputes it: its capability goes
    to done while its task is in the backlog. -/
theorem reconcile_ancestors_skips_changed : ∃ db state t, Hierarchical db ∧
      (∀ t ∈ db.tickets.rows, t.writable = true → Agrees t (childStates db t.id)) ∧
      (db.setState 2 state false none).get 2 = some t ∧
      ∃ r ∈ (reconcileAncestors (db.setState 2 state false none) t 0).db.tickets.rows,
        r.writable = true ∧ ¬ Agrees r
          (childStates (reconcileAncestors (db.setState 2 state false none) t 0).db r.id) :=
  ⟨trackedTask, .done,
    { id := 2, parentTicketId := some 1, workItemType := .capability, state := .done },
    trackedTask_hierarchical, by decide, by decide, by decide⟩

end Loregarden.Rollup
