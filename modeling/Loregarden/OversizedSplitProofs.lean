import Loregarden.OversizedReplyProofs
import Loregarden.TicketWaitProofs

/-! # A split is all or nothing, unless it is cut

The children of a split are one commit, their chain and the review are commits of their own. A call
is written out as a script (`persist_eq`): what it leaves when a step of it fails, or when the
process stops, is what the steps before left. -/

namespace Loregarden.OversizedSplit

open Scripts Refusals Relation Option Bool Store Faults
open Beat hiding children
open TicketWait (WorkItemType TicketId WorkspaceId TicketDependency Database ancestorIds reaches
  existingEdge reaches_iff mem_ancestorIds)
open List
variable {s : Store} {row : NewRow} {id a b : TicketId} {rows : List NewRow} {ids : List TicketId}
variable {t : TicketWait.Ticket} {p : TicketId × TicketId} {pairs : List (TicketId × TicketId)}
variable {bs : List Beat} {d : TicketDependency}

/-! ## New rows -/

theorem named_subset_insert (h : id ∈ named s.db) : id ∈ named (s.insert row).db := by
  simp only [named, Store.insert, map_append, filterMap_append, mem_append] at h ⊢
  tauto

theorem fresh_mem_insert (s : Store) (row : NewRow) : fresh s.db ∈ named (s.insert row).db := by
  simp only [named, Store.insert, map_append, mem_append]
  exact .inl (.inl (.inr mem_cons_self))

theorem fresh_lt_insert (s : Store) (row : NewRow) : fresh s.db < fresh (s.insert row).db :=
  lt_fresh (fresh_mem_insert s row)

theorem created_between
    (h : id ∈ s.created rows) : fresh s.db ≤ id ∧ id ∈ named (rows.foldl insert s).db := by
  induction rows generalizing s with
  | nil => cases h
  | cons row rows ih =>
    have hkeep : ∀ {t : Store} {i : TicketId}, i ∈ named t.db →
        i ∈ named (rows.foldl insert t).db := by
      intro t i hi
      clear ih h
      induction rows generalizing t with
      | nil => exact hi
      | cons r rows ih => exact ih (named_subset_insert hi)
    rcases mem_cons.mp h with rfl | h
    · exact ⟨le_rfl, hkeep (fresh_mem_insert s row)⟩
    · obtain ⟨hle, hmem⟩ := ih h
      exact ⟨(fresh_lt_insert s row).le.trans hle, hmem⟩

theorem created_pairwise : (s.created rows).Pairwise (· < ·) := by
  induction rows generalizing s with
  | nil => exact .nil
  | cons row rows ih =>
    refine pairwise_cons.mpr ⟨fun id h => ?_, ih⟩
    exact (fresh_lt_insert s row).trans_le (created_between h).1

def ticketsOf (ids : List TicketId) (rows : List NewRow) : List TicketWait.Ticket :=
  List.zipWith (fun id row => row.ticket id) ids rows

theorem mem_ticketsOf
    (h : t ∈ ticketsOf ids rows) : ∃ row ∈ rows, ∃ id ∈ ids, t = row.ticket id := by
  induction ids generalizing rows with
  | nil => cases h
  | cons id ids ih =>
    cases rows with
    | nil => cases h
    | cons row rows =>
      rcases mem_cons.mp h with rfl | h
      · exact ⟨row, mem_cons_self, id, mem_cons_self, rfl⟩
      · obtain ⟨r, hr, i, hi, rfl⟩ := ih h
        exact ⟨r, mem_cons_of_mem _ hr, i, mem_cons_of_mem _ hi, rfl⟩

theorem map_id_ticketsOf
    (h : ids.length = rows.length) : (ticketsOf ids rows).map TicketWait.Ticket.id = ids := by
  induction ids generalizing rows with
  | nil => rfl
  | cons id ids ih =>
    cases rows with
    | nil => cases h
    | cons row rows => exact congrArg (id :: ·) (ih (Nat.succ.inj h))

theorem tickets_insertAll : (rows.foldl insert s).db.tickets
      = s.db.tickets ++ ticketsOf (s.created rows) rows := by
  induction rows generalizing s with
  | nil => exact (append_nil _).symm
  | cons row rows ih =>
    rw [foldl_cons, ih, created]
    exact append_assoc _ [_] _

theorem dependencies_insertAll :
    (rows.foldl insert s).db.dependencies = s.db.dependencies := by
  induction rows generalizing s with
  | nil => rfl
  | cons row rows ih => rw [foldl_cons, ih]; rfl

theorem content_insertAll_old
    (h : id < fresh s.db) : (rows.foldl insert s).content id = s.content id := by
  induction rows generalizing s with
  | nil => rfl
  | cons row rows ih =>
    rw [foldl_cons, ih (h.trans (fresh_lt_insert s row))]
    exact if_neg h.ne

theorem content_insertAll :
    List.Forall₂ (fun id row => (rows.foldl insert s).content id = row.content)
      (s.created rows) rows := by
  induction rows generalizing s with
  | nil => exact .nil
  | cons row rows ih =>
    refine .cons ?_ ih
    rw [foldl_cons, content_insertAll_old (fresh_lt_insert s row)]
    exact if_pos rfl

theorem length_created : (s.created rows).length = rows.length :=
  (content_insertAll (s := s)).length_eq

/-! ## Edges that are added -/

/-- The edges of pairs of a ticket and one it waits for, one after the other. -/
def links (pairs : List (TicketId × TicketId)) : List Beat :=
  pairs.flatMap fun p => [.link p.1 p.2, .linked p.1 p.2]

/-- Edges `add_dependency` adds: of tickets nobody waits for yet, to tickets above nobody. -/
structure Addable (s : Store) (pairs : List (TicketId × TicketId)) : Prop where
  ne : ∀ p ∈ pairs, p.1 ≠ p.2
  childless : ∀ p ∈ pairs, ∀ t ∈ s.db.tickets, t.parentTicketId ≠ some p.2
  unwaited : ∀ p ∈ pairs, ∀ d ∈ s.db.dependencies, d.dependsOnTicketId ≠ p.1
  unlinked : ∀ p ∈ pairs, ∀ d ∈ s.db.dependencies, (d.ticketId, d.dependsOnTicketId) ≠ p
  apart : pairs.Pairwise fun p q => p.2 ≠ q.1 ∧ p ≠ q

theorem not_ancestor {db : Database}
    (h : ∀ t ∈ db.tickets, t.parentTicketId ≠ some a) : a ∉ ancestorIds db b := by
  intro hmem
  obtain ⟨c, hac, -⟩ := TransGen.head'_iff.mp (mem_ancestorIds.mp hmem)
  obtain ⟨t, ht, hp⟩ := mem_filterMap.mp hac
  obtain ⟨p, hparent, hpair⟩ := map_eq_some_iff.mp hp
  exact h t ht (hparent.trans (congrArg some (congrArg Prod.fst hpair)))

theorem not_reaches {db : Database} (hne : a ≠ b)
    (h : ∀ d ∈ db.dependencies, d.dependsOnTicketId ≠ b) : reaches db a b = false := by
  by_contra hreach
  rcases (reaches_iff.mp (not_eq_false _ ▸ hreach)).cases_tail with heq | ⟨c, -, hcb⟩
  · exact hne heq.symm
  · obtain ⟨d, hd, hpair⟩ := mem_map.mp hcb
    exact h d hd (congrArg Prod.snd hpair)

variable {env : Env}

theorem addDependency_eq (h : Addable s [(a, b)]) : addDependency env a b s
      = env.faults.perform .stepFailed write [.link a b, .linked a b] s := by
  have hself := mem_singleton_self (a, b)
  have hne : a ≠ b := h.ne _ hself
  have hedge : existingEdge s.db a b = none := by
    rw [existingEdge, List.find?_eq_none]
    intro d hd hdec
    obtain ⟨ha, hb⟩ := of_decide_eq_true hdec
    exact h.unlinked _ hself d hd (Prod.ext ha hb)
  have hok : ∃ x, TicketWait.addDependency s.db a b splitCreatedBy = .ok x := by
    rw [TicketWait.addDependency, if_neg hne, TicketWait.refuseWaitOnAncestor,
      if_neg (not_ancestor (h.childless _ hself)), hedge]
    show ∃ x, (if reaches s.db b a = true then _ else _) = Except.ok x
    rw [not_reaches hne.symm (h.unwaited _ hself)]
    exact ⟨_, rfl⟩
  obtain ⟨x, hx⟩ := hok
  rw [addDependency, readStore_bind, hx]
  show (if (existingEdge s.db a b).isSome then pure () else do
    commit env (.link a b)
    commit env (.linked a b) : Call Unit) s = _
  rw [hedge, if_neg (show ¬ (none : Option TicketDependency).isSome = true from false_ne_true)]
  refine act_congr rfl fun _ t _ => ?_
  show _ = (commit env (.linked a b) >>= fun _ => pure ()) t
  rw [act_unit]

def Store.link (s : Store) (p : TicketId × TicketId) : Store := (Beat.link p.1 p.2).write s

theorem Addable.tail (h : Addable s (p :: pairs)) : Addable (s.link p) pairs := by
  obtain ⟨happ, happs⟩ := pairwise_cons.mp h.apart
  refine ⟨fun q hq => h.ne q (mem_cons_of_mem p hq),
    fun q hq => h.childless q (mem_cons_of_mem p hq), ?_, ?_, happs⟩
  · intro q hq d hd
    rcases mem_append.mp hd with hd | hd
    · exact h.unwaited q (mem_cons_of_mem p hq) d hd
    · rw [mem_singleton.mp hd]
      exact (happ q hq).1
  · intro q hq d hd
    rcases mem_append.mp hd with hd | hd
    · exact h.unlinked q (mem_cons_of_mem p hq) d hd
    · rw [mem_singleton.mp hd]
      exact (happ q hq).2

theorem Addable.head (h : Addable s (p :: pairs)) : Addable s [(p.1, p.2)] := by
  refine ⟨?_, ?_, ?_, ?_, pairwise_singleton _ _⟩
  all_goals
    intro q hq
    obtain rfl : q = p := mem_singleton.mp hq
  · exact h.ne q mem_cons_self
  · exact h.childless q mem_cons_self
  · exact h.unwaited q mem_cons_self
  · exact h.unlinked q mem_cons_self

theorem addDependencies_eq (h : Addable s pairs) :
    addDependencies env pairs s = env.faults.perform .stepFailed write (links pairs) s := by
  induction pairs generalizing s with
  | nil => rfl
  | cons p pairs ih =>
    rw [show links (p :: pairs) = [.link p.1 p.2, .linked p.1 p.2] ++ links pairs from rfl,
      perform_append]
    refine act_congr (addDependency_eq h.head) fun _ t ht => ?_
    rw [(perform_value ht).2]
    exact ih h.tail

/-- Each ticket with the one before it, which it waits for. -/
def chain (ids : List TicketId) : List (TicketId × TicketId) := (ids.zip ids.tail).map Prod.swap

theorem mem_chain (h : ids.Pairwise (· < ·))
    (hp : p ∈ chain ids) : p.1 ∈ ids ∧ p.2 ∈ ids ∧ p.2 < p.1 := by
  induction ids with
  | nil => cases hp
  | cons a ids ih =>
    cases ids with
    | nil => cases hp
    | cons b ids =>
      obtain ⟨ha, hrest⟩ := pairwise_cons.mp h
      rcases mem_cons.mp hp with rfl | hp
      · exact ⟨mem_cons_of_mem a mem_cons_self, mem_cons_self, ha b mem_cons_self⟩
      · obtain ⟨h1, h2, hlt⟩ := ih hrest hp
        exact ⟨mem_cons_of_mem a h1, mem_cons_of_mem a h2, hlt⟩

theorem chain_apart (h : ids.Pairwise (· < ·)) :
    (chain ids).Pairwise fun p q => p.2 ≠ q.1 ∧ p ≠ q := by
  induction ids with
  | nil => exact .nil
  | cons a ids ih =>
    cases ids with
    | nil => exact .nil
    | cons b ids =>
      obtain ⟨ha, hrest⟩ := pairwise_cons.mp h
      refine pairwise_cons.mpr ⟨fun q hq => ?_, ih hrest⟩
      obtain ⟨h1, h2, -⟩ := mem_chain hrest hq
      exact ⟨(ha _ h1).ne, fun heq => (ha _ h2).ne (congrArg Prod.snd heq)⟩

/-! ## What a script writes -/

abbrev applied := Faults.applied Beat.write

theorem applied_append {cs : List Beat} : applied (bs ++ cs) s = applied cs (applied bs s) :=
  Faults.applied_append

def Beat.keepsTickets : Beat → Bool
  | .children _ | .review _ => false
  | _ => true

theorem applied_keeps (h : ∀ b ∈ bs, b.keepsTickets = true) :
    (applied bs s).db.tickets = s.db.tickets ∧ (applied bs s).content = s.content := by
  induction bs generalizing s with
  | nil => exact ⟨rfl, rfl⟩
  | cons b bs ih =>
    have hb := h b mem_cons_self
    have hrest := ih (s := b.write s) fun c hc => h c (mem_cons_of_mem b hc)
    cases b with
    | children rows | review row => cases hb
    | _ => exact hrest

theorem dependencies_write {b : Beat} (h : d ∈ (b.write s).db.dependencies) :
    d ∈ s.db.dependencies ∨ b = .link d.ticketId d.dependsOnTicketId := by
  cases b with
  | children rows => exact .inl (dependencies_insertAll ▸ h)
  | link later earlier =>
    rcases mem_append.mp h with h | h
    · exact .inl h
    · rw [mem_singleton.mp h]
      exact .inr rfl
  | review row | linked later earlier | siblings | opened | announced | gather => exact .inl h

theorem dependencies_applied (h : d ∈ (applied bs s).db.dependencies) :
    d ∈ s.db.dependencies ∨ .link d.ticketId d.dependsOnTicketId ∈ bs := by
  induction bs generalizing s with
  | nil => exact .inl h
  | cons b bs ih =>
    rcases ih (s := b.write s) h with h | h
    · rcases dependencies_write h with h | h
      · exact .inl h
      · exact .inr (h ▸ mem_cons_self)
    · exact .inr (mem_cons_of_mem b h)

theorem dependencies_subset_write {b : Beat}
    (h : d ∈ s.db.dependencies) : d ∈ (b.write s).db.dependencies := by
  cases b with
  | children rows => exact dependencies_insertAll.symm ▸ h
  | link later earlier => exact mem_append_left _ h
  | review row | linked later earlier | siblings | opened | announced | gather => exact h

theorem dependencies_subset_applied
    (h : d ∈ s.db.dependencies) : d ∈ (applied bs s).db.dependencies := by
  induction bs generalizing s with
  | nil => exact h
  | cons b bs ih => exact ih (s := b.write s) (dependencies_subset_write h)

theorem edge_of_link (h : .link a b ∈ bs) : (a, b) ∈ (applied bs s).db.dependencyEdges := by
  obtain ⟨front, rest, rfl⟩ := append_of_mem h
  rw [applied_append]
  refine mem_map.mpr ⟨⟨a, b, splitCreatedBy⟩, ?_, rfl⟩
  exact @dependencies_subset_applied _ rest _
    (mem_append_right _ (mem_singleton_self _))

theorem children_subset_applied {parent : TicketId} (h : t ∈ s.children parent) : t ∈
    (applied bs s).children parent := by
  induction bs generalizing s with
  | nil => exact h
  | cons b bs ih =>
    refine ih (s := b.write s) ?_
    obtain ⟨hmem, hp⟩ := mem_filter.mp h
    refine mem_filter.mpr ⟨?_, hp⟩
    cases b with
    | children rows =>
      show t ∈ (rows.foldl insert s).db.tickets
      rw [tickets_insertAll]
      exact mem_append_left _ hmem
    | review row => exact mem_append_left _ hmem
    | link later earlier | linked later earlier | siblings | opened | announced | gather =>
      exact hmem

theorem keepsTickets_links : ∀ b ∈ links pairs, b.keepsTickets = true := by
  intro b hb
  obtain ⟨p, -, hp⟩ := mem_flatMap.mp hb
  rcases mem_cons.mp hp with rfl | hp
  · rfl
  · rw [mem_singleton.mp hp]
    rfl

theorem mem_links_iff : .link a b ∈ links pairs ↔ (a, b) ∈ pairs := by
  constructor
  · intro h
    obtain ⟨p, hp, hmem⟩ := mem_flatMap.mp h
    rcases mem_cons.mp hmem with heq | hmem
    · cases heq
      exact hp
    · cases mem_singleton.mp hmem
  · intro h
    exact mem_flatMap.mpr ⟨_, h, mem_cons_self⟩

/-! ## The script of a split -/

/-- A review child, behind the chain: its row, and its edges to the parts. -/
def reviewBeats (row : NewRow) (review : TicketId) (ids : List TicketId) : List Beat :=
  [.siblings, .review row, .opened, .announced, .gather] ++ links (ids.map fun id => (review, id))

def chainBeats (s : Store) (rows : List NewRow) : List Beat :=
  .children rows :: links (chain (s.created rows))

/-- The store behind them, and the id its next row takes. -/
abbrev chained (s : Store) (rows : List NewRow) : Store := applied (chainBeats s rows) s

abbrev reviewId (s : Store) (rows : List NewRow) : TicketId := fresh (chained s rows).db

/-- What a split takes the review child's row from: the type, for a parent that takes one, and
    the workspace. -/
def reviewOf (env : Env) (ticket : TicketWait.Ticket) : Option NewRow :=
  match reviewChildType ticket.workItemType, workspaceFor env ticket with
  | some type, some workspace => some (reviewRow workspace type ticket.id)
  | _, _ => none

/-- The steps of a split that writes `rows`. -/
def script (env : Env) (s : Store) (ticket : TicketWait.Ticket) (rows : List NewRow) : List Beat :=
  match reviewOf env ticket with
  | some row =>
    chainBeats s rows
      ++ reviewBeats row (reviewId s rows) (s.created rows)
  | none => chainBeats s rows

/-- What a split is called with: a ticket of the store with no children, which has not been split
    for a review, and rows of a proposal that was accepted. -/
structure Splitting (env : Env) (s : Store) (ticket : TicketWait.Ticket) (rows : List NewRow) :
    Prop where
  row : s.db.get ticket.id = some ticket
  childless : s.children ticket.id = []
  notReview : ticket.isIntegrationReview = false
  workspace : ∃ workspace, workspaceFor env ticket = some workspace
  sound : ∀ row ∈ rows, row.parentTicketId = ticket.id ∧ row.isIntegrationReview = false
  two : 2 ≤ rows.length

namespace Splitting

variable {s : Store} {ticket : TicketWait.Ticket} {rows : List NewRow}

section

variable (h : Splitting env s ticket rows)
include h

theorem mem_ids : ticket ∈ s.db.tickets ∧ ticket.id ∈ named s.db := by
  obtain ⟨hmem, -⟩ := TicketWait.Database.get_eq_some.mp h.row
  exact ⟨hmem, mem_append_left _ (mem_append_left _ (mem_map_of_mem hmem))⟩

theorem parent_named {p : TicketId}
    (ht : t ∈ (rows.foldl insert s).db.tickets) (hp : t.parentTicketId = some p) :
    p ∈ named s.db := by
  rw [tickets_insertAll] at ht
  rcases mem_append.mp ht with ht | ht
  · exact mem_append_left _ (mem_append_right _ (mem_filterMap.mpr ⟨t, ht, hp⟩))
  · obtain ⟨row, hrow, id, -, rfl⟩ := mem_ticketsOf ht
    have hparent : some row.parentTicketId = some p := hp
    rw [← some.inj hparent, (h.sound row hrow).1]
    exact h.mem_ids.2

theorem children_insertAll :
    (rows.foldl insert s).children ticket.id = ticketsOf (s.created rows) rows := by
  rw [children, tickets_insertAll, filter_append,
    show s.db.tickets.filter (fun t => t.parentTicketId = some ticket.id) = [] from h.childless,
    nil_append, filter_eq_self]
  intro t ht
  obtain ⟨row, hrow, id, -, rfl⟩ := mem_ticketsOf ht
  exact decide_eq_true (congrArg some (h.sound row hrow).1)

theorem not_review_of_mem
    (ht : t ∈ ticketsOf (s.created rows) rows) : t.isIntegrationReview = false := by
  obtain ⟨row, hrow, id, -, rfl⟩ := mem_ticketsOf ht
  exact (h.sound row hrow).2

theorem chain_addable : Addable (rows.foldl insert s) (chain (s.created rows)) := by
  have hids : ∀ {id}, id ∈ s.created rows → ∀ {n}, n ∈ named s.db → n ≠ id :=
    fun hid _ hn => ((lt_fresh hn).trans_le (created_between hid).1).ne
  have hdeps : ∀ d ∈ (rows.foldl insert s).db.dependencies,
      d.ticketId ∈ named s.db ∧ d.dependsOnTicketId ∈ named s.db := by
    intro d hd
    rw [dependencies_insertAll] at hd
    constructor
    · exact mem_append_right _ (mem_flatMap.mpr ⟨d, hd, mem_cons_self⟩)
    · exact mem_append_right _
        (mem_flatMap.mpr ⟨d, hd, mem_cons_of_mem _ (mem_singleton_self _)⟩)
  refine ⟨?_, ?_, ?_, ?_, chain_apart created_pairwise⟩
  all_goals
    intro p hp
    obtain ⟨h1, h2, hlt⟩ := mem_chain created_pairwise hp
  · exact hlt.ne'
  · intro t ht hparent
    exact hids h2 (h.parent_named ht hparent) rfl
  · intro d hd
    exact hids h1 (hdeps d hd).2
  · intro d hd heq
    exact hids h1 (hdeps d hd).1 (congrArg Prod.fst heq)

omit h in
theorem tickets_chainBeats : (chained s rows).db.tickets = (rows.foldl insert s).db.tickets :=
  (@applied_keeps (rows.foldl insert s) (links (chain (s.created rows))) keepsTickets_links).1

theorem children_chainBeats :
    (chained s rows).children ticket.id = ticketsOf (s.created rows) rows := by
  rw [← h.children_insertAll, children, tickets_chainBeats]
  rfl

omit h in
theorem created_named (hid : id ∈ s.created rows) : id ∈ named (chained s rows).db := by
  refine mem_append_left _ (mem_append_left _ ?_)
  rw [tickets_chainBeats, tickets_insertAll, map_append, map_id_ticketsOf length_created]
  exact mem_append_right _ hid

theorem get_chainBeats : (chained s rows).db.get ticket.id = some ticket := by
  refine TicketWait.Database.get_eq_some.mpr ⟨?_, rfl⟩
  rw [tickets_chainBeats, tickets_insertAll]
  exact mem_append_left _ h.mem_ids.1

theorem review_addable (hrow : row.parentTicketId = ticket.id) :
    Addable ((chained s rows).insert row)
      ((s.created rows).map fun id => (reviewId s rows, id)) := by
  have hdeps : ∀ d ∈ (chained s rows).db.dependencies, d.ticketId < reviewId s rows ∧
        d.dependsOnTicketId < reviewId s rows := by
    intro d hd
    constructor
    · exact lt_fresh (mem_append_right _ (mem_flatMap.mpr ⟨d, hd, mem_cons_self⟩))
    · exact lt_fresh (mem_append_right _
        (mem_flatMap.mpr ⟨d, hd, mem_cons_of_mem _ (mem_singleton_self _)⟩))
  refine ⟨?_, ?_, ?_, ?_, ?_⟩
  · intro p hp
    obtain ⟨id, hid, rfl⟩ := mem_map.mp hp
    exact (lt_fresh (created_named hid)).ne'
  · intro p hp t ht hparent
    obtain ⟨id, hid, rfl⟩ := mem_map.mp hp
    have hnamed : id ∈ named s.db := by
      rcases mem_append.mp ht with ht | ht
      · exact h.parent_named (tickets_chainBeats ▸ ht) hparent
      · rw [mem_singleton.mp ht] at hparent
        have hparent : some row.parentTicketId = some id := hparent
        rw [← some.inj hparent, hrow]
        exact h.mem_ids.2
    exact ((lt_fresh hnamed).trans_le (created_between hid).1).ne rfl
  · intro p hp d hd
    obtain ⟨id, -, rfl⟩ := mem_map.mp hp
    exact (hdeps d hd).2.ne
  · intro p hp d hd heq
    obtain ⟨id, -, rfl⟩ := mem_map.mp hp
    exact (hdeps d hd).1.ne (congrArg Prod.fst heq)
  · refine pairwise_map.mpr (List.Pairwise.imp_of_mem ?_ (created_pairwise (s := s)))
    intro a b ha hb hlt
    exact ⟨(lt_fresh (created_named ha)).ne, fun heq => hlt.ne (congrArg Prod.snd heq)⟩

theorem filter_parts : (ticketsOf (s.created rows) rows).filter (!·.isIntegrationReview)
      = ticketsOf (s.created rows) rows := by
  rw [filter_eq_self]
  intro t ht
  rw [h.not_review_of_mem ht]
  rfl

theorem filter_reviews : (ticketsOf (s.created rows) rows).filter (·.isIntegrationReview) = [] := by
  rw [filter_eq_nil_iff]
  intro t ht
  rw [h.not_review_of_mem ht]
  exact false_ne_true

theorem ticketsOf_ne_nil : ticketsOf (s.created rows) rows ≠ [] := by
  intro hnil
  have hlen := congrArg List.length (map_id_ticketsOf (@length_created s rows))
  rw [hnil, length_created] at hlen
  have htwo := h.two
  simp only [map_nil, length_nil] at hlen
  omega

theorem children_review (hrow : row.parentTicketId = ticket.id) :
    ((chained s rows).insert row).children ticket.id
      = ticketsOf (s.created rows) rows
        ++ [row.ticket (reviewId s rows)] := by
  rw [children, show ((chained s rows).insert row).db.tickets
    = (chained s rows).db.tickets
      ++ [row.ticket (reviewId s rows)] from rfl, filter_append,
    show (chained s rows).db.tickets.filter
      (fun t => t.parentTicketId = some ticket.id) = _ from h.children_chainBeats]
  congr 1
  rw [filter_eq_self]
  intro t ht
  rw [mem_singleton.mp ht]
  exact decide_eq_true (congrArg some hrow)

theorem linkReviewToSiblings_eq (hrow : row.parentTicketId = ticket.id) :
    linkReviewToSiblings env (reviewId s rows)
        ((chained s rows).insert row)
      = env.faults.perform .stepFailed write (.gather :: links ((s.created rows).map fun id =>
          (reviewId s rows, id)))
        ((chained s rows).insert row) := by
  refine act_congr rfl fun _ t ht => ?_
  have ht : t = (chained s rows).insert row := commit_value ht
  rw [readStore_bind, ht]
  have hparent : ((chained s rows).insert row).db.parentOf
      (reviewId s rows) = some ticket.id := by
    have hget : ((chained s rows).insert row).db.get
        (reviewId s rows)
        = some (row.ticket (reviewId s rows)) :=
      TicketWait.Database.get_eq_some.mpr
        ⟨mem_append_right _ (mem_singleton_self _), rfl⟩
    rw [TicketWait.Database.parentOf, hget]
    exact congrArg some hrow
  rw [hparent]
  have hsiblings : (((chained s rows).insert row).children ticket.id).filter
      (fun t => t.id ≠ reviewId s rows ∧ !t.isIntegrationReview)
      = ticketsOf (s.created rows) rows := by
    rw [h.children_review hrow, filter_append]
    have hold : (ticketsOf (s.created rows) rows).filter
        (fun t => t.id ≠ reviewId s rows ∧ !t.isIntegrationReview)
        = ticketsOf (s.created rows) rows := by
      rw [filter_eq_self]
      intro t ht
      have hid : t.id ∈ s.created rows :=
        map_id_ticketsOf (@length_created s rows) ▸ mem_map_of_mem ht
      refine decide_eq_true ⟨(lt_fresh (created_named hid)).ne, ?_⟩
      rw [h.not_review_of_mem ht]
      rfl
    have hnew : [row.ticket (reviewId s rows)].filter
        (fun t => t.id ≠ reviewId s rows ∧ !t.isIntegrationReview)
        = [] := by
      rw [filter_eq_nil_iff]
      intro t ht
      rw [mem_singleton.mp ht]
      intro hdec
      exact (of_decide_eq_true hdec).1 rfl
    rw [hold, hnew, append_nil]
  show addDependencies env ((List.filter _ _).map _) _ = _
  rw [hsiblings, show (ticketsOf (s.created rows) rows).map
      (fun t => (reviewId s rows, t.id))
      = ((ticketsOf (s.created rows) rows).map TicketWait.Ticket.id).map
        fun id => (reviewId s rows, id) from (List.map_map ..).symm,
    map_id_ticketsOf length_created]
  exact addDependencies_eq (h.review_addable hrow)

theorem reviewOf_none (hnone : reviewOf env ticket = none) :
    reviewChildType ticket.workItemType = none := by
  obtain ⟨workspace, hworkspace⟩ := h.workspace
  rw [reviewOf, hworkspace] at hnone
  cases htype : reviewChildType ticket.workItemType with
  | none => rfl
  | some type =>
    rw [htype] at hnone
    cases hnone

omit h in
theorem reviewOf_some (hsome : reviewOf env ticket = some row) :
    ∃ type workspace, reviewChildType ticket.workItemType = some type ∧
      workspaceFor env ticket = some workspace ∧ row = reviewRow workspace type ticket.id := by
  rw [reviewOf] at hsome
  cases htype : reviewChildType ticket.workItemType with
  | none =>
    rw [htype] at hsome
    cases hsome
  | some type =>
    cases hworkspace : workspaceFor env ticket with
    | none =>
      rw [htype, hworkspace] at hsome
      cases hsome
    | some workspace =>
      rw [htype, hworkspace] at hsome
      exact ⟨type, workspace, rfl, rfl, (some.inj hsome).symm⟩

omit h in
theorem reviewChildType_valid {parent type : WorkItemType}
    (h : reviewChildType parent = some type) : type ∈ TicketWait.validHierarchy parent := by
  cases parent <;> cases h <;> decide

theorem checkParent_ok {workspace : WorkspaceId}
    {type : WorkItemType} (htype : reviewChildType ticket.workItemType = some type)
    (hworkspace : workspaceFor env ticket = some workspace) :
    checkParent (chained s rows) workspace type ticket.id = .ok () := by
  have hw : ticket.workspaceId = some workspace := (filter_eq_some_iff.mp hworkspace).1
  rw [checkParent, h.get_chainBeats]
  refine bind_ok_iff.mpr ⟨(), refuse_ok.mpr ?_, refuse_ok.mpr ?_⟩
  · rintro ⟨-, hne⟩
    exact hne hw
  · intro hbad
    exact hbad (reviewChildType_valid htype)

theorem ensureReviewChild_eq (hsome : reviewOf env ticket = some row) :
    ensureReviewChild env ticket (chained s rows)
      = (env.faults.perform .stepFailed write [.siblings] >>= fun _ =>
          if env.workflow then env.faults.perform .stepFailed write
            ([.review row, .opened, .announced] ++ .gather :: links ((s.created rows).map fun id =>
              (reviewId s rows, id)))
          else raise .noWorkflow) (chained s rows) := by
  obtain ⟨type, workspace, htype, hworkspace, rfl⟩ := reviewOf_some hsome
  rw [ensureReviewChild, htype]
  show (if ticket.isIntegrationReview = true then pure () else _ : Call Unit) _ = _
  rw [h.notReview, if_neg Bool.false_ne_true]
  have hone : env.faults.perform Raised.stepFailed write [.siblings]
      = commit env .siblings := act_unit _
  rw [hone]
  refine act_congr rfl fun _ t ht => ?_
  have ht : t = siblings.write (chained s rows) := commit_value ht
  rw [readStore_bind, ht, show siblings.write (chained s rows) = chained s rows from rfl]
  have hall : ¬ ((chained s rows).children ticket.id).all (·.isIntegrationReview) = true := by
    rw [h.children_chainBeats]
    intro hall
    obtain ⟨t, rest, hcons⟩ := exists_cons_of_ne_nil h.ticketsOf_ne_nil
    have hmem : t ∈ ticketsOf (s.created rows) rows := hcons ▸ mem_cons_self
    have := all_eq_true.mp hall t hmem
    rw [h.not_review_of_mem hmem] at this
    cases this
  have hexisting : ¬ ((chained s rows).children ticket.id).filter (·.isIntegrationReview) ≠ [] := by
    rw [h.children_chainBeats, h.filter_reviews]
    exact not_not.mpr rfl
  show (if ((chained s rows).children ticket.id).all (·.isIntegrationReview) = true then pure ()
    else if ((chained s rows).children ticket.id).filter (·.isIntegrationReview) ≠ [] then _
    else _ : Call Unit) _ = _
  rw [if_neg hall, if_neg hexisting, hworkspace]
  show (createReview env workspace type ticket.id >>= fun review =>
    linkReviewToSiblings env review) _ = _
  by_cases hflow : env.workflow = true
  · rw [if_pos hflow, perform_append]
    have hcreate : createReview env workspace type ticket.id (chained s rows)
        = (env.faults.perform .stepFailed write
            [.review (reviewRow workspace type ticket.id), .opened, .announced] >>= fun _ =>
          pure (reviewId s rows)) (chained s rows) := by
      rw [createReview, readStore_bind, h.checkParent_ok htype hworkspace]
      show (if (!env.workflow) = true then _ else _ : Call TicketId) _ = _
      rw [hflow, if_neg (show ¬ (!true) = true from nofun)]
      show _ = ((commit env _ >>= fun _ => commit env _ >>= fun _ => commit env _ >>= fun _ =>
        pure ()) >>= fun _ => pure _) _
      simp only [act_assoc]
      rfl
    refine (act_congr hcreate fun _ _ _ => rfl).trans ?_
    rw [act_assoc]
    refine act_congr rfl fun _ u hu => ?_
    rw [(perform_value hu).2]
    exact h.linkReviewToSiblings_eq rfl
  · rw [if_neg hflow]
    have hflow : env.workflow = false := not_eq_true _ ▸ hflow
    refine bind_raised ?_
    rw [createReview, readStore_bind, h.checkParent_ok htype hworkspace]
    show (if (!env.workflow) = true then _ else _ : Call TicketId) _ = _
    rw [hflow, if_pos (show (!false) = true from rfl)]
    rfl

theorem children_eq :
    (commit env (.children rows) >>= fun _ => addDependencies env (chain (s.created rows))) s
      = env.faults.perform .stepFailed write (chainBeats s rows) s := by
  refine act_congr rfl fun _ t ht => ?_
  have ht : t = write (.children rows) s := commit_value ht
  rw [ht]
  exact addDependencies_eq h.chain_addable

/-- **A split that is written is a script**, for a parent that takes no review child or in a
    workspace whose workflow has stages. -/
theorem persist_eq {children : List Item} (hrows : prepared env s ticket children = .ok rows)
    (hflow : reviewOf env ticket ≠ none → env.workflow = true) :
    persist env ticket children s
      = (env.faults.perform .stepFailed write (script env s ticket rows) >>= fun _ =>
          pure (s.created rows)) s := by
  rw [persist, readStore_bind, hrows]
  show (commit env (.children rows) >>= fun _ => addDependencies env (chain (s.created rows)) >>=
    fun _ => ensureReviewChild env ticket >>= fun _ => pure (s.created rows)) s = _
  rw [← act_assoc (commit env (.children rows)) (fun _ => addDependencies env _)]
  cases hsome : reviewOf env ticket with
  | none =>
    rw [script, hsome]
    refine act_congr h.children_eq fun _ t ht => ?_
    rw [ensureReviewChild, h.reviewOf_none hsome]
    rfl
  | some row =>
    rw [script, hsome]
    show _ = (env.faults.perform Raised.stepFailed write
      (chainBeats s rows ++ reviewBeats row (reviewId s rows) (s.created rows)) >>= _) s
    rw [perform_append, act_assoc (env.faults.perform _ _ (chainBeats s rows))]
    refine act_congr h.children_eq fun _ t ht => ?_
    rw [(perform_value ht).2]
    refine act_congr ?_ fun _ _ _ => rfl
    rw [show Faults.applied write (chainBeats s rows) s = chained s rows from rfl,
      h.ensureReviewChild_eq hsome, if_pos (hflow (by rw [hsome]; exact nofun)),
      ← perform_append]
    rfl

theorem persist_refused {children : List Item} (hrows : prepared env s ticket children = .ok rows)
    (hsome : reviewOf env ticket = some row) (hflow : env.workflow = false) :
    persist env ticket children s
      = (env.faults.perform .stepFailed write (chainBeats s rows ++ [.siblings]) >>= fun _ =>
          raise .noWorkflow) s := by
  rw [persist, readStore_bind, hrows]
  show (commit env (.children rows) >>= fun _ => addDependencies env (chain (s.created rows)) >>=
    fun _ => ensureReviewChild env ticket >>= fun _ => pure (s.created rows)) s = _
  rw [← act_assoc (commit env (.children rows)) (fun _ => addDependencies env _),
    perform_append, act_assoc (env.faults.perform _ _ (chainBeats s rows))]
  refine act_congr h.children_eq fun _ t ht => ?_
  rw [(Faults.perform_value ht).2]
  refine (act_congr (h.ensureReviewChild_eq hsome) fun _ _ _ => rfl).trans ?_
  rw [hflow, if_neg Bool.false_ne_true, act_assoc]
  rfl

end

end Splitting

end Loregarden.OversizedSplit

