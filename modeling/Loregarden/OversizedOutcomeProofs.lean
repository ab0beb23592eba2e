import Loregarden.OversizedSplitProofs

/-! # What a split leaves behind

The children of a divided ticket carry the proposal, each waits for the one before it, and its
review waits for them all. A split leaves that or nothing exactly when the reply can be walked and
no step behind the commit of the children is cut (`split_all_or_nothing`). -/

namespace Loregarden.OversizedSplit

open Scripts Refusals
open TicketWait (WorkItemType TicketId)
open List

variable {env : Env} {s : Store} {ticket : TicketWait.Ticket} {rows : List NewRow}
variable {after : Store} {α : Type} {as : List α} {items children : List Item} {q : List Beat}
variable {row : NewRow}

/-- The children a ticket was split into, and its review children. -/
def parts (s : Store) (parent : TicketId) : List TicketWait.Ticket :=
  (s.children parent).filter (!·.isIntegrationReview)

def reviews (s : Store) (parent : TicketId) : List TicketWait.Ticket :=
  (s.children parent).filter (·.isIntegrationReview)

def Carries (py : Library) (s : Store) (item : Item) (part : TicketWait.Ticket) : Prop :=
  (s.content part.id).title = py.normalizeText item.title ∧
    criteria s part.id = item.acceptanceCriteria.map py.normalizeText

/-- The ticket is divided: at least two parts in the order of the proposal, each waiting for the
    one before it, which carry its criteria between them, and one review waiting for them all
    when its type takes one. -/
structure Divided (env : Env) (before : Store) (ticket : TicketWait.Ticket) (after : Store) :
    Prop where
  two : 2 ≤ (parts after ticket.id).length
  carries : ∃ items, proposed env.py env.limit env.reply = .ok items ∧
    List.Forall₂ (Carries env.py after) items (parts after ticket.id)
  chained : ∀ p ∈ chain ((parts after ticket.id).map TicketWait.Ticket.id),
    p ∈ after.db.dependencyEdges
  criteria : ((parts after ticket.id).flatMap fun part => criteria after part.id).Perm
    ((criteria before ticket.id).map env.py.normalizeText)
  review : ∀ type, reviewChildType ticket.workItemType = some type →
    ∃ review, reviews after ticket.id = [review] ∧ review.workItemType = type ∧
      ∀ part ∈ parts after ticket.id, (review.id, part.id) ∈ after.db.dependencyEdges
  noReview : reviewChildType ticket.workItemType = none → reviews after ticket.id = []

/-- All or nothing: the call returns (or its process stops), the ticket has no new child or is
    divided, and the outcome is a split exactly when it is divided. -/
structure AllOrNothing (env : Env) (s : Store) (ticket : TicketWait.Ticket)
    (result : Ending Raised SplitOutcome × Store) : Prop where
  returns : ∀ e, result.1 ≠ .raised e
  whole : result.2.children ticket.id = [] ∨ Divided env s ticket result.2
  outcome : ∀ outcome, result.1 = .value outcome →
    (outcome = .split ↔ Divided env s ticket result.2)

/-- The script is carried to its end: every step up to the commit of the last edge is made, and the
    process goes on up to it; the reading behind it does not fail, unless the process is gone. -/
def Carried (f : Faults Beat) (script : List Beat) : Prop :=
  ∃ front later earlier, script = front ++ [.link later earlier, .linked later earlier] ∧
    (∀ b ∈ front, f.Passes b) ∧ f.fails (.link later earlier) = false ∧
      (f.stops (.link later earlier) = true ∨ f.fails (.linked later earlier) = false)

structure Attempted (env : Env) (ticket : TicketWait.Ticket) : Prop where
  notReview : ticket.isIntegrationReview = false
  boundary : env.midStage = false
  unasked : env.ranUnsplit = false
  unstarted : env.workStarted = false
  splittable : splitChildType ticket.workItemType ≠ none

/-- When a split that is attempted is all or nothing: the reply can be walked, and where its
    proposal is accepted, either the commit of the children fails, or everything behind it goes
    through to the last edge, in a workspace with a workflow if there is a review to create. -/
structure Whole (env : Env) (s : Store) (ticket : TicketWait.Ticket) : Prop where
  reads : ¬ ReplyChokes env.py env.limit env.reply
  carried : ∀ childType children rows, splitChildType ticket.workItemType = some childType →
    split env.py env.limit env.reply childType (criteria s ticket.id) = .ok children →
    prepared env s ticket children = .ok rows →
    env.faults.fails (.children rows) = true ∨
      ((reviewChildType ticket.workItemType ≠ none → env.workflow = true) ∧
        Carried env.faults (script env s ticket rows))

theorem Divided.children_ne_nil (h : Divided env s ticket after) :
    after.children ticket.id ≠ [] := by
  intro hnil
  have htwo := h.two
  rw [parts, hnil] at htwo
  exact absurd htwo (by decide)

/-! ## The whole script divides the ticket -/

theorem forall₂_comp {β γ : Type} {r : α → β → Prop} {q : β → γ → Prop}
    {bs : List β} {cs : List γ} (h : List.Forall₂ r as bs) (h' : List.Forall₂ q bs cs) :
    List.Forall₂ (fun a c => ∃ b, r a b ∧ q b c) as cs := by
  induction h generalizing cs with
  | nil =>
    cases h'
    exact .nil
  | cons hr _ ih =>
    cases h' with
    | cons hq h' => exact .cons ⟨_, hr, hq⟩ (ih h')

theorem flatMap_eq_of_forall₂ {β γ : Type} {f : α → List γ} {g : β → List γ}
    {bs : List β} (h : List.Forall₂ (fun a b => f a = g b) as bs) :
    as.flatMap f = bs.flatMap g := by
  induction h with
  | nil => rfl
  | cons hab _ ih => rw [flatMap_cons, flatMap_cons, hab, ih]

theorem content_ticketsOf (hcontent : ∀ id ∈ s.created rows,
      after.content id = (rows.foldl Store.insert s).content id) :
    List.Forall₂ (fun row part => after.content part.id = row.content) rows
      (ticketsOf (s.created rows) rows) := by
  have hall := @content_insertAll s rows
  generalize rows.foldl Store.insert s = t at hcontent hall
  generalize s.created rows = ids at hcontent hall
  induction hall with
  | nil => exact .nil
  | cons hrow _ ih =>
    refine .cons ?_ (ih fun id hid => hcontent id (mem_cons_of_mem _ hid))
    exact (hcontent _ mem_cons_self).trans hrow

/-- What a proposal that was accepted has made of a ticket's children. -/
structure Accepts (env : Env) (s : Store) (ticket : TicketWait.Ticket) (rows : List NewRow)
    (items children : List Item) : Prop where
  proposed : proposed env.py env.limit env.reply = .ok items
  valid : List.Forall₂ (fun item v => normalizeAndValidateItem env.py item = .ok v) items children
  partition : (children.flatMap Item.acceptanceCriteria).Perm
    ((criteria s ticket.id).map env.py.normalizeText)
  rowed : List.Forall₂ (Rowed env.py ticket.id) items rows

theorem Accepts.stored (h : Accepts env s ticket rows items children)
    {c : String} (hc : c ∈ children.flatMap Item.acceptanceCriteria) :
    stripped c = c ∧ c ≠ "" := by
  obtain ⟨raw, hraw, rfl⟩ := mem_map.mp (h.partition.mem_iff.mp hc)
  obtain ⟨hstrip, hne⟩ := mem_normalizeCriteria hraw
  refine ⟨stripped_normalizeText raw, fun hblank => hne ?_⟩
  rw [← hstrip]
  exact env.py.nfc_blank raw hblank

theorem Accepts.parts_carry (h : Accepts env s ticket rows items children)
    (hcontent : ∀ id ∈ s.created rows, after.content id = (rows.foldl Store.insert s).content id) :
    List.Forall₂ (Carries env.py after) items (ticketsOf (s.created rows) rows) ∧
      ((ticketsOf (s.created rows) rows).flatMap fun part => OversizedSplit.criteria after part.id)
        = children.flatMap Item.acceptanceCriteria := by
  have hstored : ∀ v ∈ children, normalizeCriteria v.acceptanceCriteria = v.acceptanceCriteria :=
    fun v hv => normalizeCriteria_eq_self fun c hc =>
      h.stored (mem_flatMap.mpr ⟨v, hv, hc⟩)
  have hrows : List.Forall₂ (fun item row => row.content.title = env.py.normalizeText item.title ∧
      normalizeCriteria row.content.acceptanceCriteria
        = item.acceptanceCriteria.map env.py.normalizeText) items rows := by
    have hvalid := h.valid
    have hrowed := h.rowed
    clear hcontent h
    induction hvalid generalizing rows with
    | nil =>
      cases hrowed
      exact .nil
    | cons hv _ ih =>
      cases hrowed with
      | cons hr hrowed =>
        obtain ⟨-, hcriteria, -⟩ := normalizeAndValidateItem_ok hv
        have hself := hstored _ mem_cons_self
        refine .cons ⟨hr.title, ?_⟩
          (ih (fun v hv => hstored v (mem_cons_of_mem _ hv)) hrowed)
        rw [hr.criteria, ← hcriteria, hself, hself]
  have hparts := forall₂_comp hrows (content_ticketsOf hcontent)
  have hcarries : List.Forall₂ (Carries env.py after) items (ticketsOf (s.created rows) rows) := by
    refine hparts.imp ?_
    rintro item part ⟨row, ⟨htitle, hcriteria⟩, hcols⟩
    refine ⟨hcols ▸ htitle, ?_⟩
    rw [criteria, hcols]
    exact hcriteria
  refine ⟨hcarries, ?_⟩
  have hflip := forall₂_comp hcarries.flip h.valid
  refine flatMap_eq_of_forall₂ (hflip.imp ?_)
  rintro part v ⟨item, hcarry, hv⟩
  exact hcarry.2.trans (normalizeAndValidateItem_ok hv).2.1.symm

namespace Splitting

theorem keepsTickets_opened {pairs : List (TicketId × TicketId)} :
    ∀ b ∈ [Beat.opened, .announced, .gather] ++ links pairs, b.keepsTickets = true := by
  intro b hb
  rcases mem_append.mp hb with hb | hb
  · simp only [mem_cons, not_mem_nil, or_false] at hb
    rcases hb with rfl | rfl | rfl
    all_goals rfl
  · exact keepsTickets_links b hb

theorem length_ticketsOf : (ticketsOf (s.created rows) rows).length = rows.length := by
  rw [← length_map (f := TicketWait.Ticket.id), map_id_ticketsOf length_created, length_created]

section

variable (h : Splitting env s ticket rows)
include h

section

variable (hq : ∀ b ∈ q, b.keepsTickets = true)
include hq

theorem children_kept :
    (applied (.children rows :: q) s).children ticket.id = ticketsOf (s.created rows) rows := by
  rw [← h.children_insertAll, Store.children]
  exact congrArg _ (applied_keeps (s := rows.foldl Store.insert s) hq).1

omit hq in
theorem children_reviewed (hrow : row.parentTicketId = ticket.id)
    (hq : ∀ b ∈ q, b.keepsTickets = true) :
    (applied (chainBeats s rows ++ .siblings :: .review row :: q) s).children ticket.id
      = ticketsOf (s.created rows) rows ++ [row.ticket (reviewId s rows)] := by
  rw [← h.children_review hrow, applied_append, Store.children]
  exact congrArg _ (applied_keeps (s := (chained s rows).insert row) hq).1

omit h in
theorem content_kept :
    (applied (.children rows :: q) s).content = (rows.foldl Store.insert s).content :=
  (applied_keeps (s := rows.foldl Store.insert s) hq).2

omit h in
theorem content_reviewed {id : TicketId} (hid : id ∈ s.created rows) :
    (applied (chainBeats s rows ++ .siblings :: .review row :: q) s).content id
      = (rows.foldl Store.insert s).content id := by
  rw [applied_append]
  refine (congrFun (applied_keeps (s := (chained s rows).insert row) hq).2 id).trans ?_
  refine (if_neg (lt_fresh (created_named hid)).ne).trans ?_
  exact congrFun (content_kept keepsTickets_links) id

end

theorem parts_kept (hchildren : after.children ticket.id = ticketsOf (s.created rows) rows) :
    parts after ticket.id = ticketsOf (s.created rows) rows ∧ reviews after ticket.id = [] := by
  rw [parts, reviews, hchildren]
  exact ⟨h.filter_parts, h.filter_reviews⟩

theorem parts_reviewed {id : TicketId} (hreview : row.isIntegrationReview = true)
    (hchildren : after.children ticket.id = ticketsOf (s.created rows) rows ++ [row.ticket id]) :
    parts after ticket.id = ticketsOf (s.created rows) rows ∧
      reviews after ticket.id = [row.ticket id] := by
  have htrue : (row.ticket id).isIntegrationReview = true := hreview
  rw [parts, reviews, hchildren, filter_append, filter_append, h.filter_parts,
    h.filter_reviews, filter_cons_of_neg (by rw [htrue]; exact Bool.false_ne_true),
    filter_cons_of_pos htrue]
  exact ⟨append_nil _, rfl⟩

/-- The pairs the script ends with, and what is before them. -/
def lastPairs (env : Env) (s : Store) (ticket : TicketWait.Ticket) (rows : List NewRow) :
    List (TicketId × TicketId) :=
  match reviewOf env ticket with
  | some _ => (s.created rows).map fun id => (reviewId s rows, id)
  | none => chain (s.created rows)

def scriptHead (env : Env) (s : Store) (ticket : TicketWait.Ticket) (rows : List NewRow) :
    List Beat :=
  match reviewOf env ticket with
  | some row => chainBeats s rows ++ [.siblings, .review row, .opened, .announced, .gather]
  | none => [.children rows]

omit h in
theorem scriptHead_some (h : reviewOf env ticket = some row) : scriptHead env s ticket rows
      = chainBeats s rows ++ [.siblings, .review row, .opened, .announced, .gather] := by
  rw [scriptHead, h]

omit h in
theorem script_eq : script env s ticket rows
      = scriptHead env s ticket rows ++ links (lastPairs env s ticket rows) := by
  rw [script, scriptHead, lastPairs]
  cases reviewOf env ticket with
  | none => rfl
  | some row => exact (append_assoc ..).symm

omit h in
theorem links_concat {init : List (TicketId × TicketId)} {p : TicketId × TicketId} :
    links (init ++ [p]) = links init ++ [.link p.1 p.2, .linked p.1 p.2] :=
  flatMap_append

/-- **A split that is written to its end divides the ticket.** -/
theorem script_divides (ha : Accepts env s ticket rows items children) :
    Divided env s ticket (applied (script env s ticket rows) s) := by
  have hmap : (ticketsOf (s.created rows) rows).map TicketWait.Ticket.id = s.created rows :=
    map_id_ticketsOf length_created
  cases hsome : reviewOf env ticket with
  | none =>
    rw [script, hsome]
    have hkeep : ∀ b ∈ links (chain (s.created rows)), b.keepsTickets = true := keepsTickets_links
    obtain ⟨hparts, hreviews⟩ := h.parts_kept (h.children_kept hkeep)
    obtain ⟨hcarry, hcriteria⟩ := ha.parts_carry fun id _ =>
      congrFun (@content_kept s rows _ hkeep) id
    have hnone := h.reviewOf_none hsome
    refine ⟨?_, ⟨items, ha.proposed, ?_⟩, ?_, ?_, ?_, fun _ => hreviews⟩
    · rw [show parts (applied (chainBeats s rows) s) ticket.id = _ from hparts, length_ticketsOf]
      exact h.two
    · exact hparts ▸ hcarry
    · intro p hp
      rw [show parts (applied (chainBeats s rows) s) ticket.id = _ from hparts, hmap] at hp
      exact edge_of_link (mem_cons_of_mem _ (mem_links_iff.mpr hp))
    · rw [show parts (applied (chainBeats s rows) s) ticket.id = _ from hparts]
      exact (hcriteria ▸ ha.partition)
    · intro type htype
      rw [hnone] at htype
      cases htype
  | some row =>
    obtain ⟨type, workspace, htype, hworkspace, rfl⟩ := reviewOf_some hsome
    rw [script, hsome]
    have hkeep : ∀ b ∈ [Beat.opened, .announced, .gather] ++ links ((s.created rows).map fun id =>
        (reviewId s rows, id)), b.keepsTickets = true := keepsTickets_opened
    have hparent : (reviewRow workspace type ticket.id).parentTicketId = ticket.id := rfl
    obtain ⟨hparts, hreviews⟩ := h.parts_reviewed rfl (h.children_reviewed hparent hkeep)
    obtain ⟨hcarry, hcriteria⟩ := ha.parts_carry fun id hid =>
      content_reviewed hkeep hid
    generalize hafter : applied (chainBeats s rows ++ .siblings
      :: .review (reviewRow workspace type ticket.id) :: ([Beat.opened, .announced, .gather]
        ++ links ((s.created rows).map fun id => (reviewId s rows, id)))) s = after
      at hparts hreviews hcarry hcriteria
    show Divided env s ticket (applied (chainBeats s rows ++ .siblings
      :: .review (reviewRow workspace type ticket.id) :: ([Beat.opened, .announced, .gather]
        ++ links ((s.created rows).map fun id => (reviewId s rows, id)))) s)
    refine ⟨?_, ⟨items, ha.proposed, ?_⟩, ?_, ?_, ?_, ?_⟩
    · rw [hafter, hparts, length_ticketsOf]
      exact h.two
    · rw [hafter, hparts]
      exact hcarry
    · rw [hafter, hparts, hmap]
      intro p hp
      rw [← hafter]
      exact edge_of_link (mem_append_left _
        (mem_cons_of_mem _ (mem_links_iff.mpr hp)))
    · rw [hafter, hparts, hcriteria]
      exact ha.partition
    · intro type' htype'
      rw [htype] at htype'
      cases htype'
      rw [hafter, hparts, hreviews]
      refine ⟨_, rfl, rfl, fun part hpart => ?_⟩
      rw [← hafter]
      refine edge_of_link (mem_append_right _ (mem_cons_of_mem _ (mem_cons_of_mem _
        (mem_append_right _ (mem_links_iff.mpr (mem_map.mpr ⟨part.id, ?_, rfl⟩))))))
      rw [← hmap]
      exact mem_map_of_mem hpart
    · intro hnone
      rw [htype] at hnone
      cases hnone

/-! ## A script that is cut does not -/

omit h in
theorem prefix_append_cases {q bs : List α} (h : q <+: as ++ bs) :
    q <+: as ∨ ∃ q', q = as ++ q' ∧ q' <+: bs := by
  rcases prefix_or_prefix_of_prefix h (prefix_append as bs) with hq | ⟨q', rfl⟩
  · exact .inl hq
  · exact .inr ⟨q', rfl, (prefix_append_right_inj as).mp h⟩

omit h in
theorem keepsTickets_of_part {bs : List Beat} (h : q <+: bs)
    (hbs : ∀ b ∈ bs, b.keepsTickets = true) : ∀ b ∈ q, b.keepsTickets = true :=
  fun b hb => hbs b (h.subset hb)

omit h in
theorem mem_links_of_edge {a b : TicketId} (ha : a ∉ named s.db)
    (h : (a, b) ∈ (applied q s).db.dependencyEdges) : .link a b ∈ q := by
  obtain ⟨d, hd, heq⟩ := mem_map.mp h
  cases heq
  rcases dependencies_applied hd with hd | hd
  · exact absurd (mem_append_right _ (mem_flatMap.mpr ⟨d, hd, mem_cons_self⟩)) ha
  · exact hd

omit h in
theorem not_named_of_created {id : TicketId} (h : id ∈ s.created rows) : id ∉ named s.db :=
  fun hnamed => absurd (lt_fresh hnamed) (Nat.not_lt.mpr (created_between h).1)

theorem reviewId_not_named : reviewId s rows ∉ named s.db := by
  intro hnamed
  have htwo := h.two
  obtain ⟨id, rest, hcons⟩ : ∃ id rest, s.created rows = id :: rest := by
    refine exists_cons_of_ne_nil fun hnil => ?_
    have hlen : (s.created rows).length = rows.length := length_created
    rw [hnil, length_nil] at hlen
    omega
  have hid : id ∈ s.created rows := hcons ▸ mem_cons_self
  have hlt : id < reviewId s rows := lt_fresh (created_named hid)
  exact absurd ((lt_fresh hnamed).trans_le (created_between hid).1) (Nat.not_lt.mpr hlt.le)

theorem not_divided_unreviewed
    (hsome : reviewOf env ticket = some row) (hq : ∀ b ∈ q, b.keepsTickets = true) :
    ¬ Divided env s ticket (applied (.children rows :: q) s) := by
  intro hd
  obtain ⟨type, -, htype, -, -⟩ := reviewOf_some hsome
  obtain ⟨review, hreview, -⟩ := hd.review type htype
  rw [(h.parts_kept (h.children_kept hq)).2] at hreview
  cases hreview

omit h in
theorem lastPairs_apart : (lastPairs env s ticket rows).Pairwise (· ≠ ·) := by
  rw [lastPairs]
  cases reviewOf env ticket with
  | none => exact (chain_apart created_pairwise).imp fun h => h.2
  | some row =>
    refine pairwise_map.mpr (created_pairwise.imp ?_)
    intro a b hlt heq
    exact hlt.ne (congrArg Prod.snd heq)

/-- **A split that is cut before its last edge has not divided the ticket.** -/
theorem not_divided_of_part {init : List (TicketId × TicketId)}
    {p : TicketId × TicketId} (hlast : lastPairs env s ticket rows = init ++ [p])
    (hq : .children rows :: q <+: scriptHead env s ticket rows ++ links init) :
    ¬ Divided env s ticket (applied (.children rows :: q) s) := by
  have hnew : p ∉ init := by
    intro hmem
    have hapart := hlast ▸ @lastPairs_apart env s ticket rows
    exact (pairwise_append.mp hapart).2.2 p hmem p (mem_singleton_self p) rfl
  have hmap : (ticketsOf (s.created rows) rows).map TicketWait.Ticket.id = s.created rows :=
    map_id_ticketsOf length_created
  have hp : p ∈ lastPairs env s ticket rows := hlast ▸ mem_append_right _ (mem_singleton_self p)
  cases hsome : reviewOf env ticket with
  | none =>
    rw [scriptHead, hsome] at hq
    rw [lastPairs, hsome] at hp
    have hq' : q <+: links init := (cons_prefix_cons.mp hq).2
    intro hd
    have hkeep := keepsTickets_of_part hq' keepsTickets_links
    have hedge := hd.chained p (by
      rw [(h.parts_kept (h.children_kept hkeep)).1, hmap]
      exact hp)
    have hlink := mem_links_of_edge (not_named_of_created (mem_chain created_pairwise hp).1) hedge
    rcases mem_cons.mp hlink with hlink | hlink
    · cases hlink
    · exact hnew (mem_links_iff.mp (hq'.subset hlink))
  | some row =>
    obtain ⟨type, workspace, htype, -, hrow⟩ := reviewOf_some hsome
    rw [scriptHead_some hsome] at hq
    rw [lastPairs, hsome] at hp
    obtain ⟨id, hid, rfl⟩ := mem_map.mp hp
    have hsplit : (chainBeats s rows ++ [.siblings, .review row, .opened, .announced, .gather])
        ++ links init = .children rows :: (links (chain (s.created rows)) ++ [.siblings]
          ++ (.review row :: ([.opened, .announced, .gather] ++ links init))) := by
      simp [chainBeats]
    rw [hsplit] at hq
    have hchained : ∀ b ∈ links (chain (s.created rows)) ++ [.siblings], b.keepsTickets = true := by
      intro b hb
      rcases mem_append.mp hb with hb | hb
      · exact keepsTickets_links b hb
      · rw [mem_singleton.mp hb]
        rfl
    rcases prefix_append_cases (cons_prefix_cons.mp hq).2 with hq | ⟨q', rfl, hq'⟩
    · exact h.not_divided_unreviewed hsome (keepsTickets_of_part hq hchained)
    · cases q' with
      | nil =>
        rw [append_nil]
        exact h.not_divided_unreviewed hsome hchained
      | cons b q' =>
        obtain ⟨rfl, hrest⟩ := cons_prefix_cons.mp hq'
        have hkeep := keepsTickets_of_part hrest keepsTickets_opened
        have hparent : row.parentTicketId = ticket.id := hrow.symm ▸ rfl
        have hreview : row.isIntegrationReview = true := hrow.symm ▸ rfl
        have hshape : Beat.children rows :: (links (chain (s.created rows)) ++ [.siblings]
            ++ Beat.review row :: q')
            = chainBeats s rows ++ .siblings :: .review row :: q' := by
          simp [chainBeats]
        rw [hshape]
        intro hd
        obtain ⟨hparts, hreviews⟩ := h.parts_reviewed hreview
          (h.children_reviewed hparent hkeep)
        obtain ⟨review, hone, -, hedges⟩ := hd.review type htype
        rw [hreviews] at hone
        cases hone
        have hpart : ∃ part ∈ ticketsOf (s.created rows) rows, part.id = id := by
          rw [← hmap] at hid
          obtain ⟨part, hpart, hpid⟩ := mem_map.mp hid
          exact ⟨part, hpart, hpid⟩
        obtain ⟨part, hpart, rfl⟩ := hpart
        have hlink := mem_links_of_edge h.reviewId_not_named
          (hedges part (hparts ▸ hpart))
        rcases mem_append.mp hlink with hlink | hlink
        · rcases mem_cons.mp hlink with hlink | hlink
          · cases hlink
          · have hmem := (mem_chain created_pairwise (mem_links_iff.mp hlink)).1
            exact absurd (lt_fresh (created_named hmem)) (Nat.lt_irrefl _)
        · simp only [mem_cons, reduceCtorEq, false_or] at hlink
          have hmem := hrest.subset hlink
          simp only [cons_append, nil_append, mem_cons, reduceCtorEq, false_or] at hmem
          exact hnew (mem_links_iff.mp hmem)

end

end Splitting

/-! ## When a split is all or nothing -/

theorem AllOrNothing.untouched {o : SplitOutcome} (ho : o ≠ .split)
    (hnone : s.children ticket.id = []) : AllOrNothing env s ticket (.value o, s) := by
  refine ⟨nofun, .inl hnone, fun outcome h => ?_⟩
  cases h
  exact ⟨fun h => absurd h ho, fun h => absurd hnone h.children_ne_nil⟩

theorem not_allOrNothing {e : Ending Raised SplitOutcome} {t : Store}
    (hchildren : t.children ticket.id ≠ []) (hdivided : ¬ Divided env s ticket t) :
    ¬ AllOrNothing env s ticket (e, t) := by
  intro h
  rcases h.whole with hnil | hd
  · exact hchildren hnil
  · exact hdivided hd

theorem cut_cases {front before rest : List α} {x y b : α}
    (h : front ++ [x, y] = before ++ b :: rest) :
    (before = front ++ [x] ∧ b = y ∧ rest = []) ∨ (before = front ∧ b = x ∧ rest = [y]) ∨
      ∃ mid, front = before ++ b :: mid := by
  rcases append_eq_append_iff.mp h with ⟨mid, rfl, hmid⟩ | ⟨mid, rfl, hmid⟩
  · cases mid with
    | nil =>
      cases hmid
      exact .inr (.inl ⟨append_nil _, rfl, rfl⟩)
    | cons c mid =>
      cases mid with
      | nil =>
        cases hmid
        exact .inl ⟨rfl, rfl, rfl⟩
      | cons d mid =>
        have hlen := congrArg List.length hmid
        simp only [length_cons, length_nil, length_append] at hlen
        omega
  · cases mid with
    | nil =>
      cases hmid
      exact .inr (.inl ⟨(append_nil _).symm, rfl, rfl⟩)
    | cons c mid =>
      cases hmid
      exact .inr (.inr ⟨mid, rfl⟩)

theorem carried_iff {f : Faults Beat} {script front : List Beat} {a b : TicketId}
    (hscript : script = front ++ [.link a b, .linked a b]) :
    Carried f script ↔ (∀ c ∈ front, f.Passes c) ∧ f.fails (.link a b) = false ∧
      (f.stops (.link a b) = true ∨ f.fails (.linked a b) = false) := by
  constructor
  · rintro ⟨front', later, earlier, hshape, hpass, hfails, hlast⟩
    obtain ⟨rfl, hpair⟩ := append_inj' (hscript.symm.trans hshape) rfl
    cases hpair
    exact ⟨hpass, hfails, hlast⟩
  · rintro ⟨hpass, hfails, hlast⟩
    exact ⟨front, a, b, hscript, hpass, hfails, hlast⟩

namespace Splitting

section

variable (h : Splitting env s ticket rows)
include h

theorem lastPairs_concat : ∃ init p, lastPairs env s ticket rows = init ++ [p] := by
  have hne : lastPairs env s ticket rows ≠ [] := by
    have htwo := h.two
    have hlen : (s.created rows).length = rows.length := length_created
    rw [lastPairs]
    cases hids : s.created rows with
    | nil =>
      rw [hids, length_nil] at hlen
      omega
    | cons a ids =>
      cases ids with
      | nil =>
        rw [hids, length_singleton] at hlen
        omega
      | cons b ids =>
        cases reviewOf env ticket with
        | none | some row => exact nofun
  exact ⟨_, _, (dropLast_append_getLast hne).symm⟩

theorem children_ne_nil : (applied (.children rows :: q) s).children ticket.id ≠ [] := by
  obtain ⟨t, rest, hcons⟩ := exists_cons_of_ne_nil h.ticketsOf_ne_nil
  have hmem : t ∈ (rows.foldl Store.insert s).children ticket.id := by
    rw [h.children_insertAll, hcons]
    exact mem_cons_self
  exact ne_nil_of_mem (children_subset_applied (s := rows.foldl Store.insert s) hmem)

omit h in
theorem scriptHead_cons : ∃ rest, scriptHead env s ticket rows = .children rows :: rest := by
  rw [scriptHead]
  cases reviewOf env ticket with
  | none | some row => exact ⟨_, rfl⟩

omit h in
theorem cons_of_append {front rest script : List Beat} {b : Beat}
    (hscript : script = .children rows :: rest) {rest' : List Beat}
    (hcut : script = front ++ b :: rest') :
    (front = [] ∧ b = .children rows) ∨ ∃ q, front = .children rows :: q := by
  rw [hscript] at hcut
  cases front with
  | nil =>
    cases hcut
    exact .inl ⟨rfl, rfl⟩
  | cons c front =>
    cases hcut
    exact .inr ⟨front, rfl⟩

theorem performed_iff (ha : Accepts env s ticket rows items children)
    (hfails : env.faults.fails (.children rows) = false) :
    AllOrNothing env s ticket (settle ((env.faults.perform .stepFailed Beat.write
        (script env s ticket rows) >>= fun _ => pure (s.created rows)) s))
      ↔ Carried env.faults (script env s ticket rows) := by
  obtain ⟨init, p, hlast⟩ := h.lastPairs_concat
  have hscript : script env s ticket rows
      = (scriptHead env s ticket rows ++ links init) ++ [.link p.1 p.2, .linked p.1 p.2] := by
    rw [script_eq, hlast, links_concat, append_assoc]
  obtain ⟨tail, htail⟩ := @scriptHead_cons env s ticket rows
  have hbegins : script env s ticket rows
      = .children rows :: (tail ++ links init ++ [.link p.1 p.2, .linked p.1 p.2]) := by
    rw [hscript, htail]
    rfl
  have hdivides := h.script_divides ha
  have hcut : ∀ q, .children rows :: q <+: scriptHead env s ticket rows ++ links init →
      ¬ Divided env s ticket (applied (.children rows :: q) s) :=
    fun q hq => h.not_divided_of_part hlast hq
  generalize scriptHead env s ticket rows ++ links init = front at hscript hcut
  rw [carried_iff hscript]
  by_cases hall : ∀ b ∈ script env s ticket rows, env.faults.Passes b
  · rw [bind_value (Faults.perform_passes hall)]
    constructor
    · intro _
      rw [hscript] at hall
      refine ⟨fun c hc => hall c (mem_append_left _ hc), ?_, .inr ?_⟩
      · exact (hall _ (mem_append_right _ mem_cons_self)).1
      · exact (hall _ (mem_append_right _ (mem_cons_of_mem _ mem_cons_self))).1
    · intro _
      refine ⟨nofun, .inr hdivides, fun outcome ho => ?_⟩
      cases ho
      exact ⟨fun _ => hdivides, fun _ => rfl⟩
  · obtain ⟨before, b, rest, hshape, hpass, ⟨hb, hrun⟩ | ⟨hb, hstop, hrun⟩⟩ :=
      @Faults.perform_cut _ _ _ env.faults Raised.stepFailed Beat.write s _ hall
    · -- a step fails behind the commit of the children
      rw [bind_raised hrun]
      constructor
      · intro hgood
        rcases cons_of_append hbegins hshape with ⟨-, rfl⟩ | ⟨q, rfl⟩
        · rw [hfails] at hb
          cases hb
        · have hoff : ¬ Divided env s ticket (applied (.children rows :: q) s) := fun hd =>
            nomatch (hgood.outcome .failed rfl).mpr hd
          exact absurd hgood (not_allOrNothing h.children_ne_nil hoff)
      · rintro ⟨hfront, hlink, hlinked⟩
        rcases cut_cases (hscript.symm.trans hshape) with ⟨rfl, rfl, -⟩ | ⟨rfl, rfl, -⟩ | ⟨mid, rfl⟩
        · rcases hlinked with hstop | hlinked
          · have hgo := (hpass _ (mem_append_right _ (mem_singleton_self _))).2
            rw [hstop] at hgo
            cases hgo
          · rw [hb] at hlinked
            cases hlinked
        · rw [hb] at hlink
          cases hlink
        · have hgo := (hfront b (mem_append_right _ mem_cons_self)).1
          rw [hb] at hgo
          cases hgo
    · -- the process stops behind a step
      rw [bind_stopped hrun]
      have hstopped : AllOrNothing env s ticket (settle (.stopped, applied (before ++ [b]) s)) ↔
          Divided env s ticket (applied (before ++ [b]) s) := by
        constructor
        · intro hgood
          refine hgood.whole.resolve_left ?_
          rcases cons_of_append hbegins hshape with ⟨rfl, rfl⟩ | ⟨q, rfl⟩
          · exact h.children_ne_nil
          · exact h.children_ne_nil
        · intro hd
          exact ⟨nofun, .inr hd, nofun⟩
      rw [hstopped]
      rcases cut_cases (hscript.symm.trans hshape) with ⟨rfl, rfl, -⟩ | ⟨rfl, rfl, -⟩ | ⟨mid, rfl⟩
      · have hwhole : front ++ [.link p.1 p.2] ++ [.linked p.1 p.2] = script env s ticket rows := by
          rw [hscript, append_assoc]
          rfl
        rw [hwhole]
        refine ⟨fun _ => ⟨fun c hc => hpass c (mem_append_left _ hc), ?_, .inr hb⟩,
          fun _ => hdivides⟩
        exact (hpass _ (mem_append_right _ (mem_singleton_self _))).1
      · have hwhole : applied (before ++ [.link p.1 p.2]) s
            = applied (script env s ticket rows) s := by
          rw [hscript, applied_append, applied_append]
          rfl
        rw [hwhole]
        exact ⟨fun _ => ⟨hpass, hb, .inl hstop⟩, fun _ => hdivides⟩
      · constructor
        · intro hd
          exfalso
          have hpiece : before ++ [b] <+: before ++ b :: mid :=
            (prefix_append_right_inj before).mpr ⟨mid, rfl⟩
          rcases cons_of_append hbegins hshape with ⟨rfl, rfl⟩ | ⟨q, rfl⟩
          · exact hcut [] hpiece hd
          · exact hcut _ hpiece hd
        · rintro ⟨hfront, -, -⟩
          have hgo := (hfront b (mem_append_right _ mem_cons_self)).2
          rw [hstop] at hgo
          cases hgo

theorem refused_not (hsome : reviewOf env ticket = some row)
    (hfails : env.faults.fails (.children rows) = false) :
    ¬ AllOrNothing env s ticket (settle ((env.faults.perform .stepFailed Beat.write
        (chainBeats s rows ++ [.siblings]) >>= fun _ => raise .noWorkflow) s)) := by
  have hkeep : ∀ b ∈ links (chain (s.created rows)) ++ [.siblings], b.keepsTickets = true := by
    intro b hb
    rcases mem_append.mp hb with hb | hb
    · exact keepsTickets_links b hb
    · rw [mem_singleton.mp hb]
      rfl
  have hleft : ∀ e q, .children rows :: q <+: chainBeats s rows ++ [.siblings] →
      ¬ AllOrNothing env s ticket (e, applied (.children rows :: q) s) := by
    intro e q hq
    have hq' : q <+: links (chain (s.created rows)) ++ [.siblings] := (cons_prefix_cons.mp hq).2
    exact not_allOrNothing h.children_ne_nil
      (h.not_divided_unreviewed hsome (keepsTickets_of_part hq' hkeep))
  have hbegins : chainBeats s rows ++ [.siblings]
      = .children rows :: (links (chain (s.created rows)) ++ [.siblings]) := rfl
  by_cases hall : ∀ b ∈ chainBeats s rows ++ [.siblings], env.faults.Passes b
  · rw [bind_value (Faults.perform_passes hall)]
    exact hleft _ _ (prefix_refl _)
  · obtain ⟨before, b, rest, hshape, -, ⟨hb, hrun⟩ | ⟨hb, hstop, hrun⟩⟩ :=
      @Faults.perform_cut _ _ _ env.faults Raised.stepFailed Beat.write s _ hall
    · rw [bind_raised hrun]
      rcases cons_of_append hbegins hshape
        with ⟨-, rfl⟩ | ⟨q, rfl⟩
      · rw [hfails] at hb
        cases hb
      · exact hleft _ _ ⟨_, hshape.symm⟩
    · rw [bind_stopped hrun]
      have hpiece : before ++ [b] <+: chainBeats s rows ++ [.siblings] := by
        rw [hshape]
        exact (prefix_append_right_inj before).mpr ⟨rest, rfl⟩
      rcases cons_of_append hbegins hshape
        with ⟨rfl, rfl⟩ | ⟨q, rfl⟩
      · exact hleft _ _ hpiece
      · exact hleft _ _ hpiece

theorem persisted_iff (ha : Accepts env s ticket rows items children)
    (hrows : prepared env s ticket children = .ok rows) :
    AllOrNothing env s ticket (settle (persist env ticket children s)) ↔
      env.faults.fails (.children rows) = true ∨
        ((reviewChildType ticket.workItemType ≠ none → env.workflow = true) ∧
          Carried env.faults (script env s ticket rows)) := by
  have hreview : reviewOf env ticket ≠ none ↔ reviewChildType ticket.workItemType ≠ none := by
    constructor
    · intro hne hnone
      refine hne ?_
      rw [reviewOf, hnone]
    · intro hne hnone
      exact hne (h.reviewOf_none hnone)
  rw [← hreview]
  by_cases hfails : env.faults.fails (.children rows) = true
  · have hnothing : ∀ (bs : List Beat) (f : Unit → Call (List TicketId)),
        (env.faults.perform .stepFailed Beat.write (.children rows :: bs) >>= f) s
          = (.raised .stepFailed, s) := fun bs f =>
      bind_raised (bind_raised (Faults.commit_fails hfails))
    have hrun : persist env ticket children s = (.raised .stepFailed, s) := by
      by_cases hflow : reviewOf env ticket ≠ none → env.workflow = true
      · obtain ⟨tail, htail⟩ := @scriptHead_cons env s ticket rows
        rw [h.persist_eq hrows hflow, script_eq, htail]
        exact hnothing _ _
      · obtain ⟨hne, hflow⟩ := Classical.not_imp.mp hflow
        obtain ⟨row, hsome⟩ := Option.ne_none_iff_exists'.mp hne
        rw [h.persist_refused hrows hsome (Bool.not_eq_true _ ▸ hflow)]
        exact hnothing _ _
    rw [hrun]
    refine ⟨fun _ => .inl hfails, fun _ => .untouched ?_ h.childless⟩
    intro hsplit
    cases hsplit
  · have hpass : env.faults.fails (.children rows) = false := Bool.not_eq_true _ ▸ hfails
    by_cases hflow : reviewOf env ticket ≠ none → env.workflow = true
    · rw [h.persist_eq hrows hflow, h.performed_iff ha hpass]
      exact ⟨fun hc => .inr ⟨hflow, hc⟩, fun hc => (hc.resolve_left hfails).2⟩
    · obtain ⟨hne, hoff⟩ := Classical.not_imp.mp hflow
      obtain ⟨row, hsome⟩ := Option.ne_none_iff_exists'.mp hne
      rw [h.persist_refused hrows hsome (Bool.not_eq_true _ ▸ hoff)]
      refine ⟨fun hgood => absurd hgood (h.refused_not hsome hpass), fun hc => ?_⟩
      exact absurd (hc.resolve_left hfails).1 hflow

end

end Splitting

section

variable (hrow : s.db.get ticket.id = some ticket) (hnone : s.children ticket.id = [])
  (hreview : ticket.isIntegrationReview = false)
include hrow hnone hreview

theorem prepared_splitting {childType : WorkItemType}
    (hsplit : split env.py env.limit env.reply childType (criteria s ticket.id) = .ok children)
    (hrows : prepared env s ticket children = .ok rows) :
    Splitting env s ticket rows ∧ ∃ items, Accepts env s ticket rows items children := by
  obtain ⟨items, hitems, htwo, hvalid, hperm⟩ := split_ok hsplit
  have hrowed := prepared_ok hvalid hrows
  refine ⟨⟨hrow, hnone, hreview, ?_, ?_, ?_⟩, items, hitems, hvalid, hperm, hrowed⟩
  · cases hw : workspaceFor env ticket with
    | some workspace => exact ⟨workspace, rfl⟩
    | none =>
      rw [prepared, hw] at hrows
      cases hrows
  · intro row hmem
    clear htwo hrows hvalid hitems
    induction hrowed with
    | nil => cases hmem
    | cons hr _ ih =>
      rcases mem_cons.mp hmem with rfl | hmem
      · exact ⟨hr.parent, hr.review⟩
      · exact ih hmem
  · exact hrowed.length_eq ▸ htwo

/-- The part of a split that reads the reply, and its writes, is all or nothing exactly when the
    reply can be walked and what is accepted is carried through. -/
theorem splitCall_iff {childType : WorkItemType}
    (htype : splitChildType ticket.workItemType = some childType) :
    AllOrNothing env s ticket (splitCall env ticket childType s) ↔ Whole env s ticket := by
  rw [splitCall]
  cases hsplit : split env.py env.limit env.reply childType (criteria s ticket.id) with
  | error e =>
    have hvacuous : ∀ ct children rows, splitChildType ticket.workItemType = some ct →
        split env.py env.limit env.reply ct (criteria s ticket.id) = .ok children →
        prepared env s ticket children = .ok rows → False := by
      intro ct children rows hct hok _
      rw [htype] at hct
      cases hct
      rw [hsplit] at hok
      cases hok
    cases he : e.handled with
    | true =>
      constructor
      · intro _
        refine ⟨fun hchokes => ?_, fun ct children rows hct hok hrows =>
          (hvacuous ct children rows hct hok hrows).elim⟩
        obtain ⟨e', he', hbad⟩ := (@split_unhandled_iff env.py (criteria s ticket.id) env.limit
          env.reply childType).mpr hchokes
        rw [hsplit] at he'
        cases he'
        rw [he] at hbad
        cases hbad
      · intro _
        show AllOrNothing env s ticket (if e.handled = true then _ else _)
        rw [if_pos he]
        exact .untouched nofun hnone
    | false =>
      constructor
      · intro hgood
        refine absurd ?_ (hgood.returns e)
        show (if e.handled = true then _ else _ : Ending Raised SplitOutcome × Store).1 = _
        rw [if_neg (by rw [he]; exact Bool.false_ne_true)]
      · intro hwhole
        exact absurd (split_unhandled_iff.mp ⟨e, hsplit, he⟩) hwhole.reads
  | ok children =>
    have hreads : ¬ ReplyChokes env.py env.limit env.reply := by
      intro hchokes
      obtain ⟨e, he, -⟩ := (@split_unhandled_iff env.py (criteria s ticket.id) env.limit
        env.reply childType).mpr hchokes
      rw [hsplit] at he
      cases he
    cases hrows : prepared env s ticket children with
    | error e =>
      have hpersist : persist env ticket children s = (.raised e, s) := by
        rw [persist, readStore_bind, hrows]
        rfl
      show AllOrNothing env s ticket (settle (persist env ticket children s)) ↔ _
      rw [hpersist]
      constructor
      · intro _
        refine ⟨hreads, fun ct children' rows hct hok hok' => ?_⟩
        rw [htype] at hct
        cases hct
        rw [hsplit] at hok
        cases hok
        rw [hrows] at hok'
        cases hok'
      · intro _
        show AllOrNothing env s ticket (if e.handled = true then _ else _)
        rw [if_pos (prepared_handled env s ticket children e hrows)]
        exact .untouched nofun hnone
    | ok rows =>
      obtain ⟨h, items, ha⟩ := prepared_splitting hrow hnone hreview hsplit hrows
      show AllOrNothing env s ticket (settle (persist env ticket children s)) ↔ _
      rw [h.persisted_iff ha hrows]
      constructor
      · intro hgood
        refine ⟨hreads, fun ct children' rows' hct hok hok' => ?_⟩
        rw [htype] at hct
        cases hct
        rw [hsplit] at hok
        cases hok
        rw [hrows] at hok'
        cases hok'
        exact hgood
      · intro hwhole
        exact hwhole.carried childType children rows htype hsplit hrows

end

/-- **When an oversized split is all or nothing**: exactly when, if it is attempted at all, the
    walk of the reply meets nothing that cannot be walked, and what is accepted is written to
    its last edge once its children are committed. -/
theorem split_all_or_nothing (hrow : s.db.get ticket.id = some ticket)
    (hover : isOversized s ticket.id = true) (hnone : s.children ticket.id = []) :
    AllOrNothing env s ticket (splitOversizedTicket env ticket s) ↔
      (Attempted env ticket → Whole env s ticket) := by
  have hskip : ∀ o : SplitOutcome, o ≠ .split →
      splitOversizedTicket env ticket s = (.value o, s) → ¬ Attempted env ticket →
      (AllOrNothing env s ticket (splitOversizedTicket env ticket s) ↔
        (Attempted env ticket → Whole env s ticket)) := by
    intro o ho hcall hnot
    rw [hcall]
    exact ⟨fun _ hattempt => absurd hattempt hnot, fun _ => .untouched ho hnone⟩
  have hbegin : splitOversizedTicket env ticket s
      = (if (ticket.isIntegrationReview || !isOversized s ticket.id
            || !(s.children ticket.id).isEmpty || env.midStage || env.ranUnsplit) = true then
          pure .notNeeded
        else if env.workStarted = true then pure .workStarted
        else splitInto env ticket (splitChildType ticket.workItemType) : Call SplitOutcome) s := rfl
  by_cases hneeded : (ticket.isIntegrationReview || env.midStage || env.ranUnsplit) = true
  · refine hskip .notNeeded nofun ?_ ?_
    · rw [hbegin, if_pos]
      · rfl
      · simp only [Bool.or_eq_true] at hneeded ⊢
        tauto
    · intro hattempt
      rw [hattempt.notReview, hattempt.boundary, hattempt.unasked] at hneeded
      cases hneeded
  · simp only [Bool.or_eq_true, not_or, Bool.not_eq_true] at hneeded
    obtain ⟨⟨hreview, hstage⟩, hasked⟩ := hneeded
    have hguard : ¬ (ticket.isIntegrationReview || !isOversized s ticket.id
        || !(s.children ticket.id).isEmpty || env.midStage || env.ranUnsplit) = true := by
      rw [hreview, hover, hnone, hstage, hasked]
      exact Bool.false_ne_true
    rw [if_neg hguard] at hbegin
    by_cases hstarted : env.workStarted = true
    · refine hskip .workStarted nofun (by rw [hbegin, if_pos hstarted]; rfl) fun hattempt => ?_
      rw [hattempt.unstarted] at hstarted
      cases hstarted
    · rw [if_neg hstarted] at hbegin
      cases htype : splitChildType ticket.workItemType with
      | none =>
        refine hskip .unsplittable nofun (by rw [hbegin, htype]; rfl) fun hattempt => ?_
        exact hattempt.splittable htype
      | some childType =>
        rw [htype] at hbegin
        rw [show splitOversizedTicket env ticket s = splitCall env ticket childType s from hbegin,
          splitCall_iff hrow hnone hreview htype]
        refine ⟨fun hw _ => hw, fun hw => hw ?_⟩
        exact ⟨hreview, hstage, hasked, Bool.not_eq_true _ ▸ hstarted, by
          rw [htype]
          exact nofun⟩

/-! ## A split cut short -/

def asciiLibrary : Library where
  nfc := id
  lower := id
  intOf := fun _ => none
  nfc_again := fun _ => rfl
  nfc_blank := fun _ h => h

/-- A bug of sixteen criteria, which takes no review child. -/
def bigBug : TicketWait.Ticket := ⟨1, some 1, .bug, none, false, 0, "user"⟩

def sixteen : List String := (List.range 16).map fun n => "AC" ++ toString (n + 1)

def oneBug : Store where
  db := ⟨[bigBug], [], pairwise_singleton _ _⟩
  content := fun _ => { externalId := "lg-1", title := "Big bug", acceptanceCriteria := sixteen }

def childOf (slug : String) (criteria : List String) : Json :=
  .obj [("external_id", .str slug), ("title", .str slug), ("work_item_type", .str "task"),
    ("description", .str ""), ("acceptance_criteria", .arr (criteria.map Json.str)),
    ("priority", .int 2), ("children", .arr [])]

def halves : Reply :=
  .object [("children", .arr [childOf "a" (sixteen.take 8), childOf "b" (sixteen.drop 8)])]

def callWith (reply : Reply) (faults : Faults Beat) : Env where
  py := asciiLibrary
  limit := 900
  reply := reply
  faults := faults
  workspaces := [1]
  workflow := true
  midStage := false
  ranUnsplit := false
  workStarted := false

theorem split_all_or_nothing_halves : AllOrNothing (callWith halves {}) oneBug bigBug
        (splitOversizedTicket (callWith halves {}) bigBug oneBug) ↔
      (Attempted (callWith halves {}) bigBug → Whole (callWith halves {}) oneBug bigBug) :=
  split_all_or_nothing (by decide +kernel) (by decide +kernel) (by decide +kernel)

/-- The process stops behind the commit of the children. -/
def stopsBehindChildren : Faults Beat where
  stops
    | .children _ => true
    | _ => false

/-- **Splits that are not all or nothing**: a reply whose `children` is `null` raises, and a stop
    behind the commit of the children leaves them unchained. -/
theorem split_raises_or_halves :
    ¬ AllOrNothing (callWith (.object [("children", .null)]) {}) oneBug bigBug
        (splitOversizedTicket (callWith (.object [("children", .null)]) {}) bigBug oneBug) ∧
      ¬ AllOrNothing (callWith halves stopsBehindChildren) oneBug bigBug
        (splitOversizedTicket (callWith halves stopsBehindChildren) bigBug oneBug) := by
  constructor
  · intro h
    exact h.returns .typeError (by decide +kernel)
  · intro h
    rcases h.whole with hnil | hd
    · exact absurd hnil (by decide +kernel)
    · exact absurd (hd.chained (3, 2) (by decide +kernel)) (by decide +kernel)

end Loregarden.OversizedSplit
