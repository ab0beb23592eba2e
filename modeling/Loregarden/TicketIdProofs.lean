import Loregarden.TicketSpellingProofs
import Loregarden.RunProofs

/-! # What an id once handed out resolves to

A spelling is read back as its prefix and number, and a number of a workspace is given to one ticket
once. So an id can only resolve to the ticket it was handed to, as long as no id supplied from
elsewhere reads like one of a workspace. It does resolve to it while the ticket still has that
number, or while its legacy column holds the id: the first one a ticket left a workspace under,
unless it came with one of its own. The ids it had in between are forgotten. -/

namespace Loregarden.TicketIds

open Text Ranked Runs Workspace Nat
open Option hiding or_self
open Function (update_of_ne update_self)
open List (mem_append mem_append_left mem_singleton)

variable {w w' : World} {t : Ticket} {i : Nat}
variable {stage : Stage} {workspaces : List Workspace} {k : Nat} {issued : List Issue} {e : Issue}
variable {ws : Workspace}

/-! ## What holds of the tables -/

/-- Prefixes that `_STRUCTURED_ID_RE` can read back, no two of them equal. -/
def PrefixesFit (workspaces : List Workspace) : Prop :=
  (∀ ws ∈ workspaces, IsPrefix ws.ticketPrefix) ∧ (workspaces.map Workspace.ticketPrefix).Nodup

/-- A text that does not read like an id of one of the workspaces. -/
def Foreign (workspaces : List Workspace) (text : Word) : Prop :=
  ∀ ws ∈ workspaces, parseWorkspacePrefix text ≠ some ws.ticketPrefix

inductive Stage where
  /-- It has its id. -/
  | settled
  /-- New, and still without a number. -/
  | created
  /-- New, and numbered. -/
  | naming
  /-- In another workspace, under the number it had. -/
  | moving
  /-- Its number taken away. -/
  | waiting
  /-- Numbered in its new workspace. -/
  | rehoused
  /-- With the id of its new workspace. -/
  | reissued

namespace Stage

def HasId (stage : Stage) : Prop := stage = settled ∨ stage = reissued

def Naming (stage : Stage) : Prop := stage = naming ∨ stage = rehoused

def Away (stage : Stage) : Prop :=
  stage = moving ∨ stage = waiting ∨ stage = rehoused ∨ stage = reissued

def numbered : Stage → Stage
  | created => naming
  | waiting => rehoused
  | stage => stage

def spelled : Stage → Stage
  | settled | created | naming => settled
  | moving | waiting | rehoused | reissued => reissued

theorem hasId_spelled (stage : Stage) : stage.spelled.HasId := by
  cases stage <;> simp [spelled, HasId]

theorem away_of_spelled (h : stage.spelled.Away) : stage.Away := by
  cases stage <;> simp_all [spelled, Away]

theorem spelled_not_between (stage : Stage) :
    ¬ (stage.spelled = moving ∨ stage.spelled = waiting) := by
  cases stage <;> simp [spelled]

theorem spelled_numbered (stage : Stage) : stage.numbered.spelled = stage.spelled := by
  cases stage <;> rfl

theorem naming_numbered (hid : ¬ stage.HasId) (hnaming : ¬ stage.Naming)
    (hmoving : stage ≠ moving) : stage.numbered.Naming ∧ ¬ stage.numbered.HasId := by
  cases stage <;> simp_all [numbered, HasId, Naming]

theorem numbered_ne_moving (h : stage ≠ moving) : stage.numbered ≠ moving := by
  cases stage <;> simp_all [numbered]

theorem away_of_numbered (h : stage.numbered.Away) : stage.Away := by
  cases stage <;> simp_all [numbered, Away]

end Stage

/-- The number of a ticket has been issued, by its workspace. -/
def InRange (workspaces : List Workspace) (t : Ticket) : Prop :=
  ∃ ws, workspaces[t.workspaceId]? = some ws ∧ 1 ≤ t.ticketNumber ∧
    t.ticketNumber ≤ ws.lastTicketNumber

/-- No id was handed to a ticket since its last move. -/
def Unspelled (issued : List Issue) (t : Ticket) : Prop :=
  ∀ e ∈ issued, e.ticket = t.id → e.moves < t.moves

/-- Ids were, all under the number it has, which no other ticket ever had. -/
structure Numbered (issued : List Issue) (t : Ticket) : Prop where
  some : ∃ e ∈ issued, e.ticket = t.id ∧ e.workspace = t.workspaceId ∧ e.number = t.ticketNumber
  only : ∀ e ∈ issued, e.workspace = t.workspaceId → e.number = t.ticketNumber →
    e.ticket = t.id ∧ e.moves = t.moves
  since : ∀ e ∈ issued, e.ticket = t.id → e.moves ≤ t.moves ∧
    (e.moves = t.moves → e.workspace = t.workspaceId ∧ e.number = t.ticketNumber)

/-- How the number of a ticket stands to what was handed out. -/
inductive Numbering (workspaces : List Workspace) (issued : List Issue) (stage : Stage)
    (t : Ticket) : Prop
  | none (h : Unspelled issued t) (hn : t.ticketNumber = 0 ∨ stage = .moving)
  | fresh (hs : stage.Naming) (h : Unspelled issued t) (hr : InRange workspaces t)
      (hn : ∀ e ∈ issued, e.workspace = t.workspaceId → e.number ≠ t.ticketNumber)
  | used (h : Numbered issued t) (hr : InRange workspaces t)

theorem Numbering.same {workspaces : List Workspace} {issued : List Issue} {stage : Stage}
    {t t' : Ticket} (h : Numbering workspaces issued stage t) (hsame : t'.id = t.id ∧
      t'.workspaceId = t.workspaceId ∧ t'.ticketNumber = t.ticketNumber ∧ t'.moves = t.moves) :
    Numbering workspaces issued stage t' := by
  cases t
  cases t'
  obtain ⟨rfl, rfl, rfl, rfl⟩ := hsame
  cases h with
  | none hu hn => exact .none hu hn
  | fresh hs hu hr hn => exact .fresh hs hu hr hn
  | used hn hr => exact .used ⟨hn.some, hn.only, hn.since⟩ hr

def Ticket.issue (t : Ticket) : Issue :=
  ⟨t.externalId, t.id, t.workspaceId, t.ticketNumber, t.moves⟩

/-- A row of `tickets`. -/
structure RowOk (workspaces : List Workspace) (issued : List Issue) (stage : Stage)
    (t : Ticket) : Prop where
  housed : t.workspaceId < workspaces.length
  coded : ∀ c ∈ t.milestoneCode, isSlugDash c = true
  numbering : Numbering workspaces issued stage t
  current : stage.HasId → t.ticketNumber ≠ 0 ∧ t.issue ∈ issued
  spelled : t.externalId = [] ∨ ∃ e ∈ issued, e.ticket = t.id ∧ e.spelling = t.externalId
  legacy : Foreign workspaces t.legacyExternalId ∨
    ∃ e ∈ issued, e.ticket = t.id ∧ e.spelling = t.legacyExternalId
  /-- The first id it left a workspace under is kept, or about to be. -/
  left : t.supplied = false → (t.leftAs = none → t.legacyExternalId = []) ∧
    ∀ s, t.leftAs = some s → strip isSpace s ≠ [] ∧ (t.legacyExternalId = s ∨
      ¬ stage.HasId ∧ t.legacyExternalId = [] ∧ t.externalId = s)
  away : stage.Away → t.leftAs ≠ none
  between : stage = .moving ∨ stage = .waiting → Unspelled issued t

/-- The tables, with the tickets of the call under way at their stages. -/
structure Sound (stage : Nat → Stage) (w : World) : Prop where
  prefixes : PrefixesFit w.workspaces
  rows : ∀ t ∈ w.tickets.rows, RowOk w.workspaces w.issued (stage t.id) t
  issue : ∀ e ∈ w.issued, e.ticket < w.tickets.next ∧ ∃ ws, w.workspaces[e.workspace]? = some ws ∧
    e.number ≤ ws.lastTicketNumber ∧ Spells e.spelling ws.ticketPrefix e.number
  owned : ∀ e ∈ w.issued, ∀ e' ∈ w.issued, e.workspace = e'.workspace → e.number = e'.number →
    e.ticket = e'.ticket

def Settled (w : World) : Prop := Sound (fun _ => .settled) w

variable {stage : Nat → Stage}

theorem mem_setTicket (f : Ticket → Ticket) (hf : ∀ t, (f t).id = t.id) {x : Ticket} :
    x ∈ (w.setTicket i f hf).tickets.rows ↔
      x ∈ w.tickets.rows ∧ x.id ≠ i ∨ ∃ r ∈ w.tickets.rows, r.id = i ∧ x = f r :=
  Keyed.mem_update hf

section

variable (h : Sound stage w)
include h

theorem Sound.setTicket {f : Ticket → Ticket} (hf : ∀ t, (f t).id = t.id)
    (next : Stage) (hrow : ∀ t ∈ w.tickets.rows, t.id = i →
      RowOk w.workspaces w.issued (stage i) t → RowOk w.workspaces w.issued next (f t)) :
    Sound (Function.update stage i next) (w.setTicket i f hf) where
  prefixes := h.prefixes
  issue := h.issue
  owned := h.owned
  rows := by
    intro t ht
    rcases (mem_setTicket f hf).mp ht with ⟨hmem, hne⟩ | ⟨r, hr, hid, rfl⟩
    · rw [update_of_ne hne]
      exact h.rows t hmem
    · rw [hf, hid, update_self]
      exact hrow r hr hid (hid ▸ h.rows r hr)

theorem Sound.setTicket_same {f : Ticket → Ticket} (hf : ∀ t, (f t).id = t.id)
    (hrow : ∀ t ∈ w.tickets.rows, t.id = i →
      RowOk w.workspaces w.issued (stage i) t → RowOk w.workspaces w.issued (stage i) (f t)) :
    Sound stage (w.setTicket i f hf) := by
  have hset := h.setTicket hf (stage i) hrow
  rwa [Function.update_eq_self] at hset

theorem Sound.setCode {code : Word} (hcode : ∀ c ∈ code, isSlugDash c = true) :
    Sound stage (w.setTicket i (fun t => { t with milestoneCode := code }) fun _ => rfl) := by
  refine h.setTicket_same _ fun r _ _ hr => ?_
  exact ⟨hr.housed, hcode, hr.numbering.same ⟨rfl, rfl, rfl, rfl⟩, hr.current, hr.spelled,
    hr.legacy, hr.left, hr.away, hr.between⟩

omit h in
theorem map_prefix_modify (workspaces : List Workspace) (k n : Nat) :
    (workspaces.modify k fun ws => { ws with lastTicketNumber := n }).map ticketPrefix =
      workspaces.map ticketPrefix := by
  apply List.ext_getElem?
  intro j
  rw [List.getElem?_map, List.getElem?_map, List.getElem?_modify]
  cases workspaces[j]? with
  | none => rfl
  | some ws => by_cases hkj : k = j <;> simp [hkj]

omit h in
theorem foreign_congr {workspaces' : List Workspace} {text : Word}
    (hmap : workspaces'.map ticketPrefix = workspaces.map ticketPrefix)
    (h : Foreign workspaces text) : Foreign workspaces' text := by
  intro ws hws hparse
  have hmem : ws.ticketPrefix ∈ workspaces.map ticketPrefix :=
    hmap ▸ List.mem_map_of_mem hws
  obtain ⟨ws', hws', heq⟩ := List.mem_map.mp hmem
  exact h ws' hws' (heq ▸ hparse)

theorem Sound.raise {n : Nat} {workspace : Workspace}
    (hk : w.workspaces[k]? = some workspace) (hn : workspace.lastTicketNumber ≤ n) :
    Sound stage { w with workspaces := w.workspaces.modify k fun ws =>
      { ws with lastTicketNumber := n } } := by
  have hmap := map_prefix_modify w.workspaces k n
  have hget : ∀ (j : Nat) (ws : Workspace), w.workspaces[j]? = some ws → ∃ ws' : Workspace,
      (w.workspaces.modify k fun ws => { ws with lastTicketNumber := n })[j]? = some ws' ∧
        ws'.ticketPrefix = ws.ticketPrefix ∧ ws.lastTicketNumber ≤ ws'.lastTicketNumber := by
    intro j ws hj
    rw [List.getElem?_modify, hj]
    by_cases hkj : k = j
    · subst hkj
      obtain rfl := some.inj (hk.symm.trans hj)
      exact ⟨{ workspace with lastTicketNumber := n }, by simp, rfl, hn⟩
    · exact ⟨ws, by simp [hkj], rfl, le_refl _⟩
  have hrange : ∀ t, InRange w.workspaces t → InRange (w.workspaces.modify k fun ws =>
      { ws with lastTicketNumber := n }) t := by
    rintro t ⟨ws, hws, h1, h2⟩
    obtain ⟨ws', hws', -, hle⟩ := hget _ ws hws
    exact ⟨ws', hws', h1, h2.trans hle⟩
  refine ⟨⟨?_, hmap ▸ h.prefixes.2⟩, ?_, ?_, h.owned⟩
  · intro ws hws
    have hmem : ws.ticketPrefix ∈ w.workspaces.map ticketPrefix :=
      hmap ▸ List.mem_map_of_mem hws
    obtain ⟨ws', hws', heq⟩ := List.mem_map.mp hmem
    exact heq ▸ h.prefixes.1 ws' hws'
  · intro t ht
    have hr := h.rows t ht
    exact { hr with
      housed := by
        have hhoused := hr.housed
        simpa using hhoused
      numbering := by
        cases hr.numbering with
        | none hu hn => exact .none hu hn
        | fresh hs hu hir hn => exact .fresh hs hu (hrange t hir) hn
        | used hu hir => exact .used hu (hrange t hir)
      legacy := hr.legacy.imp_left (foreign_congr hmap) }
  · intro e he
    obtain ⟨hlt, ws, hws, hle, hs⟩ := h.issue e he
    obtain ⟨ws', hws', hp, hle'⟩ := hget _ ws hws
    exact ⟨hlt, ws', hws', hle.trans hle', hp ▸ hs⟩

omit h in
theorem Unspelled.append (h : Unspelled issued t)
    (hne : e.ticket ≠ t.id) : Unspelled (issued ++ [e]) t := by
  intro e' he' hid
  rcases mem_append.mp he' with he' | he'
  · exact h e' he' hid
  · rw [mem_singleton.mp he'] at hid
    exact absurd hid hne

omit h in
theorem RowOk.issue_other {s : Stage} (h : RowOk workspaces issued s t) (hne : e.ticket ≠ t.id)
    (hnew : ∀ e' ∈ issued, e'.workspace = e.workspace → e'.number = e.number →
      e'.ticket = e.ticket) (hs : ¬ s.Naming) : RowOk workspaces (issued ++ [e]) s t where
  housed := h.housed
  coded := h.coded
  numbering := by
    cases h.numbering with
    | none hu hn => exact .none (hu.append hne) hn
    | fresh hnaming => exact absurd hnaming hs
    | used hu hr =>
      refine .used ⟨?_, fun e' he' hws hnum => ?_, fun e' he' hid => ?_⟩ hr
      · obtain ⟨e', he', hsome⟩ := hu.some
        exact ⟨e', mem_append_left _ he', hsome⟩
      · rcases mem_append.mp he' with he' | he'
        · exact hu.only e' he' hws hnum
        · -- the new one would be under a number this ticket already has
          rw [mem_singleton.mp he'] at hws hnum
          obtain ⟨e₀, he₀, hid₀, hws₀, hnum₀⟩ := hu.some
          have := hnew e₀ he₀ (hws₀.trans hws.symm) (hnum₀.trans hnum.symm)
          exact absurd (this.symm.trans hid₀) hne
      · rcases mem_append.mp he' with he' | he'
        · exact hu.since e' he' hid
        · rw [mem_singleton.mp he'] at hid
          exact absurd hid hne
  current := fun hs => ⟨(h.current hs).1, mem_append_left _ (h.current hs).2⟩
  spelled := h.spelled.imp_right fun ⟨e', he', hrest⟩ => ⟨e', mem_append_left _ he', hrest⟩
  legacy := h.legacy.imp_right fun ⟨e', he', hrest⟩ => ⟨e', mem_append_left _ he', hrest⟩
  left := h.left
  away := h.away
  between := fun hs => (h.between hs).append hne

section

variable (hothers : ∀ j, j ≠ i → ¬ (stage j).Naming) (ht : t ∈ w.tickets.rows) (hid : t.id = i)
  (hn : t.ticketNumber ≠ 0) (hmoving : stage i ≠ .moving)
  (hws : w.workspaces[t.workspaceId]? = some ws)
include hothers ht hid hn hmoving hws

/-- **The id of a numbered ticket is handed out.** -/
theorem Sound.handOut
    {s : Word} (hs : Spells s ws.ticketPrefix t.ticketNumber)
    (hleft : t.supplied = false → ∀ s, t.leftAs = some s → t.legacyExternalId = s) :
    Sound (Function.update stage i (stage i).spelled)
      { w.setTicket i (fun t => { t with externalId := s }) fun _ => rfl with
        issued := w.issued ++ [⟨s, i, t.workspaceId, t.ticketNumber, t.moves⟩] } := by
  subst hid
  have hr := h.rows t ht
  have hrange : InRange w.workspaces t := by
    cases hr.numbering with
    | none _ h0 => exact absurd h0 (not_or.mpr ⟨hn, hmoving⟩)
    | fresh _ _ hrange | used _ hrange => exact hrange
  have hmine : ∀ e ∈ w.issued, e.workspace = t.workspaceId → e.number = t.ticketNumber →
      e.ticket = t.id ∧ e.moves = t.moves := by
    intro e he hw hnum
    cases hr.numbering with
    | none _ h0 => exact absurd h0 (not_or.mpr ⟨hn, hmoving⟩)
    | fresh _ _ _ hnot => exact absurd hnum (hnot e he hw)
    | used hu => exact hu.only e he hw hnum
  have hsince : ∀ e ∈ w.issued, e.ticket = t.id → e.moves ≤ t.moves ∧
      (e.moves = t.moves → e.workspace = t.workspaceId ∧ e.number = t.ticketNumber) := by
    intro e he hid
    cases hr.numbering with
    | none _ h0 => exact absurd h0 (not_or.mpr ⟨hn, hmoving⟩)
    | fresh _ hun =>
      have hlt := hun e he hid
      exact ⟨hlt.le, fun heq => absurd heq hlt.ne⟩
    | used hu => exact hu.since e he hid
  refine ⟨h.prefixes, ?_, ?_, ?_⟩
  · intro r hmem
    rcases (mem_setTicket (fun t => { t with externalId := s }) fun _ => rfl).mp hmem with
      ⟨hrow, hne⟩ | ⟨r₀, hrow, hid, rfl⟩
    · show RowOk w.workspaces _ (Function.update stage t.id _ r.id) r
      rw [update_of_ne hne]
      exact (h.rows r hrow).issue_other (fun heq => hne heq.symm)
        (fun e' he' hw hnum => (hmine e' he' hw hnum).1) (hothers r.id hne)
    · obtain rfl := Keyed.eq_of_id hrow ht hid
      show RowOk w.workspaces _ (Function.update stage r₀.id _ r₀.id) _
      rw [update_self]
      have hlast : (⟨s, r₀.id, r₀.workspaceId, r₀.ticketNumber, r₀.moves⟩ : Issue) ∈
          w.issued ++ [⟨s, r₀.id, r₀.workspaceId, r₀.ticketNumber, r₀.moves⟩] :=
        List.mem_append_right _ List.mem_cons_self
      refine ⟨hr.housed, hr.coded, .used ⟨⟨_, hlast, rfl, rfl, rfl⟩, ?_, ?_⟩ hrange,
        fun _ => ⟨hn, hlast⟩, .inr ⟨_, hlast, rfl, rfl⟩, ?_, ?_, ?_,
        fun hs => absurd hs (stage r₀.id).spelled_not_between⟩
      · intro e he hw hnum
        rcases mem_append.mp he with he | he
        · exact hmine e he hw hnum
        · rw [mem_singleton.mp he]
          exact ⟨rfl, rfl⟩
      · intro e he hid
        rcases mem_append.mp he with he | he
        · exact hsince e he hid
        · rw [mem_singleton.mp he]
          exact ⟨le_refl _, fun _ => ⟨rfl, rfl⟩⟩
      · exact hr.legacy.imp_right fun ⟨e', he', hrest⟩ => ⟨e', mem_append_left _ he', hrest⟩
      · intro hsupplied
        refine ⟨(hr.left hsupplied).1, fun s' hs' => ?_⟩
        exact ⟨((hr.left hsupplied).2 s' hs').1, .inl (hleft hsupplied s' hs')⟩
      · exact fun haway => hr.away (Stage.away_of_spelled haway)
  · intro e he
    rcases mem_append.mp he with he | he
    · exact h.issue e he
    · rw [mem_singleton.mp he]
      obtain ⟨ws', hws', -, hle⟩ := hrange
      obtain rfl := some.inj (hws.symm.trans hws')
      exact ⟨w.tickets.fresh t ht, ws, hws, hle, hs⟩
  · intro e he e' he' hw hnum
    rcases mem_append.mp he with he | he
    · rcases mem_append.mp he' with he' | he'
      · exact h.owned e he e' he' hw hnum
      · rw [mem_singleton.mp he'] at hw hnum ⊢
        exact (hmine e he hw hnum).1
    · rw [mem_singleton.mp he] at hw hnum ⊢
      rcases mem_append.mp he' with he' | he'
      · exact (hmine e' he' hw.symm hnum.symm).1.symm
      · rw [mem_singleton.mp he']

omit h in
omit hothers ht hid hn hmoving hws in
theorem mem_of_climb {fuel : Nat} {seen : List Nat} {m : Ticket}
    (h : climb w fuel seen t = some m) :
    m ∈ w.tickets.rows := by
  induction fuel generalizing seen t with
  | zero => cases h
  | succ fuel ih =>
    rw [climb] at h
    cases hp : t.parentTicketId with
    | none =>
      rw [hp] at h
      cases h
    | some p =>
      rw [hp] at h
      dsimp only at h
      cases hg : w.tickets.get p with
      | none =>
        rw [hg] at h
        cases h
      | some parent =>
        rw [hg] at h
        dsimp only at h
        split_ifs at h with hseen hmilestone
        · obtain rfl := some.inj h
          exact (Keyed.get_eq_some hg).1
        · exact ih h

omit h in
omit hothers ht hid hn hmoving hws in
theorem mem_of_ancestorMilestone {m : Ticket} (ht : t ∈ w.tickets.rows)
    (h : ancestorMilestone w t = some m) : m ∈ w.tickets.rows := by
  rw [ancestorMilestone] at h
  split_ifs at h with hm
  · obtain rfl := some.inj h
    exact ht
  · exact mem_of_climb h

omit hothers ht hid hn hmoving hws in
theorem Sound.segment (ht : t ∈ w.tickets.rows) :
    (∀ c ∈ (milestoneSegmentFor w t).2, isSlugDash c = true) ∧
      ((milestoneSegmentFor w t).1 = w ∨ ∃ j code, (∀ c ∈ code, isSlugDash c = true) ∧
        (milestoneSegmentFor w t).1 =
          w.setTicket j (fun t => { t with milestoneCode := code }) fun _ => rfl) := by
  rw [milestoneSegmentFor]
  cases hm : ancestorMilestone w t with
  | none =>
    refine ⟨?_, .inl rfl⟩
    show ∀ c ∈ "none".toList, isSlugDash c = true
    exact List.all_eq_true.mp (by decide)
  | some m =>
    have hcoded := (h.rows m (mem_of_ancestorMilestone ht hm)).coded
    dsimp only
    rw [milestoneCode]
    split_ifs with hempty
    · exact ⟨isSlugDash_deriveMilestoneCode, .inr ⟨_, _, isSlugDash_deriveMilestoneCode, rfl⟩⟩
    · rw [strip_slug hcoded]
      exact ⟨hcoded, .inl rfl⟩

/-- **Spelling the id of a numbered ticket keeps the tables sound.** -/
theorem Sound.spell
    (hleft : t.supplied = false → ∀ s, t.leftAs = some s → t.legacyExternalId = s)
    (named : Workspace) (hnamed : named.ticketPrefix = ws.ticketPrefix) :
    Sound (Function.update stage i (stage i).spelled) (spell w i named) := by
  have hget : w.tickets.get i = some t := hid ▸ Keyed.get_of_mem ht
  have hspelt := h.prefixes.1 ws (List.mem_of_getElem? hws)
  obtain ⟨hslug, hsame⟩ := h.segment ht
  have hspells : Spells (spellExternalId (strip isSpace named.ticketPrefix)
      (milestoneSegmentFor w t).2 t.ticketNumber) ws.ticketPrefix t.ticketNumber := by
    rw [hnamed, strip_slug fun c hc => isSlugDash_of_isSlug (hspelt.2 c hc)]
    exact ⟨hspelt, spellExternalId_eq hspelt hslug⟩
  rw [TicketIds.spell, hget]
  dsimp only
  rcases hsame with hsame | ⟨j, code, hcode, hsame⟩
  · rw [hsame]
    exact h.handOut hothers ht hid hn hmoving hws hspells hleft
  · rw [hsame]
    have h' := h.setCode (i := j) hcode
    have hrow := fun x : Ticket => mem_setTicket (w := w) (i := j) (x := x)
      (fun t => { t with milestoneCode := code }) fun _ => rfl
    by_cases hj : t.id = j
    · exact h'.handOut hothers ((hrow _).mpr (.inr ⟨t, ht, hj, rfl⟩)) hid hn hmoving hws hspells
        hleft
    · exact h'.handOut hothers ((hrow _).mpr (.inl ⟨ht, hj⟩)) hid hn hmoving hws hspells hleft

end

/-! ## The calls, ticket by ticket -/

theorem Sound.congr {stage' : Nat → Stage}
    (heq : ∀ t ∈ w.tickets.rows, stage t.id = stage' t.id) : Sound stage' w :=
  { h with rows := fun t ht => heq t ht ▸ h.rows t ht }

omit h in
theorem getElem?_nextTicketNumber (hws : w.workspaces[k]? = some ws) :
    (nextTicketNumber w k ws).1.workspaces[k]? =
      some { ws with lastTicketNumber := (nextTicketNumber w k ws).2 } := by
  simp [nextTicketNumber, hws]

theorem Sound.giveNumber (ht : t ∈ w.tickets.rows) (hid : t.id = i)
    (hn : t.ticketNumber = 0) (hnaming : ¬ (stage i).Naming) (hmoving : stage i ≠ .moving)
    (hws : w.workspaces[t.workspaceId]? = some ws) :
    Sound (Function.update stage i (stage i).numbered)
      ((nextTicketNumber w t.workspaceId ws).1.setTicket i
        (fun r => { r with ticketNumber := (nextTicketNumber w t.workspaceId ws).2 })
        fun _ => rfl) := by
  have hlt : ws.lastTicketNumber < (nextTicketNumber w t.workspaceId ws).2 :=
    lt_succ_of_le (le_max_left _ _)
  refine (h.raise hws hlt.le).setTicket _ _ fun r hr hrid hok => ?_
  obtain rfl := Keyed.eq_of_id (t := w.tickets) hr ht (hrid.trans hid.symm)
  have hun : Unspelled w.issued r := by
    cases hok.numbering with
    | none hun _ => exact hun
    | fresh _ _ hrange | used _ hrange =>
      exact absurd hn (one_le_iff_ne_zero.mp hrange.choose_spec.2.1)
  obtain ⟨hnumbered, hnot⟩ :=
    Stage.naming_numbered (fun hs => (hok.current hs).1 hn) hnaming hmoving
  refine ⟨hok.housed, hok.coded, .fresh hnumbered hun ?_ ?_, fun hs => absurd hs hnot,
    hok.spelled, hok.legacy, ?_, fun haway => hok.away (Stage.away_of_numbered haway), fun _ => hun⟩
  · exact ⟨_, getElem?_nextTicketNumber hws,
      le_trans (succ_le_succ (zero_le _)) hlt, le_refl _⟩
  · -- every number handed out is behind the counter
    intro e he hw
    obtain ⟨-, ws', hws', hle, -⟩ := h.issue e he
    obtain rfl := some.inj (hws.symm.trans (hw ▸ hws'))
    exact (lt_of_le_of_lt hle hlt).ne
  · intro hsupplied
    refine ⟨(hok.left hsupplied).1, fun s hs => ?_⟩
    obtain ⟨hne, hkept⟩ := (hok.left hsupplied).2 s hs
    exact ⟨hne, hkept.imp_right fun ⟨_, hrest⟩ => ⟨hnot, hrest⟩⟩

/-- **`assign_external_id` gives a ticket without an id one.** -/
theorem Sound.assign (hnaming : ∀ j, ¬ (stage j).Naming)
    (hmoving : stage i ≠ .moving) (supplied : Word)
    (hsupplied : strip isSpace supplied ≠ [] → Foreign w.workspaces (strip isSpace supplied) ∧
      ∀ t ∈ w.tickets.rows, t.id = i → t.supplied = true)
    (hleft : ∀ t ∈ w.tickets.rows, t.id = i → t.supplied = false →
      ∀ s, t.leftAs = some s → t.legacyExternalId = s) :
    Sound (Function.update stage i (stage i).spelled) (assignExternalId w i supplied) := by
  rw [assignExternalId]
  cases hget : w.tickets.get i with
  | none =>
    refine h.congr fun t ht => ?_
    have hne : t.id ≠ i := by
      rintro rfl
      rw [Keyed.get_of_mem ht] at hget
      cases hget
    rw [update_of_ne hne]
  | some t =>
    obtain ⟨ht, hid⟩ := Keyed.get_eq_some hget
    obtain ⟨ws, hws⟩ : ∃ ws, w.workspaces[t.workspaceId]? = some ws :=
      ⟨_, List.getElem?_eq_getElem (h.rows t ht).housed⟩
    dsimp only
    rw [hws]
    dsimp only
    -- first the supplied id
    obtain ⟨w₁, hw₁⟩ : ∃ w₁, w₁ = (if (strip isSpace supplied).isEmpty then w
      else w.setTicket i (fun t => { t with legacyExternalId := strip isSpace supplied })
        fun _ => rfl) := ⟨_, rfl⟩
    have h₁ : Sound stage w₁ ∧ w₁.workspaces = w.workspaces ∧ ∃ t₁ ∈ w₁.tickets.rows, t₁.id = i ∧
        t₁.workspaceId = t.workspaceId ∧ t₁.ticketNumber = t.ticketNumber ∧
        (t₁.supplied = false → ∀ s, t₁.leftAs = some s → t₁.legacyExternalId = s) := by
      rw [hw₁]
      split_ifs with hempty
      · exact ⟨h, rfl, t, ht, hid, rfl, rfl, hleft t ht hid⟩
      · obtain ⟨hforeign, hflag⟩ := hsupplied fun hnil => hempty (by rw [hnil]; rfl)
        refine ⟨h.setTicket_same _ fun r hr hrid hok => ?_, rfl, _,
          (mem_setTicket (fun t => { t with legacyExternalId := strip isSpace supplied })
            fun _ => rfl).mpr (.inr ⟨t, ht, hid, rfl⟩), hid, rfl, rfl, fun hfalse => ?_⟩
        · refine ⟨hok.housed, hok.coded, hok.numbering.same ⟨rfl, rfl, rfl, rfl⟩, hok.current,
            hok.spelled, .inl hforeign, fun hfalse => ?_, hok.away, hok.between⟩
          exact absurd (hflag r hr hrid) (Bool.eq_false_iff.mp hfalse)
        · exact absurd (hflag t ht hid) (Bool.eq_false_iff.mp hfalse)
    rw [← hw₁]
    obtain ⟨h₁, hwss, t₁, ht₁, hid₁, hw, hnum, hleft₁⟩ := h₁
    have hws₁ : w₁.workspaces[t₁.workspaceId]? = some ws := by rw [hwss, hw, hws]
    by_cases hn : t.ticketNumber = 0
    · -- then the number, and the id under it
      rw [if_pos hn, ← hw]
      have h₂ := h₁.giveNumber ht₁ hid₁ (hnum.trans hn) (hnaming i) hmoving hws₁
      have hmem := (mem_setTicket (w := (nextTicketNumber w₁ t₁.workspaceId ws).1) (i := i)
        (fun r => { r with ticketNumber := (nextTicketNumber w₁ t₁.workspaceId ws).2 })
        fun _ => rfl).mpr (.inr ⟨t₁, ht₁, hid₁, rfl⟩)
      have hothers : ∀ j, j ≠ i → ¬ (Function.update stage i (stage i).numbered j).Naming := by
        intro j hj
        rw [update_of_ne hj]
        exact hnaming j
      have hstill : Function.update stage i (stage i).numbered i ≠ .moving := by
        rw [update_self]
        exact Stage.numbered_ne_moving hmoving
      have h₃ := h₂.spell hothers hmem hid₁ (succ_ne_zero _) hstill
        (getElem?_nextTicketNumber hws₁) hleft₁ ws rfl
      rw [update_self, Stage.spelled_numbered, Function.update_idem] at h₃
      exact h₃
    · rw [if_neg hn]
      exact h₁.spell (fun j _ => hnaming j) ht₁ hid₁ (hnum ▸ hn) hmoving hws₁ hleft₁ ws rfl

theorem Sound.settle (hid : ∀ j, (stage j).HasId) : Settled w := by
  refine { h with rows := fun t ht => ?_ }
  have hok := h.rows t ht
  have hnaming : ¬ (stage t.id).Naming ∧ stage t.id ≠ .moving := by
    rcases hid t.id with hs | hs <;> rw [hs] <;> simp [Stage.Naming]
  refine ⟨hok.housed, hok.coded, ?_, fun _ => hok.current (hid t.id), hok.spelled, hok.legacy, ?_,
    fun haway => absurd haway (by simp [Stage.Away]), fun hs => absurd hs (by simp)⟩
  · cases hok.numbering with
    | none hu hn => exact .none hu (.inl (hn.resolve_right hnaming.2))
    | fresh hs => exact absurd hs hnaming.1
    | used hu hrange => exact .used hu hrange
  · intro hsupplied
    refine ⟨(hok.left hsupplied).1, fun s hs => ?_⟩
    obtain ⟨hne, hkept⟩ := (hok.left hsupplied).2 s hs
    exact ⟨hne, .inl (hkept.resolve_right fun hnot => hnot.1 (hid t.id))⟩

omit h in
theorem Settled.respell (h : Settled w) (i : Nat) : Settled (respellExternalId w i) := by
  rw [respellExternalId]
  cases hget : w.tickets.get i with
  | none => exact h
  | some t =>
    obtain ⟨ht, hid⟩ := Keyed.get_eq_some hget
    have hok := h.rows t ht
    obtain ⟨ws, hws⟩ : ∃ ws, w.workspaces[t.workspaceId]? = some ws :=
      ⟨_, List.getElem?_eq_getElem hok.housed⟩
    have hleft : t.supplied = false → ∀ s, t.leftAs = some s → t.legacyExternalId = s :=
      fun hsupplied s hs =>
        ((hok.left hsupplied).2 s hs).2.resolve_right fun hnot => hnot.1 (.inl rfl)
    dsimp only
    rw [hws]
    exact (Sound.spell h (fun _ _ => by simp [Stage.Naming]) ht hid (hok.current (.inl rfl)).1
      (by simp) hws hleft ws rfl).settle fun j => by
        by_cases hj : j = i
        · rw [hj, update_self]
          exact .inl rfl
        · rw [update_of_ne hj]
          exact .inl rfl

omit h in
theorem Settled.respellSubtree (h : Settled w) (i : Nat) : Settled (respellSubtree w i) := by
  rw [TicketIds.respellSubtree]
  generalize i :: levels w (w.tickets.rows.length + 1) [i] [i] = items
  induction items generalizing w with
  | nil => exact h
  | cons j items ih =>
    rw [List.foldl_cons]
    refine ih ?_
    by_cases hn : (w.tickets.get j).any (·.ticketNumber ≠ 0)
    · rw [if_pos hn]
      exact h.respell j
    · rw [if_neg hn]
      exact h

theorem Sound.setParent (i : Nat) (parent : Option Nat) :
    Sound stage (w.setTicket i (fun t => { t with parentTicketId := parent }) fun _ => rfl) := by
  refine h.setTicket_same _ fun r _ _ hr => ?_
  exact ⟨hr.housed, hr.coded, hr.numbering.same ⟨rfl, rfl, rfl, rfl⟩, hr.current, hr.spelled,
    hr.legacy, hr.left, hr.away, hr.between⟩

omit h in
theorem Settled.reparent (h : Settled w) (i : Nat) (parent : Option Nat) (legal : Bool) :
    Settled (reparentTicket w i parent legal) := by
  rw [reparentTicket]
  cases w.tickets.get i with
  | none => exact h
  | some t =>
    dsimp only
    split_ifs
    · exact Settled.respellSubtree (h.setParent i parent) i
    · exact h

/-! ## Moving a subtree -/

omit h in
theorem Sound.foldl {f : World → Nat → World} {after : Stage} (before : Stage → Prop)
    (P : (Nat → Stage) → World → Prop) (hafter : before after)
    (hstep : ∀ (stage : Nat → Stage) (w : World) (i : Nat), Sound stage w → P stage w →
      before (stage i) → Sound (Function.update stage i after) (f w i) ∧
        P (Function.update stage i after) (f w i)) (l : List Nat) :
    ∀ (stage : Nat → Stage) (w : World), Sound stage w → P stage w → (∀ j ∈ l, before (stage j)) →
      Sound (fun j => if j ∈ l then after else stage j) (l.foldl f w) ∧
        P (fun j => if j ∈ l then after else stage j) (l.foldl f w) := by
  induction l with
  | nil =>
    intro stage w h hP _
    simpa using And.intro h hP
  | cons i l ih =>
    intro stage w h hP hbefore
    obtain ⟨h', hP'⟩ := hstep stage w i h hP (hbefore i List.mem_cons_self)
    have hrest := ih _ _ h' hP' fun j hj => by
      by_cases hji : j = i
      · rw [hji, update_self]
        exact hafter
      · rw [update_of_ne hji]
        exact hbefore j (List.mem_cons_of_mem _ hj)
    have hsame : (fun j => if j ∈ l then after else Function.update stage i after j) =
        fun j => if j ∈ i :: l then after else stage j := by
      funext j
      by_cases hji : j = i
      · simp [hji]
      · simp [hji]
    rwa [hsame] at hrest

omit h in
theorem RowOk.issued_le {s : Stage}
    (h : RowOk workspaces issued s t) (he : e ∈ issued) (hid : e.ticket = t.id) :
    e.moves ≤ t.moves := by
  cases h.numbering with
  | none hu | fresh _ hu => exact (hu e he hid).le
  | used hu => exact (hu.since e he hid).1

theorem Sound.spells_of_mem (he : e ∈ w.issued) : ∃ first, Spells e.spelling first e.number := by
  obtain ⟨-, ws, -, -, hs⟩ := h.issue e he
  exact ⟨_, hs⟩

omit h in
theorem Spells.strip_ne_nil {s first : Word} {n : Nat} (h : Spells s first n) :
    strip isSpace s ≠ [] := by
  rw [strip_slug h.isSlugDash]
  exact h.ne_nil

theorem Sound.arrive {destination : Nat}
    (hdest : destination < w.workspaces.length) (hs : stage i = .settled ∨ stage i = .moving) :
    Sound (Function.update stage i .moving) (arrive destination w i) := by
  refine h.setTicket _ _ fun r hr hrid hok => ?_
  have hun : ∀ e ∈ w.issued, e.ticket = r.id → e.moves < r.moves + 1 := fun e he hid =>
    lt_succ_of_le (hok.issued_le he hid)
  refine ⟨hdest, hok.coded, .none hun (.inr rfl), fun hid => absurd hid (by simp [Stage.HasId]),
    hok.spelled, hok.legacy, fun hsupplied => ⟨fun hnone => ?_, fun s hleft => ?_⟩, fun _ => ?_,
    fun _ => hun⟩
  · exact absurd hnone (by cases r.leftAs <;> simp)
  · cases hold : r.leftAs with
    | none =>
      -- its first move: the id it bears is remembered
      rw [hold, none_or] at hleft
      obtain rfl := some.inj hleft
      rcases hs with hs | hs
      · have hissue := (hok.current (.inl hs)).2
        obtain ⟨first, hspells⟩ := h.spells_of_mem hissue
        exact ⟨hspells.strip_ne_nil, .inr ⟨by simp [Stage.HasId], (hok.left hsupplied).1 hold, rfl⟩⟩
      · exact absurd hold (hok.away (.inl hs))
    | some s' =>
      rw [hold, some_or] at hleft
      obtain rfl := some.inj hleft
      obtain ⟨hne, hkept⟩ := (hok.left hsupplied).2 s' hold
      exact ⟨hne, hkept.imp_right fun hnot => ⟨by simp [Stage.HasId], hnot.2⟩⟩
  · cases r.leftAs <;> simp

theorem Sound.unnumber (hs : stage i = .moving ∨ stage i = .waiting) :
    Sound (Function.update stage i .waiting) (unnumber w i) := by
  refine h.setTicket _ _ fun r hr hrid hok => ?_
  have hun : Unspelled w.issued r := hok.between hs
  have haway : (stage i).Away := hs.imp_right .inl
  refine ⟨hok.housed, ?_, .none hun (.inl rfl), fun hid => absurd hid (by simp [Stage.HasId]),
    hok.spelled, hok.legacy, fun hsupplied => ⟨(hok.left hsupplied).1, fun s hleft => ?_⟩,
    fun _ => hok.away haway, fun _ => hun⟩
  · show ∀ c ∈ (if r.isMilestone then [] else r.milestoneCode), isSlugDash c = true
    split_ifs
    · intro c hc
      cases hc
    · exact hok.coded
  · obtain ⟨hne, hkept⟩ := (hok.left hsupplied).2 s hleft
    exact ⟨hne, hkept.imp_right fun hnot => ⟨by simp [Stage.HasId], hnot.2⟩⟩

omit h in
theorem foreign_nil (workspaces : List Workspace) : Foreign workspaces [] := by
  intro ws _ hparse
  cases hparse

theorem Sound.keepLegacy (hs : stage i = .waiting ∨ stage i = .reissued) :
    Sound stage (w.setTicket i (fun t =>
      { t with legacyExternalId :=
          if (strip isSpace t.legacyExternalId).isEmpty then t.externalId
          else t.legacyExternalId }) fun _ => rfl) ∧
    ∀ t ∈ (w.setTicket i (fun t =>
      { t with legacyExternalId :=
          if (strip isSpace t.legacyExternalId).isEmpty then t.externalId
          else t.legacyExternalId }) fun _ => rfl).tickets.rows, t.id = i →
      t.supplied = false → ∀ s, t.leftAs = some s → t.legacyExternalId = s := by
  have haway : (stage i).Away := by
    rcases hs with hs | hs <;> rw [hs] <;> simp [Stage.Away]
  -- the column holds the id the ticket first left under, once it is written
  have hkept : ∀ r ∈ w.tickets.rows, r.id = i → r.supplied = false → ∀ s, r.leftAs = some s →
      (if (strip isSpace r.legacyExternalId).isEmpty then r.externalId
        else r.legacyExternalId) = s := by
    intro r hr hid hsupplied s hleft
    obtain ⟨hne, hkept⟩ := ((hid ▸ h.rows r hr).left hsupplied).2 s hleft
    rcases hkept with hkept | ⟨-, hnil, hkept⟩
    · rw [hkept, if_neg (by simpa using hne)]
    · rw [hnil, if_pos (by rfl), hkept]
  refine ⟨h.setTicket_same _ fun r hr hrid hok => ?_, ?_⟩
  · refine ⟨hok.housed, hok.coded, hok.numbering.same ⟨rfl, rfl, rfl, rfl⟩, hok.current,
      hok.spelled, ?_, fun hsupplied => ⟨?_, ?_⟩, hok.away, hok.between⟩
    · dsimp only
      split_ifs with hempty
      · rcases hok.spelled with hnil | hissued
        · rw [hnil]
          exact .inl (foreign_nil _)
        · exact .inr hissued
      · exact hok.legacy
    · exact fun hnone => absurd hnone (hok.away haway)
    · intro s hleft
      exact ⟨((hok.left hsupplied).2 s hleft).1, .inl (hkept r hr hrid hsupplied s hleft)⟩
  · intro t ht hid
    rcases (mem_setTicket _ _).mp ht with ⟨-, hne⟩ | ⟨r, hr, hrid, rfl⟩
    · exact absurd hid hne
    · exact hkept r hr hrid

theorem Sound.reissueOne (hnaming : ∀ j, ¬ (stage j).Naming)
    (hs : stage i = .waiting ∨ stage i = .reissued) :
    Sound (Function.update stage i .reissued) (reissueOne w i) := by
  obtain ⟨hkeep, hleft⟩ := h.keepLegacy hs
  have hmoving : stage i ≠ .moving := by
    rcases hs with hs | hs <;> rw [hs] <;> simp
  have hspelled : (stage i).spelled = .reissued := by
    rcases hs with hs | hs <;> rw [hs] <;> rfl
  rw [← hspelled]
  exact hkeep.assign hnaming hmoving [] (fun hne => absurd rfl hne) hleft

end

/-- **Moving a subtree to another workspace keeps the tables sound.** -/
theorem Settled.move (h : Settled w) (i destination : Nat) (newParent : Option Nat)
    (detach legal : Bool) :
    Settled (moveTicketWorkspace w i destination newParent detach legal) := by
  rw [moveTicketWorkspace]
  cases w.tickets.get i with
  | none => exact h
  | some ticket =>
    dsimp only
    split_ifs with hallowed
    · have hdest : destination < w.workspaces.length := by
        simp only [Bool.and_eq_true, decide_eq_true_eq] at hallowed
        exact hallowed.1.2
      have h₀ := Sound.setParent h i newParent
      generalize i :: descendants _ _ _ = moved
      -- first every ticket arrives, then each loses its number, then each gets its id
      obtain ⟨h₁, -⟩ := Sound.foldl (fun s => s = .settled ∨ s = .moving)
        (fun _ w => destination < w.workspaces.length) (.inr rfl)
        (fun _ _ _ h hdest hs => ⟨h.arrive hdest hs, hdest⟩) moved _ _ h₀ hdest
        fun _ _ => .inl rfl
      obtain ⟨h₂, -⟩ := Sound.foldl (fun s => s = .moving ∨ s = .waiting)
        (fun _ _ => True) (.inr rfl) (fun _ _ _ h _ hs => ⟨h.unnumber hs, trivial⟩) moved _ _ h₁
        trivial fun j hj => .inl (if_pos hj)
      have hnaming : ∀ j, ¬ Stage.Naming (if j ∈ moved then Stage.waiting
          else if j ∈ moved then .moving else .settled) := by
        intro j
        split_ifs <;> simp [Stage.Naming]
      obtain ⟨h₃, -⟩ := Sound.foldl (fun s => s = .waiting ∨ s = .reissued)
        (fun stage _ => ∀ j, ¬ (stage j).Naming) (.inr rfl)
        (fun stage w i h hnaming hs => ⟨h.reissueOne hnaming hs, fun j => by
          by_cases hj : j = i
          · rw [hj, update_self]
            simp [Stage.Naming]
          · rw [update_of_ne hj]
            exact hnaming j⟩) moved _ _ h₂ hnaming fun j hj => .inl (if_pos hj)
      refine h₃.settle fun j => ?_
      split_ifs
      · exact .inr rfl
      · exact .inl rfl
    · exact h

section

variable (h : Settled w) (hid : t.id = w.tickets.next) (hws : t.workspaceId < w.workspaces.length)
  (hcode : t.milestoneCode = []) (hnumber : t.ticketNumber = 0) (hext : t.externalId = [])
  (hlegacy : t.legacyExternalId = [])
include h hid hws hcode hnumber hext hlegacy

theorem Settled.insert
    (hleft : t.leftAs = none) :
    Sound (Function.update (fun _ => .settled) w.tickets.next .created)
      { w with tickets := w.tickets.insert t hid } where
  prefixes := h.prefixes
  owned := h.owned
  issue := fun e he => ⟨lt_succ_of_lt (h.issue e he).1, (h.issue e he).2⟩
  rows := by
    intro r hr
    have hun : Unspelled w.issued t := fun e he htid =>
      absurd ((htid.trans hid) ▸ (h.issue e he).1) (lt_irrefl _)
    rcases (Keyed.mem_insert hid).mp hr with hmem | rfl
    · rw [update_of_ne (w.tickets.fresh r hmem).ne]
      exact h.rows r hmem
    · rw [hid, update_self]
      refine ⟨hws, ?_, .none hun (.inl hnumber), fun hs => absurd hs (by simp [Stage.HasId]),
        .inl hext, .inl (hlegacy ▸ foreign_nil _), fun _ => ⟨fun _ => hlegacy, ?_⟩,
        fun hs => absurd hs (by simp [Stage.Away]), fun hs => absurd hs (by simp)⟩
      · intro c hc
        rw [hcode] at hc
        cases hc
      · intro s hs
        rw [hleft] at hs
        cases hs

theorem Settled.insert_assign
    (hleft : t.leftAs = none) {supplied : Word}
    (hforeign : Foreign w.workspaces (strip isSpace supplied))
    (hflag : t.supplied = !(strip isSpace supplied).isEmpty) :
    Settled (assignExternalId { w with tickets := w.tickets.insert t hid } w.tickets.next
      supplied) := by
  have hnew := h.insert hid hws hcode hnumber hext hlegacy hleft
  -- the new row is the only one under the new id
  have honly : ∀ r ∈ (w.tickets.insert t hid).rows, r.id = w.tickets.next → r = t :=
    fun r hr hrid => ((Keyed.mem_insert hid).mp hr).resolve_left fun hmem =>
      (w.tickets.fresh r hmem).ne hrid
  have hnaming : ∀ j, ¬ (Function.update (fun _ => Stage.settled) w.tickets.next
      .created j).Naming := by
    intro j
    by_cases hj : j = w.tickets.next
    · rw [hj, update_self]
      simp [Stage.Naming]
    · rw [update_of_ne hj]
      simp [Stage.Naming]
  have hmoving : Function.update (fun _ => Stage.settled) w.tickets.next .created
      w.tickets.next ≠ .moving := by
    simp
  have hassigned := hnew.assign hnaming hmoving supplied
    (fun hne => ⟨hforeign, fun r hr hrid => by
      rw [honly r hr hrid, hflag]
      simpa using hne⟩)
    (fun r hr hrid _ s hs => by
      rw [honly r hr hrid, hleft] at hs
      cases hs)
  refine hassigned.settle fun j => ?_
  by_cases hj : j = w.tickets.next
  · rw [hj, update_self]
    exact Stage.hasId_spelled _
  · rw [update_of_ne hj, update_of_ne hj]
    exact .inl rfl

end

theorem Settled.create (h : Settled w) (workspace : Nat) (isMilestone : Bool) (title : Word)
    (parent : Option Nat) {supplied : Word}
    (hforeign : Foreign w.workspaces (strip isSpace supplied)) :
    Settled (createTicket w workspace isMilestone title parent supplied) := by
  rw [createTicket]
  split_ifs with hws
  · exact h.insert_assign rfl hws rfl rfl rfl rfl rfl hforeign rfl
  · exact h

theorem Settled.delete (h : Settled w) (i : Nat) :
    Settled { w with tickets := w.tickets.delete i } :=
  { h with rows := fun t ht => h.rows t (List.mem_filter.mp ht).1 }

/-- No id from elsewhere that reads like one of a workspace. -/
def Fits (w : World) : Call → Prop
  | .create _ _ _ _ suppliedId => Foreign w.workspaces (strip isSpace suppliedId)
  | _ => True

/-- **Every call keeps the tables sound.** -/
theorem Settled.step {call : Call} (h : Settled w) (hs : Guarded Step Fits w call w') :
    Settled w' := by
  obtain ⟨hfits, rfl⟩ := hs
  cases call with
  | create workspace isMilestone title parent supplied =>
    exact h.create workspace isMilestone title parent hfits
  | reparent ticket parent legal => exact h.reparent ticket parent legal
  | move ticket destination newParent detach legal =>
    exact h.move ticket destination newParent detach legal
  | delete ticket => exact h.delete ticket

theorem settled_of_run {calls : List Call} (hp : PrefixesFit workspaces)
    (hr : Run (Guarded Step Fits) { workspaces := workspaces } calls w) : Settled w := by
  have h0 : Settled { workspaces := workspaces } := by
    refine ⟨hp, ?_, ?_, ?_⟩
    · intro t ht
      cases ht
    · intro e he
      cases he
    · intro e he
      cases he
  exact Run.invariant (P := Settled) (fun _ _ _ => Settled.step) h0 hr

/-! ## Resolving an issued id -/

variable {e : Issue}

section

variable (h : Settled w)
include h

theorem Settled.workspace_inj {j : Nat} {ws' : Workspace} (hj : w.workspaces[j]? = some ws)
    (hk : w.workspaces[k]? = some ws') (hspelt : ws.ticketPrefix = ws'.ticketPrefix) : j = k := by
  have hmap : ∀ (j : Nat) (ws : Workspace), w.workspaces[j]? = some ws →
      (w.workspaces.map ticketPrefix)[j]? = some ws.ticketPrefix := by
    intro j ws hj
    rw [List.getElem?_map, hj]
    rfl
  have hlt : j < (w.workspaces.map ticketPrefix).length :=
    (List.getElem?_eq_some_iff.mp (hmap _ _ hj)).1
  exact (List.getElem?_inj hlt h.prefixes.2).mp
    ((hmap _ _ hj).trans ((congrArg some hspelt).trans (hmap _ _ hk).symm))

section

variable (he : e ∈ w.issued)
include he

/-- **One spelling, one number**: equal ids were handed out under the same number of the
    same workspace. -/
theorem Settled.same_number {e' : Issue} (he' : e' ∈ w.issued)
    (hs : e.spelling = e'.spelling) : e.workspace = e'.workspace ∧ e.number = e'.number := by
  obtain ⟨-, ws, hws, -, hspells⟩ := h.issue e he
  obtain ⟨-, ws', hws', -, hspells'⟩ := h.issue e' he'
  obtain ⟨hspelt, hnumber⟩ := (hs ▸ hspells).inj hspells'
  refine ⟨?_, hnumber⟩
  exact h.workspace_inj hws hws' hspelt

theorem Settled.same_ticket {e' : Issue} (he' : e' ∈ w.issued)
    (hs : e.spelling = e'.spelling) : e.ticket = e'.ticket :=
  h.owned e he e' he' (h.same_number he he' hs).1 (h.same_number he he' hs).2

theorem Settled.of_externalId (ht : t ∈ w.tickets.rows)
    (hs : t.externalId = e.spelling) : t.id = e.ticket := by
  exact h.same_ticket ((h.rows t ht).current (.inl rfl)).2 he hs

theorem Settled.of_legacy (ht : t ∈ w.tickets.rows)
    (hs : t.legacyExternalId = e.spelling) : t.id = e.ticket := by
  obtain ⟨-, ws, hws, -, hspells⟩ := h.issue e he
  rcases (h.rows t ht).legacy with hforeign | ⟨e', he', hid, hs'⟩
  · rw [hs] at hforeign
    exact absurd hspells.parseWorkspacePrefix_eq (hforeign ws (List.mem_of_getElem? hws))
  · exact hid ▸ h.same_ticket he' he (hs'.trans hs)

end

theorem Settled.numbered (ht : t ∈ w.tickets.rows) : Numbered w.issued t := by
  have hissue := ((h.rows t ht).current (.inl rfl)).2
  cases (h.rows t ht).numbering with
  | none hu | fresh _ hu => exact absurd (hu _ hissue rfl) (lt_irrefl _)
  | used hu => exact hu

omit h in
theorem head?_ticketsSpelled {column : Ticket → Word} {ref : Word} (hlower : lower ref = ref)
    (ht : t ∈ w.tickets.rows) (honly : ∀ r ∈ w.tickets.rows, column r = ref → r = t) :
    (ticketsSpelled w column ref).head? = if column t = ref then some t else none := by
  have hmem : ∀ r, r ∈ ticketsSpelled w column ref ↔ r ∈ w.tickets.rows ∧ column r = ref := by
    intro r
    rw [ticketsSpelled, mem_ranked, List.mem_filter, hlower, decide_eq_true_eq, or_self]
  cases hrows : ticketsSpelled w column ref with
  | nil =>
    split_ifs with hcol
    · have hin := (hmem t).mpr ⟨ht, hcol⟩
      rw [hrows] at hin
      cases hin
    · rfl
  | cons r rest =>
    obtain ⟨hr, hcol⟩ := (hmem r).mp (hrows ▸ List.mem_cons_self)
    obtain rfl := honly r hr hcol
    rw [if_pos hcol]
    rfl

theorem Settled.findIdx?_prefix (hws : w.workspaces[e.workspace]? = some ws) :
    w.workspaces.findIdx? (·.ticketPrefix = ws.ticketPrefix) = some e.workspace := by
  obtain ⟨hlt, hget⟩ := List.getElem?_eq_some_iff.mp hws
  refine List.findIdx?_eq_some_iff_getElem.mpr ⟨hlt, by simp [hget], fun j hj heq => ?_⟩
  have hj' : j < w.workspaces.length := hj.trans hlt
  exact hj.ne (h.workspace_inj (List.getElem?_eq_getElem hj') hws (of_decide_eq_true heq))

/-- **What an issued id resolves to**: its ticket, while a column or the number says so. -/
theorem Settled.resolve_issued (he : e ∈ w.issued) (ht : t ∈ w.tickets.rows)
    (hid : t.id = e.ticket) :
    resolve w e.spelling =
      if t.externalId = e.spelling ∨ t.legacyExternalId = e.spelling ∨
        t.workspaceId = e.workspace ∧ t.ticketNumber = e.number then some t else none := by
  obtain ⟨-, ws, hws, -, hspells⟩ := h.issue e he
  have hstrip := strip_slug hspells.isSlugDash
  have hlower := lower_eq_self hspells.isSlugDash
  have hsame : ∀ r ∈ w.tickets.rows, r.id = e.ticket → r = t := fun r hr hrid =>
    Keyed.eq_of_id hr ht (hrid.trans hid.symm)
  have hcolumn := head?_ticketsSpelled hlower ht fun r hr hcol =>
    hsame r hr (h.of_externalId he hr hcol)
  have hlegacy := head?_ticketsSpelled hlower ht fun r hr hcol =>
    hsame r hr (h.of_legacy he hr hcol)
  have hnumber : byNumber w e.spelling =
      if t.workspaceId = e.workspace ∧ t.ticketNumber = e.number then some t else none := by
    rw [byNumber, hlower, hspells.parseWorkspacePrefix_eq, hspells.parseTicketNumber_eq]
    dsimp only
    rw [h.findIdx?_prefix hws]
    show (w.tickets.rows.find? fun r => r.workspaceId = e.workspace ∧ r.ticketNumber = e.number) = _
    cases hfound : w.tickets.rows.find? fun r =>
        r.workspaceId = e.workspace ∧ r.ticketNumber = e.number with
    | none =>
      have hnot := List.find?_eq_none.mp hfound t ht
      rw [if_neg (by simpa using hnot)]
    | some r =>
      have hr := List.mem_of_find?_eq_some hfound
      have hrow := List.find?_some hfound
      obtain ⟨hw, hn⟩ := of_decide_eq_true hrow
      obtain rfl := hsame r hr ((h.numbered hr).only e he hw.symm hn.symm).1.symm
      rw [if_pos ⟨hw, hn⟩]
  rw [resolve, hstrip]
  rw [if_neg (by simpa using hspells.ne_nil), hcolumn, hlegacy, hnumber]
  by_cases h1 : t.externalId = e.spelling
  · simp [h1]
  · by_cases h2 : t.legacyExternalId = e.spelling
    · simp [h1, h2]
    · simp [h1, h2]

end

/-- Every id handed out to a ticket that is there resolves to it. -/
def AllResolve (w : World) : Prop :=
  ∀ e ∈ w.issued, ∀ t ∈ w.tickets.rows, t.id = e.ticket → resolve w e.spelling = some t

instance (w : World) : Decidable (AllResolve w) := by
  unfold AllResolve
  infer_instance

/-- **Shared ids keep resolving.** While no id from elsewhere reads like one of a workspace, an id
    handed out to a ticket resolves to it or to nothing, and to it when the ticket has not left the
    workspace since, when it is the first id it left one under, or when its legacy column holds
    it. -/
theorem shared_ids_resolve {workspaces : List Workspace} {calls : List Call}
    (hp : PrefixesFit workspaces)
    (hr : Run (Guarded Step Fits) { workspaces := workspaces } calls w) :
    ∀ e ∈ w.issued, ∀ t ∈ w.tickets.rows, t.id = e.ticket →
      (resolve w e.spelling = none ∨ resolve w e.spelling = some t) ∧
      (e.moves = t.moves ∨ (t.supplied = false ∧ t.leftAs = some e.spelling) ∨
        t.legacyExternalId = e.spelling → resolve w e.spelling = some t) := by
  intro e he t ht hid
  have h := settled_of_run hp hr
  rw [h.resolve_issued he ht hid]
  constructor
  · split_ifs
    · exact .inr rfl
    · exact .inl rfl
  · rintro (hmoves | ⟨hsupplied, hleft⟩ | hlegacy)
    · -- no move since: the number is the one it was handed out under
      obtain ⟨hw, hn⟩ := ((h.numbered ht).since e he hid.symm).2 hmoves
      exact if_pos (.inr (.inr ⟨hw.symm, hn.symm⟩))
    · have hkept := (((h.rows t ht).left hsupplied).2 _ hleft).2
      exact if_pos (.inr (.inl (hkept.resolve_right fun hnot => hnot.1 (.inl rfl))))
    · exact if_pos (.inr (.inl hlegacy))

private def twoWorkspaces (first : String) : World :=
  { workspaces := [{ ticketPrefix := first.toList }, { ticketPrefix := "pri".toList }] }

private def thereAndBack : List Call :=
  [.create 0 false "a".toList none [], .move 0 1 none false true, .move 0 0 none false true]

theorem shared_ids_resolve_moved :
    (thereAndBack.foldl World.after (twoWorkspaces "lor")).issued ≠ [] ∧
    ∀ e ∈ (thereAndBack.foldl World.after (twoWorkspaces "lor")).issued,
      ∀ t ∈ (thereAndBack.foldl World.after (twoWorkspaces "lor")).tickets.rows, t.id = e.ticket →
      (resolve (thereAndBack.foldl World.after (twoWorkspaces "lor")) e.spelling = none ∨
        resolve (thereAndBack.foldl World.after (twoWorkspaces "lor")) e.spelling = some t) ∧
      (e.moves = t.moves ∨ (t.supplied = false ∧ t.leftAs = some e.spelling) ∨
        t.legacyExternalId = e.spelling →
          resolve (thereAndBack.foldl World.after (twoWorkspaces "lor")) e.spelling = some t) := by
  have hp : PrefixesFit (twoWorkspaces "lor").workspaces := by
    refine ⟨fun ws hws => ?_, by decide⟩
    simp only [twoWorkspaces, List.mem_cons, List.not_mem_nil, or_false] at hws
    rcases hws with rfl | rfl <;> exact ⟨by decide, List.all_eq_true.mp (by decide)⟩
  have hr : Run (Guarded Step Fits) (twoWorkspaces "lor") thereAndBack
      (thereAndBack.foldl World.after (twoWorkspaces "lor")) :=
    .cons ⟨foreign_nil _, rfl⟩ (.cons ⟨trivial, rfl⟩ (.cons ⟨trivial, rfl⟩ (.nil _)))
  exact ⟨by decide +kernel, shared_ids_resolve hp hr⟩

/-- One ticket goes under a milestone, and another comes with the id it had. -/
private def shadowed (first supplied : String) : List Call :=
  [.create 0 true "Gateway".toList none [], .create 0 false "a".toList none [],
    .reparent 1 (some 0) true, .create 0 false "b".toList none (first ++ supplied).toList]

/-- **The id in between is forgotten**; a supplied id shadows one a ticket had before it went
    under a milestone; and one with a prefix in upper case is not read back after that. -/
theorem middle_id_forgotten : ¬ AllResolve (thereAndBack.foldl World.after (twoWorkspaces "lor")) ∧
      ¬ AllResolve ((shadowed "lor" "-none-2").foldl World.after (twoWorkspaces "lor")) ∧
      ¬ AllResolve ((shadowed "" "").foldl World.after (twoWorkspaces "LOR")) := by
  decide +kernel

end Loregarden.TicketIds

