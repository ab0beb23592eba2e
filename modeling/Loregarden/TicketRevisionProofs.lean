import Loregarden.TicketRevisionModel

/-! # A revision names one content

Every edit leaves a row it loaded with the content it had or with a later revision (`Follows`). A
write that comes while the row still shows the revision its session loaded (`Fresh`) does the same
to the row, and a claimed one is later always. So along a run of such writes no revision goes back,
or is shown for two contents (`revision_names_content`). A write that comes later sets the revision
to a number computed from the older one, which may have been shown already. -/

namespace Loregarden.TicketRevision

open Runs List
open Lanes (TicketState)

variable {casefold : String → String} {a b c ticket edited row : Ticket} {w : World}
variable {body : UpdateTicketRequest} {e : Event}

/-- The later row has the content of the earlier one, or a later revision. -/
def Follows (a b : Ticket) : Prop :=
  a.revision ≤ b.revision ∧ (b.revision = a.revision → b.content = a.content)

theorem Follows.refl (a : Ticket) : Follows a a := ⟨le_rfl, fun _ => rfl⟩

theorem Follows.trans (h : Follows a b) (h' : Follows b c) : Follows a c := by
  refine ⟨h.1.trans h'.1, ?_⟩
  intro hsame
  have hfirst : b.revision = a.revision := le_antisymm (hsame ▸ h'.1) h.1
  have hsecond : c.revision = b.revision := hsame.trans hfirst.symm
  exact (h'.2 hsecond).trans (h.2 hfirst)

theorem Follows.of_content (hrevision : b.revision = a.revision)
    (hcontent : b.content = a.content) : Follows a b :=
  ⟨hrevision.ge, fun _ => hcontent⟩

theorem Follows.of_lt (h : a.revision < b.revision) : Follows a b :=
  ⟨h.le, fun hsame => absurd hsame h.ne'⟩

/-! ## What an edit does to the row it loaded -/

theorem follows_write (ticket : Ticket) (target : TicketState) (actor : String) :
    Follows ticket (write ticket target actor) := by
  unfold write
  split
  · exact .refl _
  · exact .of_lt (Nat.lt_succ_self _)

theorem follows_choose {target : TicketState} {actor : String}
    (h : choose ticket target actor = .ok edited) : Follows ticket edited := by
  unfold choose at h
  split at h
  · injection h with h
    exact h ▸ .refl _
  · split at h
    · exact nomatch h
    · injection h with h
      exact h ▸ follows_write _ _ _

theorem follows_derive (ticket : Ticket) (target : TicketState) (actor : String) :
    Follows ticket (derive ticket target actor) := by
  unfold derive
  split
  · exact .refl _
  · exact follows_write _ _ _

theorem applyContentEdits_spec (h : applyContentEdits casefold ticket body = .ok edited) :
    edited.revision = ticket.revision ∧ edited.priority = ticket.priority ∧
      edited.state = ticket.state := by
  unfold applyContentEdits at h
  dsimp only at h
  split at h
  · exact nomatch h
  · split at h
    · exact nomatch h
    · split at h
      · exact nomatch h
      · split at h
        · exact nomatch h
        · split at h
          · exact nomatch h
          · injection h with h
            subst h
            exact ⟨rfl, rfl, rfl⟩

/-- **A content edit that changes something counts.** -/
theorem follows_operatorEdits
    (h : applyOperatorEdits casefold ticket body = .ok edited) : Follows ticket edited := by
  unfold applyOperatorEdits at h
  split at h
  · exact nomatch h
  · rename_i content hcontent
    obtain ⟨hrevision, hpriority, hstate⟩ := applyContentEdits_spec hcontent
    dsimp only at h
    split at h
    · exact nomatch h
    · split at h
      · injection h with h
        subst h
        refine .of_lt ?_
        show ticket.revision < content.revision + 1
        rw [hrevision]
        exact Nat.lt_succ_self _
      · rename_i hsame
        injection h with h
        subst h
        have hfields : contentFields content = contentFields ticket := by
          by_contra hne
          exact hsame (.inl hne)
        injection hfields with htitle hrest
        injection hrest with hdescription hrest
        injection hrest with hcriteria htags
        refine .of_content hrevision ?_
        show Content.mk content.title content.description content.acceptanceCriteria content.tags
          content.priority content.state = ticket.content
        rw [htitle, hdescription, hcriteria, htags, hpriority, hstate]
        rfl

theorem follows_stateEdit
    (h : applyStateEdit ticket body = .ok edited) : Follows ticket edited := by
  -- a pin moves neither the content nor the revision
  have hpin : ∀ {t : Ticket} {locked : Bool}, Follows t { t with stateLocked := locked } :=
    .of_content rfl rfl
  have hpinned : Follows ticket (if body.autoState = some true then
      { ticket with stateLocked := false }
    else if body.autoState = some false ∨ body.state.isSome then
      { ticket with stateLocked := true }
    else ticket) := by
    split
    · exact hpin
    · split
      · exact hpin
      · exact .refl _
  unfold applyStateEdit at h
  dsimp only at h
  split at h
  · injection h with h
    exact h ▸ hpinned
  · split at h
    · exact nomatch h
    · rename_i chosen hchosen
      have hchoose := hpinned.trans (follows_choose hchosen)
      split at h
      · injection h with h
        exact h ▸ hchoose.trans hpin
      · injection h with h
        exact h ▸ hchoose

theorem follows_reparent {taken : Bool} (h : reparentTicket ticket taken = .ok edited) :
    Follows ticket edited := by
  unfold reparentTicket at h
  split at h
  · injection h with h
    exact h ▸ .of_lt (Nat.lt_succ_self _)
  · exact nomatch h

theorem follows_branch (ticket : Ticket) (body : UpdateTicketRequest) :
    Follows ticket (applyBranch ticket body) := by
  unfold applyBranch
  split
  · exact .refl _
  · exact .of_lt (Nat.lt_succ_self _)

theorem follows_stageEdits (ticket : Ticket) (body : UpdateTicketRequest) :
    Follows ticket (applyManualStageEdits ticket body) := by
  unfold applyManualStageEdits
  split
  · exact .refl _
  · exact follows_derive _ _ _

theorem follows_updateTicketManual
    (h : updateTicketManual casefold ticket body = .ok edited) : Follows ticket edited := by
  unfold updateTicketManual at h
  cases hoperator : applyOperatorEdits casefold ticket body with
  | error reason =>
    rw [hoperator] at h
    exact nomatch h
  | ok content =>
    rw [hoperator] at h
    have hcontent := follows_operatorEdits hoperator
    cases hstate : applyStateEdit content body with
    | error reason =>
      simp [hstate, bind, Except.bind] at h
    | ok moved =>
      have hmoved := hcontent.trans (follows_stateEdit hstate)
      cases hparent : body.parent.elim (.ok moved) (reparentTicket moved) with
      | error reason =>
        simp [hstate, hparent, bind, Except.bind] at h
      | ok placed =>
        have hplaced : Follows moved placed := by
          cases hbody : body.parent with
          | none =>
            rw [hbody] at hparent
            injection hparent with hparent
            exact hparent ▸ .refl _
          | some taken =>
            rw [hbody] at hparent
            exact follows_reparent hparent
        simp only [hstate, hparent, bind, Except.bind, pure, Except.pure] at h
        injection h with h
        subst h
        exact ((hmoved.trans hplaced).trans (follows_branch _ _)).trans
          (follows_stageEdits _ _)

theorem follows_edits (h : edits casefold ticket e = some edited) : Follows ticket edited := by
  cases e with
  | load session => exact nomatch h
  | edit session body expected =>
    cases hresult : updateTicketManual casefold ticket body with
    | error reason =>
      simp [edits, hresult, Except.toOption] at h
    | ok result =>
      simp only [edits, hresult, Except.toOption] at h
      injection h with h
      exact h ▸ follows_updateTicketManual hresult
  | choose session target actor =>
    cases hresult : choose ticket target actor with
    | error reason =>
      simp [edits, hresult, Except.toOption] at h
    | ok result =>
      simp only [edits, hresult, Except.toOption] at h
      injection h with h
      exact h ▸ follows_choose hresult
  | derive session target actor =>
    injection h with h
    exact h ▸ follows_derive _ _ _

/-! ## What a transaction does to the row -/

theorem flushed_self {α : Type} [DecidableEq α] {loaded edited row : α} (h : edited = loaded) :
    flushed loaded edited row = row :=
  if_pos h

theorem flush_content (h : edited.content = ticket.content) :
    (flush ticket edited row).content = row.content := by
  injection h with htitle hdescription hcriteria htags hpriority hstate
  simp only [Ticket.content, flush, flushed_self htitle, flushed_self hdescription,
    flushed_self hcriteria, flushed_self htags, flushed_self hpriority, flushed_self hstate]

section

variable (h : Follows ticket edited) (hfresh : row.revision = ticket.revision)
include h hfresh

/-- **An unguarded write of a row that still shows the revision it loaded.** -/
theorem follows_flush :
    Follows row (flush ticket edited row) := by
  by_cases hsame : edited.revision = ticket.revision
  · refine .of_content (flushed_self hsame) (flush_content (h.2 hsame))
  · refine .of_lt ?_
    show row.revision < flushed ticket.revision edited.revision row.revision
    rw [flushed, if_neg hsame, hfresh]
    exact lt_of_le_of_ne h.1 (Ne.symm hsame)

/-- **A claimed write is later than the row it claimed.** -/
theorem lt_flush_claimed :
    row.revision < (flush ticket edited { row with revision := row.revision + 1 }).revision := by
  show row.revision < flushed ticket.revision edited.revision (row.revision + 1)
  by_cases hsame : edited.revision = ticket.revision
  · rw [flushed_self hsame]
    exact Nat.lt_succ_self _
  · rw [flushed, if_neg hsame, hfresh]
    exact lt_of_le_of_ne h.1 (Ne.symm hsame)

end

/-- What keeps the defect away: a write that is not refused comes while the row still shows the
    revision its session loaded. -/
def Fresh (w : World) (e : Event) : Prop :=
  ∀ ticket, w.loaded e.session = some ticket → (guarded w.row e.expected).isSome →
    w.row.revision = ticket.revision

theorem committed_spec (h : committed casefold w e = some row) :
    ∃ ticket claimed edited, w.loaded e.session = some ticket ∧
      guarded w.row e.expected = some claimed ∧ edits casefold ticket e = some edited ∧
      row = flush ticket edited claimed := by
  simp only [committed, bind, Option.bind] at h
  cases hloaded : w.loaded e.session with
  | none =>
    rw [hloaded] at h
    exact nomatch h
  | some ticket =>
    cases hguarded : guarded w.row e.expected with
    | none =>
      rw [hloaded, hguarded] at h
      exact nomatch h
    | some claimed =>
      cases hedits : edits casefold ticket e with
      | none =>
        simp only [hloaded, hguarded, hedits] at h
        exact nomatch h
      | some edited =>
        simp only [hloaded, hguarded, hedits, pure] at h
        injection h with h
        exact ⟨ticket, claimed, edited, rfl, rfl, hedits, h.symm⟩

theorem guarded_some {expected : Nat} {claimed : Ticket}
    (h : guarded row (some expected) = some claimed) :
    row.revision = expected ∧ claimed = { row with revision := row.revision + 1 } := by
  have h : (if row.revision = expected then some { row with revision := row.revision + 1 }
    else none) = some claimed := h
  split at h
  · rename_i hmatch
    injection h with h
    exact ⟨hmatch, h.symm⟩
  · exact nomatch h

theorem follows_committed (hfresh : Fresh w e) (h : committed casefold w e = some row) :
    Follows w.row row ∧ ∀ r, e.expected = some r → w.row.revision = r ∧ r < row.revision := by
  obtain ⟨ticket, claimed, edited, hloaded, hguarded, hedits, rfl⟩ := committed_spec h
  have hsame : w.row.revision = ticket.revision := hfresh ticket hloaded (by rw [hguarded]; rfl)
  have hfollows := follows_edits hedits
  cases hexpected : e.expected with
  | none =>
    rw [hexpected] at hguarded
    injection hguarded with hguarded
    exact ⟨hguarded ▸ follows_flush hfollows hsame, nofun⟩
  | some expected =>
    rw [hexpected] at hguarded
    obtain ⟨hmatch, rfl⟩ := guarded_some hguarded
    have hlt := lt_flush_claimed hfollows hsame
    refine ⟨.of_lt hlt, ?_⟩
    intro r hr
    injection hr with hr
    subst hr
    exact ⟨hmatch, hmatch ▸ hlt⟩

/-! ## Every run -/

structure Good (w : World) : Prop where
  ordered : w.history.Pairwise fun later before => Follows before later
  past : ∀ r ∈ w.claims, r < w.row.revision
  once : w.claims.Nodup

theorem good_start (row : Ticket) : Good { row := row } where
  ordered := pairwise_singleton _ _
  past := nofun
  once := nodup_nil

theorem Good.sessions (h : Good w) (loaded : Nat → Option Ticket) :
    Good { w with loaded := loaded } :=
  ⟨h.ordered, h.past, h.once⟩

theorem step_cases (casefold : String → String) (w : World) (e : Event) :
    (∃ loaded, step casefold w e = { w with loaded := loaded }) ∨
      ∃ row loaded, committed casefold w e = some row ∧ step casefold w e =
        { row := row, loaded := loaded, earlier := w.history,
          claims := e.expected.toList ++ w.claims } := by
  by_cases hload : ∃ session, e = .load session
  · obtain ⟨session, rfl⟩ := hload
    exact .inl ⟨_, rfl⟩
  · have hload : ∀ session, e ≠ .load session := fun session he => hload ⟨session, he⟩
    cases hcommitted : committed casefold w e with
    | none => exact .inl ⟨_, by rw [step, hcommitted]; exact hload⟩
    | some row => exact .inr ⟨row, _, rfl, by rw [step, hcommitted]; exact hload⟩

/-- **A fresh step keeps the order.** -/
theorem Good.step (h : Good w) (hfresh : Fresh w e) : Good (TicketRevision.step casefold w e) := by
  rcases step_cases casefold w e with ⟨loaded, hstep⟩ | ⟨row, loaded, hrow, hstep⟩
  · rw [hstep]
    exact h.sessions loaded
  · obtain ⟨hfollows, hclaimed⟩ := follows_committed hfresh hrow
    rw [hstep]
    refine ⟨?_, ?_, ?_⟩
    · refine pairwise_cons.mpr ⟨?_, h.ordered⟩
      intro before hbefore
      rcases mem_cons.mp hbefore with rfl | hbefore
      · exact hfollows
      · exact (rel_of_pairwise_cons h.ordered hbefore).trans hfollows
    · intro r hr
      rcases mem_append.mp hr with hr | hr
      · exact (hclaimed r (Option.mem_toList.mp hr)).2
      · exact (h.past r hr).trans_le hfollows.1
    · cases hexpected : e.expected with
      | none => exact h.once
      | some r =>
        refine nodup_cons.mpr ⟨?_, h.once⟩
        intro hr
        have hpast := h.past r hr
        rw [(hclaimed r hexpected).1] at hpast
        exact lt_irrefl r hpast

theorem good_run {start : Ticket} {tr : List Event}
    (hrun : Run (Guarded (Step casefold) Fresh) { row := start } tr w) : Good w := by
  refine hrun.invariant ?_ (good_start start)
  rintro w e w' h ⟨hfresh, rfl⟩
  exact h.step hfresh

/-- **A revision names one content.** In a run of fresh writes no revision is below an earlier one,
    or shown for two contents; a guarded edit that commits has all the content there was since any
    row that showed the revision it expects; and no revision is claimed twice. -/
theorem revision_names_content (casefold : String → String) (start : Ticket) (tr : List Event)
    (w : World) (hrun : Run (Guarded (Step casefold) Fresh) { row := start } tr w) :
    (w.history.Pairwise fun later before => before.revision ≤ later.revision) ∧
    (∀ a ∈ w.history, ∀ b ∈ w.history, a.revision = b.revision → a.content = b.content) ∧
    (∀ session body r, (committed casefold w (.edit session body (some r))).isSome →
      ∀ later shown before, w.history = later ++ shown :: before → shown.revision = r →
        ∀ seen ∈ later, seen.content = shown.content) ∧
    w.claims.Nodup := by
  have h := good_run hrun
  have hcontent : ∀ a ∈ w.history, ∀ b ∈ w.history, a.revision = b.revision →
      a.content = b.content := by
    have hpair : w.history.Pairwise fun a b => a.revision = b.revision → a.content = b.content :=
      h.ordered.imp fun hfollows => hfollows.2
    have hflip : w.history.Pairwise fun a b => b.revision = a.revision → b.content = a.content :=
      hpair.imp fun hab hsame => (hab hsame.symm).symm
    intro a ha b hb
    exact hpair.forall_of_forall_of_flip (fun _ _ _ => rfl) hflip ha hb
  refine ⟨h.ordered.imp fun hfollows => hfollows.1, hcontent, ?_, h.once⟩
  intro session body r hcommits later shown before hhistory hshown seen hseen
  obtain ⟨row, hrow⟩ := Option.isSome_iff_exists.mp hcommits
  obtain ⟨ticket, claimed, edited, -, hguarded, -, -⟩ := committed_spec hrow
  have hnow : w.row.revision = r := (guarded_some hguarded).1
  -- a row since lies between the one that showed the revision and the row that shows it now
  have hshownIn : shown ∈ w.history := by
    rw [hhistory]
    exact mem_append_right _ mem_cons_self
  have hseenIn : seen ∈ w.history := by
    rw [hhistory]
    exact mem_append_left _ hseen
  have hupper : seen.revision ≤ w.row.revision := by
    rcases mem_cons.mp hseenIn with rfl | hearlier
    · exact le_rfl
    · exact (rel_of_pairwise_cons h.ordered hearlier).1
  have hlower : shown.revision ≤ seen.revision := by
    have hordered := h.ordered
    rw [hhistory] at hordered
    exact ((pairwise_append.mp hordered).2.2 seen hseen shown mem_cons_self).1
  exact hcontent seen hseenIn shown hshownIn (by omega)

def authored : Ticket := { title := "Import", revision := 5 }

def alone : List Event := [.load 0, .edit 0 { title := some "Import rows" } (some 5), .load 1]

theorem revision_names_content_alone : (alone.foldl (step id) { row := authored }).history.Pairwise
      fun later before => before.revision ≤ later.revision := by
  refine (revision_names_content id authored alone _ ?_).1
  have hedit : Fresh (step id { row := authored } (.load 0))
      (.edit 0 { title := some "Import rows" } (some 5)) := by
    intro ticket hloaded _
    injection hloaded with hloaded
    subst hloaded
    rfl
  exact .cons ⟨nofun, rfl⟩ (.cons ⟨hedit, rfl⟩ (.cons ⟨nofun, rfl⟩ (.nil _)))

/-- The state service loads the ticket; a guarded edit takes it from 5 to 7; the state service
    writes 6; and an unguarded edit of what is there then writes 7. -/
def stale : List Event :=
  [.load 0, .load 1, .edit 1 { title := some "Import rows", branch := some "rows" } (some 5),
    .choose 0 .inProgress "orchestrator", .load 2,
    .edit 2 { description := some "All of them." } none, .load 3]

/-- The rows of `stale`, as they came. -/
def staleRows : List Ticket :=
  [authored,
    { title := "Import rows", branch := "rows", lastUpdatedBy := "human", revision := 7 },
    { title := "Import rows", branch := "rows", state := .inProgress,
      lastUpdatedBy := "orchestrator", revision := 6 },
    { title := "Import rows", description := "All of them.", branch := "rows",
      state := .inProgress, lastUpdatedBy := "human", revision := 7 }]

/-- **An edit overwrites a change nobody saw.** The revision goes back, 7 is shown for two contents,
    and an edit that expects 7 commits after the state and the description changed. -/
theorem unseen_change_overwritten :
    ∃ w, Run (Step id) { row := authored } stale w ∧ w.history = staleRows.reverse ∧
      (committed id w (.edit 3 { description := some "Each row." } (some 7))).map
        Ticket.content = some
          { title := "Import rows", description := "Each row.", acceptanceCriteria := [],
            tags := [], priority := 3, state := .inProgress } := by
  refine ⟨stale.foldl (step id) { row := authored }, Run.of_foldl (fun _ _ => rfl) _ _, ?_, ?_⟩
  · decide +kernel
  · decide +kernel

end Loregarden.TicketRevision
