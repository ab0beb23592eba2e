import Mathlib.Data.List.Perm.Subperm
import Loregarden.FeatureLoopModel
import Loregarden.RunProofs
import Loregarden.TableProofs

/-! # Feature loop rounds

What an accepted criterion can count on: `LoopSound` says of a world that a text in a round or met
is on the ticket once, that a met one was put there before a workflow started and ended done, that
no round asked for two workflows, and that no round was refused for the cap; `Moves` is the way a
row goes. Two advances at once, a stop behind the write that reopens the ticket, and another chat's
queue each break it: `Calm`. -/

namespace Loregarden.FeatureLoop

open Runs List World Option

variable {i round : Nat} {ids queued : List Nat} {status : FeatureCriterionStatus} {text : Str}

section Merge

variable {existing texts : List Str}

/-- A merge appends each text that is new, once. -/
theorem mergeCriteria_eq (existing texts : List Str) :
    ∃ new, mergeCriteria existing texts = existing ++ new ∧ new.Nodup ∧
      (∀ text ∈ new, text ∉ existing ∧ text ∈ texts) ∧
      ∀ text ∈ texts, text ∈ existing ++ new := by
  induction texts generalizing existing with
  | nil => exact ⟨[], by simp [mergeCriteria], nodup_nil, by simp, by simp⟩
  | cons text rest ih =>
    rw [mergeCriteria]
    split
    · rename_i hmem
      obtain ⟨new, heq, hnodup, hnew, hall⟩ := ih existing
      refine ⟨new, heq, hnodup, ?_, ?_⟩
      · intro t ht
        exact ⟨(hnew t ht).1, mem_cons_of_mem _ (hnew t ht).2⟩
      · intro t ht
        rcases mem_cons.mp ht with rfl | ht
        · exact mem_append_left _ hmem
        · exact hall t ht
    · rename_i hmem
      obtain ⟨new, heq, hnodup, hnew, hall⟩ := ih (existing ++ [text])
      refine ⟨text :: new, by rw [heq, append_assoc]; rfl, ?_, ?_, ?_⟩
      · refine nodup_cons.mpr ⟨?_, hnodup⟩
        intro ht
        exact (hnew text ht).1 (by simp)
      · intro t ht
        rcases mem_cons.mp ht with rfl | ht
        · exact ⟨hmem, mem_cons_self⟩
        · obtain ⟨hnot, hin⟩ := hnew t ht
          exact ⟨fun h => hnot (mem_append_left _ h), mem_cons_of_mem _ hin⟩
      · intro t ht
        rcases mem_cons.mp ht with rfl | ht
        · simp
        · have := hall t ht
          rwa [append_assoc] at this

end Merge

/-! ## The log -/

/-- What is behind a text before its workflow may start: it is put on the
    ticket and, where that was done, the first stage is requeued. -/
def preparation (text : Str) (wasDone : Bool) : List Mark :=
  .put text wasDone :: if wasDone then [.requeued] else []

/-- The text was put on the ticket before the workflow that is to run it. -/
def Prepared (log : List Mark) (text : Str) : Prop :=
  ∃ wasDone, (preparation text wasDone).Sublist log

/-- A workflow has started since. -/
def Started (log : List Mark) (text : Str) : Prop :=
  ∃ wasDone, (preparation text wasDone ++ [Mark.started]).Sublist log

/-- **Its workflow has run since, and ended with the ticket done.** -/
def Ran (log : List Mark) (text : Str) : Prop :=
  ∃ wasDone, (preparation text wasDone ++ [Mark.started, Mark.ended .done]).Sublist log

/-- The last round or request for a workflow. -/
def lastStart (log : List Mark) : Option Mark :=
  (log.filter fun mark => mark = .round || mark = .asked).getLast?

/-- **Every workflow that is asked for is the first of its round.** -/
def OncePerRound (log : List Mark) : Prop :=
  ∀ pre post : List Mark, log = pre ++ .asked :: post → lastStart pre = some .round

section Log

variable {log more : List Mark} {text : Str}

theorem Prepared.mono (h : Prepared log text) : Prepared (log ++ more) text :=
  h.imp fun _ hsub => hsub.trans (sublist_append_left _ _)

theorem Started.mono (h : Started log text) : Started (log ++ more) text :=
  h.imp fun _ hsub => hsub.trans (sublist_append_left _ _)

theorem Ran.mono (h : Ran log text) : Ran (log ++ more) text :=
  h.imp fun _ hsub => hsub.trans (sublist_append_left _ _)

/-- A start of the workflow starts what was put before it. -/
theorem Prepared.started (h : Prepared log text) (hmem : Mark.started ∈ more) :
    Started (log ++ more) text := by
  obtain ⟨wasDone, hsub⟩ := h
  exact ⟨wasDone, hsub.append (singleton_sublist.mpr hmem)⟩

/-- An end in done has run what was started. -/
theorem Started.ended (h : Started log text) : Ran (log ++ [.ended .done]) text := by
  obtain ⟨wasDone, hsub⟩ := h
  refine ⟨wasDone, ?_⟩
  have hboth := hsub.append (List.Sublist.refl [Mark.ended .done])
  rwa [append_assoc] at hboth

/-- A requeue prepares what was put on a ticket that was done. -/
theorem prepared_requeued {wasDone : Bool} (h : Mark.put text wasDone ∈ log) :
    Prepared (log ++ [.requeued]) text := by
  refine ⟨wasDone, ?_⟩
  have hput : [Mark.put text wasDone].Sublist log := singleton_sublist.mpr h
  cases wasDone with
  | true => exact hput.append (List.Sublist.refl [Mark.requeued])
  | false => exact hput.trans (sublist_append_left _ _)

/-- What is put on a ticket that was not done is prepared. -/
theorem prepared_put (h : Mark.put text false ∈ log) : Prepared log text :=
  ⟨false, singleton_sublist.mpr h⟩

/-- Marks that are neither leave it as it is. -/
theorem lastStart_append (h : ∀ mark ∈ more, mark ≠ .round ∧ mark ≠ .asked) :
    lastStart (log ++ more) = lastStart log := by
  have hnil : (more.filter fun mark => mark = .round || mark = .asked) = [] := by
    refine filter_eq_nil_iff.mpr ?_
    intro mark hmem
    obtain ⟨hround, hasked⟩ := h mark hmem
    simp [hround, hasked]
  rw [lastStart, filter_append, hnil, append_nil]
  rfl

theorem lastStart_round : lastStart (log ++ [.round]) = some .round := by
  rw [lastStart, filter_append]
  simp

/-- Marks that ask for nothing keep a round to one request. -/
theorem OncePerRound.append (h : OncePerRound log) (hmore : ∀ mark ∈ more, mark ≠ .asked) :
    OncePerRound (log ++ more) := by
  intro pre post heq
  rcases append_eq_append_iff.mp heq with ⟨rest, hpre, hmore'⟩ | ⟨rest, hlog, hpost⟩
  · -- the request would be one of the new marks
    have hmem : Mark.asked ∈ more := by
      rw [hmore']
      simp
    exact absurd rfl (hmore _ hmem)
  · cases rest with
    | nil =>
      have hmem : Mark.asked ∈ more := by
        rw [nil_append] at hpost
        rw [← hpost]
        simp
      exact absurd rfl (hmore _ hmem)
    | cons mark rest =>
      obtain ⟨rfl, -⟩ := List.cons.inj hpost
      exact h pre rest hlog

/-- So does the first request of a round. -/
theorem OncePerRound.asked (h : OncePerRound log) (hlast : lastStart log = some .round) :
    OncePerRound (log ++ [.asked]) := by
  intro pre post heq
  rcases append_eq_append_iff.mp heq with ⟨rest, hpre, hmore⟩ | ⟨rest, hlog, hpost⟩
  · cases rest with
    | nil =>
      rw [hpre, append_nil]
      exact hlast
    | cons mark rest =>
      have hlen := congrArg List.length hmore
      simp at hlen
  · cases rest with
    | nil =>
      rw [append_nil] at hlog
      rw [← hlog]
      exact hlast
    | cons mark rest =>
      obtain ⟨rfl, -⟩ := List.cons.inj hpost
      exact h pre rest hlog

end Log

/-! ## What the claim says -/

/-- **Rounds are sound.** -/
structure LoopSound (w : World) : Prop where
  atMostOnce : ∀ row ∈ w.rows, w.criteria.count row.text ≤ 1
  once : ∀ row ∈ w.rows, row.status = .inRound ∨ row.status = .met → w.criteria.count row.text = 1
  met : ∀ row ∈ w.rows, row.status = .met → Ran w.log row.text
  starts : OncePerRound w.log
  notRefused : Mark.refused ∉ w.log

/-- The way a row goes: an accepted one from the queue into a round and to its end. -/
inductive Moves : FeatureCriterionStatus → FeatureCriterionStatus → Prop where
  | stays (status : FeatureCriterionStatus) : Moves status status
  | accepted : Moves .proposed .queued
  | dropped : Moves .proposed .rejected
  | begins : Moves .queued .inRound
  | ends : Moves .inRound .met

/-- Rows stay, with their chat and text, and go the way they go. -/
def RowsMove (w w' : World) : Prop :=
  ∀ (i : Nat) (row : FeatureCriterion), w.rows[i]? = some row → ∃ row' : FeatureCriterion,
    w'.rows[i]? = some row' ∧ row'.chat = row.chat ∧ row'.text = row.text ∧
      Moves row.status row'.status

/-- Whether an advance is between two of its commits. -/
def Stage.midway : Stage → Bool
  | .begun _ | .returned => false
  | _ => true

/-- Whether it has reopened the ticket and not requeued it yet. -/
def Stage.isReopened : Stage → Bool
  | .reopened _ _ => true
  | _ => false

/-- The queued criteria of all chats. -/
def World.queuedAll (w : World) : List Nat := w.having (List.range w.rows.length) .queued

/-- What the loop relies on: no advance begins, and nobody else starts the workflow, while another
    advance is midway; an advance that reopened the ticket gets to its requeue; and what is accepted
    fits beside the queues of all the ticket's chats. -/
def Calm (w : World) : Event → Bool
  | .step call outcome =>
    (w.calls[call]?).all fun stage =>
      (stage.midway || w.calls.all fun other => !other.midway) &&
        (!stage.isReopened || outcome.requeues)
  | .stop => w.calls.all fun stage => !stage.isReopened
  | .boardStarts => w.calls.all fun stage => !stage.midway
  | .add _ _ => w.checkCapacity w.queuedAll.length 1
  | .decideCriteria _ ids accept =>
    !accept || w.checkCapacity w.queuedAll.length ids.eraseDups.length
  | _ => true

/-- Those of them that are not on the ticket yet. -/
def World.offTicket (w : World) : List Nat :=
  (List.range w.rows.length).filter fun i =>
    (w.rows[i]?).any fun row => row.status = .queued && row.text ∉ w.criteria

/-- The ticket has room for these. -/
def Room (w : World) : Prop :=
  w.offTicket = [] ∨ w.criteria.length + w.offTicket.length ≤ maxAcceptanceCriteria

/-- What holds in every world of a calm run that began with `initial` on the ticket. -/
structure Inv (initial : List Str) (w : World) : Prop where
  keeps : ∀ text ∈ initial, text ∈ w.criteria
  count : ∀ text : Str, text ∉ initial → w.criteria.count text ≤ 1
  fresh : ∀ row ∈ w.rows, row.text ∉ initial
  logged : ∀ text ∈ w.criteria, text ∉ initial → ∃ wasDone, Mark.put text wasDone ∈ w.log
  onTicket : ∀ row ∈ w.rows, row.status = .inRound ∨ row.status = .met → row.text ∈ w.criteria
  prepared : (∀ stage ∈ w.calls, stage.isReopened = false) →
    ∀ text wasDone, Mark.put text wasDone ∈ w.log → Prepared w.log text
  running : w.activity = .running →
    ∀ text wasDone, Mark.put text wasDone ∈ w.log → Started w.log text
  done : w.state = .done → ∀ text wasDone, Mark.put text wasDone ∈ w.log → Ran w.log text
  met : ∀ row ∈ w.rows, row.status = .met → Ran w.log row.text
  alone : ∀ (i k : Nat) (stage other : Stage), w.calls[i]? = some stage →
    w.calls[k]? = some other → stage.midway = true → other.midway = true → i = k
  idle : ∀ stage ∈ w.calls, stage.midway = true → w.activity = .idle
  held : ∀ queued round, Stage.reopened queued round ∈ w.calls ∨
    Stage.ready queued round ∈ w.calls → ∀ i ∈ queued, ∃ row : FeatureCriterion,
      w.rows[i]? = some row ∧ row.status = .queued ∧ row.text ∈ w.criteria
  asked : Stage.marked ∈ w.calls → lastStart w.log = some .round
  starts : OncePerRound w.log
  room : Room w
  notRefused : Mark.refused ∉ w.log

/-- What the invariant says of a world is that it is sound. -/
theorem Inv.sound {initial : List Str} {w : World} (h : Inv initial w) : LoopSound w where
  atMostOnce row hrow := h.count row.text (h.fresh row hrow)
  once row hrow hstatus := by
    have hle := h.count row.text (h.fresh row hrow)
    have hpos := count_pos_iff.mpr (h.onTicket row hrow hstatus)
    omega
  met := h.met
  starts := h.starts
  notRefused := h.notRefused

/-! ## The queue -/

section Queue

variable {initial : List Str} {w w' : World} {chat : ChatId}

theorem nodup_offTicket (w : World) : w.offTicket.Nodup := nodup_range.filter _

/-- A queued row whose text is not on the ticket. -/
theorem mem_offTicket : i ∈ w.offTicket ↔ ∃ row : FeatureCriterion,
    w.rows[i]? = some row ∧ row.status = .queued ∧ row.text ∉ w.criteria := by
  rw [offTicket, mem_filter, mem_range, Option.any_eq_true]
  constructor
  · rintro ⟨-, row, hrow, hq⟩
    exact ⟨row, hrow, by simpa using hq⟩
  · rintro ⟨row, hrow, hq⟩
    obtain ⟨hlt, -⟩ := List.getElem?_eq_some_iff.mp hrow
    exact ⟨hlt, row, hrow, by simpa using hq⟩

/-- The rows of a list that have a status. -/
theorem mem_having : i ∈ w.having ids status ↔ i ∈ ids ∧ ∃ row : FeatureCriterion,
      w.rows[i]? = some row ∧ row.status = status := by
  rw [having, mem_filter, Option.any_eq_true]
  simp

theorem mem_queuedAll : i ∈ w.queuedAll ↔ ∃ row : FeatureCriterion,
    w.rows[i]? = some row ∧ row.status = .queued := by
  rw [queuedAll, mem_having, mem_range]
  constructor
  · exact fun h => h.2
  · rintro ⟨row, hrow, hq⟩
    exact ⟨(List.getElem?_eq_some_iff.mp hrow).1, row, hrow, hq⟩

/-- There is room for fewer. -/
theorem Room.of_subset (h : Room w) (hcriteria : w'.criteria = w.criteria)
    (hsub : w'.offTicket ⊆ w.offTicket) : Room w' := by
  rcases h with hnil | hle
  · rw [hnil] at hsub
    exact .inl (subset_nil.mp hsub)
  · have hlen := ((nodup_offTicket w').subperm hsub).length_le
    rw [Room, hcriteria]
    exact .inr (by omega)

/-- What passed the check of the capacity has room. -/
theorem Room.of_accepted {extra : List Nat} (hextra : extra ≠ [])
    (hfits : w.checkCapacity w.queuedAll.length extra.length = true)
    (hcriteria : w'.criteria = w.criteria)
    (hsub : w'.offTicket ⊆ w.queuedAll ++ extra) : Room w' := by
  have hlen := ((nodup_offTicket w').subperm hsub).length_le
  have hpos := length_pos_iff.mpr hextra
  rw [length_append] at hlen
  rw [checkCapacity, wouldGrowPast] at hfits
  simp only [Bool.not_eq_true', Bool.and_eq_false_iff, decide_eq_false_iff_not] at hfits
  rw [Room, hcriteria]
  omega

/-- A write of rows keeps the invariant where it puts none in a round and takes none back. -/
theorem Inv.rows {rows : List FeatureCriterion} (h : Inv initial w)
    (hfresh : ∀ row ∈ rows, row.text ∉ initial)
    (hround : ∀ row ∈ rows, row.status = .inRound ∨ row.status = .met → row ∈ w.rows)
    (hstay : ∀ (i : Nat) (row : FeatureCriterion), w.rows[i]? = some row → row.status = .queued →
      rows[i]? = some row)
    (hroom : Room { w with rows := rows }) : Inv initial { w with rows := rows } :=
  { h with
    fresh := hfresh
    onTicket := fun row hrow hstatus => h.onTicket row (hround row hrow hstatus) hstatus
    met := fun row hrow hstatus => h.met row (hround row hrow (.inr hstatus)) hstatus
    held := by
      intro queued round hcall i hi
      obtain ⟨row, hrow, hstatus, htext⟩ := h.held queued round hcall i hi
      exact ⟨row, hstay i row hrow hstatus, hstatus, htext⟩
    room := hroom }

/-- New rows move none. -/
theorem rowsMove_append {more : List FeatureCriterion} :
    RowsMove w { w with rows := w.rows ++ more } := by
  intro i row hrow
  have hlt := (List.getElem?_eq_some_iff.mp hrow).1
  refine ⟨row, ?_, rfl, rfl, .stays _⟩
  show (w.rows ++ more)[i]? = some row
  rw [List.getElem?_append_left hlt, hrow]

/-- A text the chat does not know is none of the first. -/
theorem not_initial_of_unknown (h : Inv initial w)
    (hnot : text ∉ w.knownTexts chat) : text ∉ initial := by
  intro hmem
  exact hnot (mem_append_left _ (h.keeps text hmem))

/-- A proposal keeps it. -/
theorem Inv.propose {texts : List Str} (h : Inv initial w) :
    Inv initial (w.propose chat texts) := by
  refine h.rows ?_ ?_ ?_ ?_
  · intro row hrow
    rcases mem_append.mp hrow with hrow | hrow
    · exact h.fresh row hrow
    · obtain ⟨text, htext, rfl⟩ := mem_map.mp hrow
      exact not_initial_of_unknown h (by simpa using (mem_filter.mp htext).2)
  · intro row hrow hstatus
    rcases mem_append.mp hrow with hrow | hrow
    · exact hrow
    · obtain ⟨text, -, rfl⟩ := mem_map.mp hrow
      rcases hstatus with hstatus | hstatus <;> cases hstatus
  · intro i row hrow _
    rw [List.getElem?_append_left (List.getElem?_eq_some_iff.mp hrow).1, hrow]
  · refine h.room.of_subset rfl ?_
    intro i hi
    obtain ⟨row, hrow, hstatus, hnot⟩ := mem_offTicket.mp hi
    rcases Tables.of_getElem?_append hrow with hold | hmore
    · exact mem_offTicket.mpr ⟨row, hold, hstatus, hnot⟩
    · obtain ⟨text, -, rfl⟩ := mem_map.mp hmore
      cases hstatus

/-- So does an addition that fits with what all chats have queued. -/
theorem Inv.add (h : Inv initial w) (hcalm : Calm w (.add chat text) = true) :
    Inv initial (w.add chat text) := by
  rw [World.add]
  split
  · exact h
  · split
    · exact h
    · split
      · rename_i clean _ _ hnot _
        refine h.rows ?_ ?_ ?_ ?_
        · intro row hrow
          rcases mem_append.mp hrow with hrow | hrow
          · exact h.fresh row hrow
          · obtain rfl := mem_singleton.mp hrow
            exact not_initial_of_unknown h hnot
        · intro row hrow hstatus
          rcases mem_append.mp hrow with hrow | hrow
          · exact hrow
          · obtain rfl := mem_singleton.mp hrow
            rcases hstatus with hstatus | hstatus <;> cases hstatus
        · intro i row hrow _
          rw [List.getElem?_append_left (List.getElem?_eq_some_iff.mp hrow).1, hrow]
        · refine Room.of_accepted (cons_ne_nil w.rows.length []) hcalm rfl ?_
          intro i hi
          obtain ⟨row, hrow, hstatus, -⟩ := mem_offTicket.mp hi
          rcases Tables.of_getElem?_append_singleton hrow with hrow | ⟨hi, -⟩
          · exact mem_append_left _ (mem_queuedAll.mpr ⟨row, hrow, hstatus⟩)
          · exact mem_append_right _ (by simp [hi])
      · exact h

/-! ### Writing rows -/

section WriteRows

variable {ids : List Nat} {f : FeatureCriterion → FeatureCriterion}

/-- The row as it is written. -/
theorem getElem?_writeRows (w : World) (ids : List Nat)
    (f : FeatureCriterion → FeatureCriterion) (i : Nat) :
    (w.writeRows ids f).rows[i]? = (w.rows[i]?).map fun row => if i ∈ ids then f row else row :=
  List.getElem?_mapIdx

/-- A row afterwards is one from before, written or not. -/
theorem of_mem_writeRows {row : FeatureCriterion} (h : row ∈ (w.writeRows ids f).rows) :
    row ∈ w.rows ∨ ∃ i ∈ ids, ∃ old, w.rows[i]? = some old ∧ row = f old := by
  obtain ⟨i, hi⟩ := List.getElem?_of_mem h
  rw [getElem?_writeRows] at hi
  obtain ⟨old, hold, heq⟩ := map_eq_some_iff.mp hi
  by_cases hmem : i ∈ ids
  · rw [if_pos hmem] at heq
    exact .inr ⟨i, hmem, old, hold, heq.symm⟩
  · rw [if_neg hmem] at heq
    rw [← heq]
    exact .inl (mem_of_getElem? hold)

/-- Rows that are written move as their status does. -/
theorem rowsMove_writeRows (hchat : ∀ row, (f row).chat = row.chat)
    (htext : ∀ row, (f row).text = row.text)
    (hmoves : ∀ i ∈ ids, ∀ row, w.rows[i]? = some row → Moves row.status (f row).status) :
    RowsMove w (w.writeRows ids f) := by
  intro i row hrow
  refine ⟨if i ∈ ids then f row else row, ?_, ?_, ?_, ?_⟩
  · rw [getElem?_writeRows, hrow]
    rfl
  · split
    · exact hchat row
    · rfl
  · split
    · exact htext row
    · rfl
  · split
    · rename_i hmem
      exact hmoves i hmem row hrow
    · exact .stays _

end WriteRows

theorem mem_having_all {rows : List Nat}
    (h : ids.all (fun i => i ∈ w.having rows status) = true) (hi : i ∈ ids) :
    ∃ row, w.rows[i]? = some row ∧ row.status = status := by
  have hmem : i ∈ w.having rows status := by
    simpa using all_eq_true.mp h i hi
  exact (mem_having.mp hmem).2

/-- A decision of proposals keeps it, where there is room for the accepted. -/
theorem Inv.decided (h : Inv initial w)
    (hids : ids.all (fun i => i ∈ w.having (w.rowsOf chat) .proposed) = true)
    (hstatus : status = .queued ∨ status = .rejected)
    (hroom : Room (w.writeRows ids fun row => { row with status := status })) :
    Inv initial (w.writeRows ids fun row => { row with status := status }) := by
  refine h.rows ?_ ?_ ?_ hroom
  · intro row hrow
    rcases of_mem_writeRows (w := w) hrow with hrow | ⟨i, -, old, hold, rfl⟩
    · exact h.fresh row hrow
    · exact h.fresh old (mem_of_getElem? hold)
  · intro row hrow hround
    rcases of_mem_writeRows (w := w) hrow with hrow | ⟨i, -, old, hold, rfl⟩
    · exact hrow
    · rcases hstatus with rfl | rfl <;> rcases hround with hround | hround <;> cases hround
  · intro i row hrow hqueued
    have hnot : i ∉ ids := by
      intro hmem
      obtain ⟨row', hrow', hproposed⟩ := mem_having_all hids hmem
      rw [hrow] at hrow'
      obtain rfl := some.inj hrow'
      rw [hqueued] at hproposed
      cases hproposed
    have hsame := getElem?_writeRows w ids (fun row => { row with status := status }) i
    rw [hrow, map_some, if_neg hnot] at hsame
    exact hsame

/-- Only what was accepted is new off the ticket. -/
theorem offTicket_decided
    (hi : i ∈ (w.writeRows ids fun row => { row with status := status }).offTicket) :
    i ∈ w.offTicket ∨ (i ∈ ids ∧ status = .queued) := by
  obtain ⟨row, hrow, hstatus, hnot⟩ := mem_offTicket.mp hi
  rw [getElem?_writeRows] at hrow
  obtain ⟨old, hold, heq⟩ := map_eq_some_iff.mp hrow
  by_cases hmem : i ∈ ids
  · rw [if_pos hmem] at heq
    rw [← heq] at hstatus
    exact .inr ⟨hmem, hstatus⟩
  · rw [if_neg hmem] at heq
    rw [← heq] at hstatus hnot
    exact .inl (mem_offTicket.mpr ⟨old, hold, hstatus, hnot⟩)

/-- A decision keeps it, where what it accepts fits with what all chats have queued. -/
theorem Inv.decideCriteria {accept : Bool} (h : Inv initial w)
    (hcalm : Calm w (.decideCriteria chat ids accept) = true) :
    Inv initial (w.decideCriteria chat ids accept) := by
  rw [World.decideCriteria]
  split
  · rename_i hids
    split
    · rename_i haccept
      split
      · refine h.decided hids (.inl rfl) ?_
        have hfits : w.checkCapacity w.queuedAll.length ids.eraseDups.length = true := by
          simpa [Calm, haccept] using hcalm
        by_cases hnil : ids = []
        · refine h.room.of_subset rfl ?_
          intro i hi
          rcases offTicket_decided hi with hi | ⟨hi, -⟩
          · exact hi
          · rw [hnil] at hi
            cases hi
        · refine Room.of_accepted ?_ hfits rfl ?_
          · intro herase
            obtain ⟨i, rest, rfl⟩ := exists_cons_of_ne_nil hnil
            have hmem : i ∈ (i :: rest).eraseDups := mem_eraseDups.mpr mem_cons_self
            rw [herase] at hmem
            cases hmem
          · intro i hi
            rcases offTicket_decided hi with hi | ⟨hi, -⟩
            · obtain ⟨row, hrow, hstatus, -⟩ := mem_offTicket.mp hi
              exact mem_append_left _ (mem_queuedAll.mpr ⟨row, hrow, hstatus⟩)
            · exact mem_append_right _ (mem_eraseDups.mpr hi)
      · exact h
    · refine h.decided hids (.inr rfl) (h.room.of_subset rfl ?_)
      intro i hi
      rcases offTicket_decided hi with hi | ⟨-, hqueued⟩
      · exact hi
      · cases hqueued
  · exact h

end Queue

/-! ## The calls -/

section Calls

variable {initial : List Str} {w : World} {call : Nat} {stage : Stage}

/-- No call is midway. -/
def Quiet (w : World) : Prop := ∀ stage ∈ w.calls, stage.midway = false

/-- No other call is. -/
def Alone (w : World) (call : Nat) : Prop :=
  ∀ (k : Nat) (other : Stage), w.calls[k]? = some other → k ≠ call → other.midway = false

theorem Quiet.alone (h : Quiet w) : Alone w call := fun _ other hk _ =>
  h other (mem_of_getElem? hk)

theorem not_reopened_of_not_midway (h : stage.midway = false) : stage.isReopened = false := by
  cases stage <;> first | rfl | cases h

section

variable (h : Inv initial w)
include h

/-- Calls that come to no new place keep it. -/
theorem Inv.calls {calls : List Stage}
    (hmidway : ∀ (i : Nat) (stage : Stage), calls[i]? = some stage → stage.midway = true →
      w.calls[i]? = some stage) (hreopened : (∀ stage ∈ calls, stage.isReopened = false) →
      ∀ stage ∈ w.calls, stage.isReopened = false) : Inv initial { w with calls := calls } := by
  have hmem : ∀ stage ∈ calls, stage.midway = true → stage ∈ w.calls := by
    intro stage hstage hmid
    obtain ⟨i, hi⟩ := List.getElem?_of_mem hstage
    exact mem_of_getElem? (hmidway i stage hi hmid)
  exact { h with
    prepared := fun hno => h.prepared (hreopened hno)
    alone := by
      intro i k stage other hi hk hmid hmid'
      exact h.alone i k stage other (hmidway i stage hi hmid) (hmidway k other hk hmid') hmid hmid'
    idle := fun stage hstage hmid => h.idle stage (hmem stage hstage hmid) hmid
    held := by
      intro queued round hcall
      refine h.held queued round ?_
      exact hcall.imp (fun hm => hmem _ hm rfl) (fun hm => hmem _ hm rfl)
    asked := fun hm => h.asked (hmem _ hm rfl) }

/-- A call that begins keeps it. -/
theorem Inv.called {chat : ChatId} : Inv initial { w with calls := w.calls ++ [.begun chat] } := by
  refine h.calls ?_ ?_
  · intro i stage hi hmid
    rcases Tables.of_getElem?_append_singleton hi with hi | ⟨-, rfl⟩
    · exact hi
    · cases hmid
  · intro hno stage hstage
    exact hno stage (mem_append_left _ hstage)

/-- So does a stop, where no ticket is reopened and not yet requeued. -/
theorem Inv.stop (hcalm : Calm w .stop = true) : Inv initial { w with calls := [] } := by
  refine h.calls (fun i stage hi => (by cases hi)) ?_
  intro _ stage hstage
  simpa using all_eq_true.mp hcalm stage hstage

/-- So does a call that returns. -/
theorem Inv.returned (hcall : w.calls[call]? = some stage) (hstage : stage.isReopened = false) :
    Inv initial { w with calls := w.calls.set call .returned } := by
  refine h.calls ?_ ?_
  · intro i other hi hmid
    rw [List.getElem?_set] at hi
    split at hi
    · split at hi
      · cases hi
        cases hmid
      · cases hi
    · exact hi
  · intro hno other hother
    obtain ⟨k, hk⟩ := List.getElem?_of_mem hother
    by_cases hkc : call = k
    · subst hkc
      rw [hcall] at hk
      obtain rfl := some.inj hk
      exact hstage
    · refine hno other (mem_of_getElem? (i := k) ?_)
      rw [List.getElem?_set_ne hkc]
      exact hk

end

/-- When the one that was midway returns, all is quiet. -/
theorem quiet_returned (halone : Alone w call) :
    Quiet { w with calls := w.calls.set call .returned } := by
  intro other hother
  obtain ⟨k, hk⟩ := List.getElem?_of_mem hother
  have hset : (w.calls.set call .returned)[k]? = some other := hk
  rw [List.getElem?_set] at hset
  split at hset
  · split at hset
    · cases hset
      rfl
    · cases hset
  · rename_i hne
    exact halone k other hset (Ne.symm hne)

theorem of_getElem?_set {new other : Stage} {k : Nat} (halone : Alone w call)
    (hk : (w.calls.set call new)[k]? = some other) (hmid : other.midway = true) :
    k = call ∧ other = new := by
  rw [List.getElem?_set] at hk
  split at hk
  · rename_i heq
    split at hk
    · exact ⟨heq.symm, (some.inj hk).symm⟩
    · cases hk
  · rename_i hne
    rw [halone k other hk (Ne.symm hne)] at hmid
    cases hmid

theorem of_mem_set {new other : Stage} (halone : Alone w call)
    (hother : other ∈ w.calls.set call new) (hmid : other.midway = true) : other = new := by
  obtain ⟨k, hk⟩ := List.getElem?_of_mem hother
  exact (of_getElem?_set halone hk hmid).2

/-- A call that goes on alone keeps it, where what it holds is on the ticket. -/
theorem Inv.setCall (h : Inv initial w) (call : Nat) (new : Stage) (halone : Alone w call)
    (hprepared : new.isReopened = false →
      ∀ text wasDone, Mark.put text wasDone ∈ w.log → Prepared w.log text)
    (hcall : call < w.calls.length) (hidle : new.midway = true → w.activity = .idle)
    (hheld : ∀ queued round, new = .reopened queued round ∨ new = .ready queued round →
      ∀ i ∈ queued, ∃ row : FeatureCriterion,
        w.rows[i]? = some row ∧ row.status = .queued ∧ row.text ∈ w.criteria)
    (hasked : new = .marked → lastStart w.log = some .round) :
    Inv initial { w with calls := w.calls.set call new } :=
  { h with
    prepared := fun hno => hprepared (hno new (mem_set hcall _))
    alone := by
      intro i k stage other hi hk hmid hmid'
      rw [(of_getElem?_set halone hi hmid).1, (of_getElem?_set halone hk hmid').1]
    idle := by
      intro other hother hmid
      exact hidle (of_mem_set halone hother hmid ▸ hmid)
    held := by
      intro queued round hstage
      refine hheld queued round ?_
      exact hstage.imp (fun hm => (of_mem_set halone hm rfl).symm)
        (fun hm => (of_mem_set halone hm rfl).symm)
    asked := fun hm => hasked (of_mem_set halone hm rfl).symm }

end Calls

section Commits

variable {initial : List Str} {w : World} {call : Nat} {chat : ChatId} {rows : List Nat}

section

variable (h : Inv initial w)
include h

/-- Rows on the ticket that leave the queue keep it. -/
theorem Inv.written {f : FeatureCriterion → FeatureCriterion} (hquiet : Quiet w)
    (hstatus : ∀ row, (f row).status = status) (htext : ∀ row, (f row).text = row.text)
    (hqueued : status ≠ .queued)
    (hold : ∀ i ∈ ids, ∀ row, w.rows[i]? = some row → row.text ∈ w.criteria ∧
      (status = .met → Ran w.log row.text)) : Inv initial (w.writeRows ids f) := by
  have hwas : ∀ row ∈ (w.writeRows ids f).rows, row ∈ w.rows ∨ (row.status = status ∧
      row.text ∈ w.criteria ∧ (status = .met → Ran w.log row.text) ∧
      ∃ old ∈ w.rows, row.text = old.text) := by
    intro row hrow
    rcases of_mem_writeRows (w := w) hrow with hrow | ⟨i, hi, old, hget, rfl⟩
    · exact .inl hrow
    · obtain ⟨hmem, hran⟩ := hold i hi old hget
      refine .inr ⟨hstatus old, ?_, ?_, old, mem_of_getElem? hget, htext old⟩
      · rw [htext]
        exact hmem
      · rw [htext]
        exact hran
  exact { h with
    fresh := by
      intro row hrow
      rcases hwas row hrow with hrow | ⟨-, -, -, old, hmem, heq⟩
      · exact h.fresh row hrow
      · rw [heq]
        exact h.fresh old hmem
    onTicket := by
      intro row hrow hround
      rcases hwas row hrow with hrow | ⟨-, hmem, -⟩
      · exact h.onTicket row hrow hround
      · exact hmem
    met := by
      intro row hrow hmet
      rcases hwas row hrow with hrow | ⟨heq, -, hran, -⟩
      · exact h.met row hrow hmet
      · exact hran (heq.symm.trans hmet)
    held := by
      intro queued round hcall
      rcases hcall with hm | hm
      · cases hquiet _ hm
      · cases hquiet _ hm
    room := by
      refine h.room.of_subset rfl ?_
      intro i hi
      obtain ⟨row, hrow, hq, hnot⟩ := mem_offTicket.mp hi
      rw [getElem?_writeRows] at hrow
      obtain ⟨old, hget, heq⟩ := map_eq_some_iff.mp hrow
      split at heq
      · rw [← heq, hstatus] at hq
        exact absurd hq hqueued
      · rw [← heq] at hq hnot
        exact mem_offTicket.mpr ⟨old, hget, hq, hnot⟩ }

/-- A settlement of a ticket that is done keeps it: its rows have run. -/
theorem Inv.settle (hquiet : Quiet w) (hdone : w.state = .done) : Inv initial (w.settle chat) := by
  refine h.written hquiet (fun _ => rfl) (fun _ => rfl) (by decide) ?_
  intro i hi row hrow
  obtain ⟨-, row', hrow', hstatus⟩ := mem_having.mp hi
  rw [hrow] at hrow'
  obtain rfl := some.inj hrow'
  have hmem := mem_of_getElem? hrow
  have htext := h.onTicket row hmem (.inl hstatus)
  obtain ⟨wasDone, hput⟩ := h.logged row.text htext (h.fresh row hmem)
  exact ⟨htext, fun _ => h.done hdone row.text wasDone hput⟩

/-- Marks and a new activity keep it, where they tell the same. -/
theorem Inv.marks (more : List Mark) (activity : TicketActivity) (state : TicketState)
    (hmore : ∀ mark ∈ more, mark ≠ .refused ∧ ∀ text wasDone, mark ≠ .put text wasDone)
    (hrunning : activity = .running → ∀ text wasDone, Mark.put text wasDone ∈ w.log →
      Started (w.log ++ more) text)
    (hdone : state = .done → ∀ text wasDone, Mark.put text wasDone ∈ w.log →
      Ran (w.log ++ more) text) (hidle : ∀ stage ∈ w.calls, stage.midway = true → activity = .idle)
    (hasked : Stage.marked ∈ w.calls → lastStart (w.log ++ more) = some .round)
    (hstarts : OncePerRound (w.log ++ more)) :
    Inv initial { w with activity := activity, state := state, log := w.log ++ more } := by
  have hput : ∀ {text : Str} {wasDone : Bool}, Mark.put text wasDone ∈ w.log ++ more →
      Mark.put text wasDone ∈ w.log := by
    intro text wasDone hmem
    rcases mem_append.mp hmem with hmem | hmem
    · exact hmem
    · exact absurd rfl ((hmore _ hmem).2 text wasDone)
  exact { h with
    logged := by
      intro text htext hnot
      obtain ⟨wasDone, hmem⟩ := h.logged text htext hnot
      exact ⟨wasDone, mem_append_left _ hmem⟩
    prepared := fun hno text wasDone hmem => (h.prepared hno text wasDone (hput hmem)).mono
    running := fun hrun text wasDone hmem => hrunning hrun text wasDone (hput hmem)
    done := fun hend text wasDone hmem => hdone hend text wasDone (hput hmem)
    met := fun row hrow hmet => (h.met row hrow hmet).mono
    idle := hidle
    asked := hasked
    starts := hstarts
    notRefused := by
      intro hmem
      rcases mem_append.mp hmem with hmem | hmem
      · exact h.notRefused hmem
      · exact (hmore _ hmem).1 rfl }

/-- Queued rows that are put in a round keep it. -/
theorem Inv.ready (round : Nat) (hquiet : Quiet w) (hheld : ∀ i ∈ queued, ∃ row : FeatureCriterion,
      w.rows[i]? = some row ∧ row.status = .queued ∧ row.text ∈ w.criteria) :
    Inv initial { w.writeRows queued (fun row => { row with status := .inRound, round := round })
      with log := w.log ++ [.round] } := by
  have hrows : Inv initial
      (w.writeRows queued fun row => { row with status := .inRound, round := round }) := by
    refine h.written hquiet (fun _ => rfl) (fun _ => rfl) (by decide) ?_
    intro i hi row hrow
    obtain ⟨row', hrow', -, htext⟩ := hheld i hi
    rw [hrow] at hrow'
    obtain rfl := some.inj hrow'
    exact ⟨htext, fun hmet => nomatch hmet⟩
  refine hrows.marks _ _ _ ?_ ?_ ?_ hrows.idle ?_ (h.starts.append (by simp))
  · intro mark hmem
    rw [mem_singleton.mp hmem]
    exact ⟨by decide, fun _ _ heq => nomatch heq⟩
  · intro hrun text wasDone hmem
    exact (h.running hrun text wasDone hmem).mono
  · intro hdone text wasDone hmem
    exact (h.done hdone text wasDone hmem).mono
  · intro hm
    cases hquiet _ hm

/-! ### A round's criteria -/

omit h in
/-- The texts of rows. -/
theorem mem_textsOf : text ∈ w.textsOf ids ↔
    ∃ i ∈ ids, ∃ row : FeatureCriterion, w.rows[i]? = some row ∧ row.text = text := by
  rw [textsOf, mem_filterMap]
  constructor
  · rintro ⟨i, hi, htext⟩
    obtain ⟨row, hrow, heq⟩ := map_eq_some_iff.mp htext
    exact ⟨i, hi, row, hrow, heq⟩
  · rintro ⟨i, hi, row, hrow, rfl⟩
    exact ⟨i, hi, by rw [hrow]; rfl⟩

def World.textIn (w : World) (texts : List Str) (i : Nat) : Bool :=
  (w.rows[i]?).any fun row => row.text ∈ texts

omit h in
/-- The rows that come onto the ticket free the room they take. -/
theorem room_of_new {new : List Str} (w' : World) (h : Room w) (hrows : w'.rows = w.rows)
    (hcriteria : w'.criteria = w.criteria ++ new) (hnodup : new.Nodup)
    (hoff : ∀ text ∈ new, ∃ i ∈ w.offTicket, ∃ row : FeatureCriterion,
      w.rows[i]? = some row ∧ row.text = text) :
    Room w' ∧ wouldGrowPast w.criteria.length w'.criteria.length maxAcceptanceCriteria = false := by
  -- the rows off the ticket: those with a new text, and the rest
  have hsplit := length_eq_length_filter_add (l := w.offTicket) (w.textIn new)
  have hnewLe : new.length ≤ (w.offTicket.filter (w.textIn new)).length := by
    have hsub : new ⊆ w.textsOf (w.offTicket.filter (w.textIn new)) := by
      intro text htext
      obtain ⟨i, hi, row, hrow, rfl⟩ := hoff text htext
      refine mem_textsOf.mpr ⟨i, mem_filter.mpr ⟨hi, ?_⟩, row, hrow, rfl⟩
      rw [textIn, hrow]
      simpa using htext
    exact ((hnodup.subperm hsub).length_le).trans (length_filterMap_le _ _)
  have hrest : w'.offTicket ⊆ w.offTicket.filter fun i => !w.textIn new i := by
    intro i hi
    obtain ⟨row, hrow, hstatus, hnot⟩ := mem_offTicket.mp hi
    rw [hrows] at hrow
    rw [hcriteria, mem_append] at hnot
    have hoffRow : i ∈ w.offTicket :=
      mem_offTicket.mpr ⟨row, hrow, hstatus, fun hm => hnot (.inl hm)⟩
    refine mem_filter.mpr ⟨hoffRow, ?_⟩
    rw [textIn, hrow]
    simpa using fun hm => hnot (.inr hm)
  have hrestLe := ((nodup_offTicket w').subperm hrest).length_le
  have hlen : w'.criteria.length = w.criteria.length + new.length := by
    rw [hcriteria, length_append]
  rcases h with hnil | hle
  · have hzero : w.offTicket.length = 0 := by rw [hnil]; rfl
    constructor
    · exact .inl (length_eq_zero_iff.mp (by omega))
    · rw [wouldGrowPast, Bool.and_eq_false_iff, decide_eq_false_iff_not, decide_eq_false_iff_not]
      exact .inr (by omega)
  · constructor
    · exact .inr (by omega)
    · rw [wouldGrowPast, Bool.and_eq_false_iff, decide_eq_false_iff_not, decide_eq_false_iff_not]
      exact .inl (by omega)

/-- **A round puts the texts that are not on the ticket there**, and starts, or has nothing. -/
theorem startRound_eq (rows : List Nat) :
    ∃ new : List Str, new.Nodup ∧ (∀ text ∈ new, text ∉ w.criteria) ∧
      (∀ i ∈ w.having rows .queued, ∀ row, w.rows[i]? = some row → row.text ∈ w.criteria ++ new) ∧
      Room { w with criteria := w.criteria ++ new } ∧
      ∃ round, w.startRound rows = ({ w with
            criteria := w.criteria ++ new
            state := if w.state = .done then .backlog else w.state
            log := w.log ++ new.map fun text => .put text (w.state = .done) },
          if w.state = .done then .reopened (w.having rows .queued) round
          else .ready (w.having rows .queued) round) := by
  obtain ⟨new, hmerge, hnodup, hnew, hall⟩ :=
    mergeCriteria_eq w.criteria (w.textsOf (w.having rows .queued))
  have hoff : ∀ text ∈ new, ∃ i ∈ w.offTicket, ∃ row : FeatureCriterion,
      w.rows[i]? = some row ∧ row.text = text := by
    intro text htext
    obtain ⟨hnot, hmem⟩ := hnew text htext
    obtain ⟨i, hi, row, hrow, rfl⟩ := mem_textsOf.mp hmem
    obtain ⟨-, row', hrow', hstatus⟩ := mem_having.mp hi
    rw [hrow] at hrow'
    obtain rfl := some.inj hrow'
    exact ⟨i, mem_offTicket.mpr ⟨row, hrow, hstatus, hnot⟩, row, hrow, rfl⟩
  obtain ⟨hroom, hfits⟩ := room_of_new { w with criteria := w.criteria ++ new } h.room rfl rfl
    hnodup hoff
  refine ⟨new, hnodup, fun text htext => (hnew text htext).1, ?_, hroom,
    (rows.filterMap fun i => (w.rows[i]?).map (·.round)).foldr max 0 + 1, ?_⟩
  · intro i hi row hrow
    exact hall row.text (mem_textsOf.mpr ⟨i, hi, row, hrow, rfl⟩)
  · have hput : w.put (w.textsOf (w.having rows .queued)) = new := by
      rw [put, hmerge, drop_left]
    rw [startRound]
    simp only [hmerge, hput]
    rw [if_neg (by simpa using hfits)]

section

variable (hquiet : Quiet w) (hidle : w.activity = .idle) (hcall : call < w.calls.length)
include hquiet hidle hcall

/-- Texts are put on the ticket, which is idle; where it was done, its requeue is next. -/
theorem Inv.putTexts {new : List Str} {wasDone : Bool} {state : TicketState} {next : Stage}
    (hnodup : new.Nodup) (hnew : ∀ text ∈ new, text ∉ w.criteria)
    (hroom : Room { w with criteria := w.criteria ++ new }) (hstate : state ≠ .done)
    (hnext : next = if wasDone then .reopened queued round else .ready queued round)
    (hqueued : ∀ i ∈ queued, ∃ row : FeatureCriterion,
      w.rows[i]? = some row ∧ row.status = .queued ∧ row.text ∈ w.criteria ++ new) :
    Inv initial { w with
      criteria := w.criteria ++ new
      state := state
      log := w.log ++ new.map (Mark.put · wasDone)
      calls := w.calls.set call next } := by
  have hput : ∀ {text : Str} {was : Bool},
      Mark.put text was ∈ w.log ++ new.map (Mark.put · wasDone) →
        Mark.put text was ∈ w.log ∨ was = wasDone := by
    intro text was hmem
    rcases mem_append.mp hmem with hmem | hmem
    · exact .inl hmem
    · obtain ⟨text', -, hmark⟩ := mem_map.mp hmem
      exact .inr (Mark.put.inj hmark).2.symm
  have hids : ∀ queued' round', next = .reopened queued' round' ∨ next = .ready queued' round' →
      queued' = queued := by
    intro queued' round' hkind
    rw [hnext] at hkind
    cases wasDone with
    | true =>
      rcases hkind with hkind | hkind
      · exact (Stage.reopened.inj hkind).1.symm
      · cases hkind
    | false =>
      rcases hkind with hkind | hkind
      · cases hkind
      · exact (Stage.ready.inj hkind).1.symm
  exact {
    keeps := fun text hmem => mem_append_left _ (h.keeps text hmem)
    count := by
      intro text hnot
      rw [count_append]
      by_cases hmem : text ∈ new
      · rw [count_eq_zero.mpr (hnew text hmem), hnodup.count, if_pos hmem]
      · rw [count_eq_zero.mpr hmem]
        exact h.count text hnot
    fresh := h.fresh
    logged := by
      intro text htext hnot
      rcases mem_append.mp htext with htext | htext
      · obtain ⟨was, hmem⟩ := h.logged text htext hnot
        exact ⟨was, mem_append_left _ hmem⟩
      · exact ⟨wasDone, mem_append_right _ (mem_map.mpr ⟨text, htext, rfl⟩)⟩
    onTicket := fun row hrow hstatus => mem_append_left _ (h.onTicket row hrow hstatus)
    prepared := by
      intro hno text was hmem
      have hnot : wasDone = false := by
        cases wasDone with
        | true =>
          -- the reopened ticket waits for its requeue
          have hself := hno next (mem_set hcall _)
          rw [hnext] at hself
          cases hself
        | false => rfl
      rcases hput hmem with hold | hwas
      · exact (h.prepared (fun stage hstage =>
          not_reopened_of_not_midway (hquiet stage hstage)) text was hold).mono
      · rw [hwas] at hmem
        subst hnot
        exact prepared_put hmem
    running := by
      intro hrun
      rw [show w.activity = .running from hrun] at hidle
      cases hidle
    done := fun hend => absurd hend hstate
    met := fun row hrow hmet => (h.met row hrow hmet).mono
    alone := by
      intro i k stage other hi hk hmid hmid'
      rw [(of_getElem?_set hquiet.alone hi hmid).1, (of_getElem?_set hquiet.alone hk hmid').1]
    idle := fun _ _ _ => hidle
    held := by
      intro queued' round' hstage i hi
      have hkind := hstage.imp (fun hm => (of_mem_set hquiet.alone hm rfl).symm)
        (fun hm => (of_mem_set hquiet.alone hm rfl).symm)
      rw [hids queued' round' hkind] at hi
      exact hqueued i hi
    asked := by
      intro hm
      have heq := of_mem_set hquiet.alone hm rfl
      rw [hnext] at heq
      split at heq <;> cases heq
    starts := by
      refine h.starts.append ?_
      intro mark hmark
      obtain ⟨text, -, rfl⟩ := mem_map.mp hmark
      exact fun heq => nomatch heq
    room := hroom
    notRefused := by
      intro hmem
      rcases mem_append.mp hmem with hmem | hmem
      · exact h.notRefused hmem
      · obtain ⟨text, -, hmark⟩ := mem_map.mp hmem
        cases hmark }

/-- **A round is begun** where the ticket is idle. -/
theorem Inv.startRound :
    Inv initial { (w.startRound rows).1 with
      calls := w.calls.set call (w.startRound rows).2 } := by
  obtain ⟨new, hnodup, hnew, htexts, hroom, round, heq⟩ := startRound_eq h rows
  have hqueued : ∀ i ∈ w.having rows .queued, ∃ row : FeatureCriterion,
      w.rows[i]? = some row ∧ row.status = .queued ∧ row.text ∈ w.criteria ++ new := by
    intro i hi
    obtain ⟨-, row, hrow, hstatus⟩ := mem_having.mp hi
    exact ⟨row, hrow, hstatus, htexts i hi row hrow⟩
  have hstate : (if w.state = .done then TicketState.backlog else w.state) ≠ .done := by
    split
    · decide
    · assumption
  have hput := h.putTexts hquiet hidle hcall hnodup hnew hroom
    hstate (rfl : _ = if decide (w.state = .done) then _ else Stage.ready _ round) hqueued
  rw [heq]
  simpa using hput

end

end

end Commits

/-! ## One step of a call -/

section Step

variable {initial : List Str} {w : World} {call : Nat} {stage : Stage} {chat : ChatId}
  {rows : List Nat} {outcome : World.Outcome}

/-- The world after a step of a call. -/
def stepped (w : World) (call : Nat) (stage : Stage) (outcome : World.Outcome) : World :=
  { (w.advance stage outcome).1 with calls := w.calls.set call (w.advance stage outcome).2 }

theorem after_step (hcall : w.calls[call]? = some stage) :
    w.after (.step call outcome) = stepped w call stage outcome := by
  simp only [World.after, hcall, stepped]

theorem goOn_calls (calls : List Stage) : goOn { w with calls := calls } rows =
      ({ (w.goOn rows).1 with calls := calls }, (w.goOn rows).2) := by
  by_cases hstop : (!w.assessIdle rows || decide (w.having rows .queued = [])) = true
  · have hleft : goOn { w with calls := calls } rows =
        ({ w with calls := calls }, .returned) := if_pos hstop
    have hright : w.goOn rows = (w, .returned) := if_pos hstop
    rw [hleft, hright]
  · have hleft : goOn { w with calls := calls } rows =
        startRound { w with calls := calls } rows := if_neg hstop
    have hright : w.goOn rows = w.startRound rows := if_neg hstop
    rw [hleft, hright]
    by_cases hgrows : wouldGrowPast w.criteria.length
        (mergeCriteria w.criteria (w.textsOf (w.having rows .queued))).length
        maxAcceptanceCriteria = true
    · have hleft' : startRound { w with calls := calls } rows =
          ({ w with calls := calls, log := w.log ++ [.refused] }, .returned) := if_pos hgrows
      have hright' : w.startRound rows = ({ w with log := w.log ++ [.refused] }, .returned) :=
        if_pos hgrows
      rw [hleft', hright']
    · rw [startRound, startRound, if_neg hgrows]
      exact if_neg hgrows

/-- What an advance does once the last round is settled keeps it. -/
theorem Inv.goOn (h : Inv initial w) (hquiet : Quiet w) (hcall : call < w.calls.length) :
    Inv initial { (w.goOn rows).1 with calls := w.calls.set call (w.goOn rows).2 } := by
  rw [World.goOn]
  split
  · have hget : w.calls[call]? = some w.calls[call] := List.getElem?_eq_getElem hcall
    exact h.returned hget (not_reopened_of_not_midway (hquiet _ (getElem_mem hcall)))
  · rename_i hgo
    have hidle : w.activity = .idle := by
      simp only [assessIdle, Bool.or_eq_true, not_or, Bool.not_eq_true', Bool.and_eq_true,
        Bool.not_eq_false, decide_eq_true_eq] at hgo
      exact hgo.1.1.1
    exact h.startRound hquiet hidle hcall

section

variable (h : Inv initial { w with calls := w.calls.set call .returned })
  (hquiet : Quiet { w with calls := w.calls.set call .returned }) (hcall : call < w.calls.length)
include h hquiet hcall

theorem Inv.goOn_of_ended :
    Inv initial { (w.goOn rows).1 with calls := w.calls.set call (w.goOn rows).2 } := by
  have hgo : Inv initial
      { (World.goOn { w with calls := w.calls.set call .returned } rows).1 with
        calls := (w.calls.set call .returned).set call
          (World.goOn { w with calls := w.calls.set call .returned } rows).2 } :=
    h.goOn hquiet (by simpa using hcall)
  rw [goOn_calls] at hgo
  simpa using hgo

/-- The first step of an advance keeps it. -/
theorem Inv.begun : Inv initial (stepped w call (.begun chat) outcome) := by
  rw [stepped, advance.eq_def]
  dsimp only
  split
  · rename_i hends
    have hsettle : Inv initial
        (World.settle { w with calls := w.calls.set call .returned } chat) :=
      h.settle hquiet hends.2.1
    have hsettled := hsettle.setCall call (.settled (w.rowsOf chat)) (Quiet.alone hquiet)
      (fun _ => hsettle.prepared fun stage hstage =>
        not_reopened_of_not_midway (hquiet stage hstage))
      (by simpa [World.settle, World.writeRows] using hcall) (fun _ => hends.1)
      (fun _ _ hkind => by rcases hkind with hkind | hkind <;> cases hkind)
      (fun hkind => by cases hkind)
    have hset : (w.calls.set call .returned).set call (.settled (w.rowsOf chat)) =
        w.calls.set call (.settled (w.rowsOf chat)) := set_set ..
    show Inv initial { w.settle chat with calls := w.calls.set call (.settled (w.rowsOf chat)) }
    rw [← hset]
    exact hsettled
  · exact h.goOn_of_ended hquiet hcall

end

section

variable (h : Inv initial w)
include h

/-- So does the requeue of a ticket it reopened. -/
theorem Inv.requeued (halone : Alone w call)
    (hget : w.calls[call]? = some (.reopened queued round)) (hrequeues : outcome.requeues = true) :
    Inv initial (stepped w call (.reopened queued round) outcome) := by
  obtain ⟨hcall, -⟩ := List.getElem?_eq_some_iff.mp hget
  have hmem := mem_of_getElem? hget
  have hmarks := h.marks [.requeued] w.activity w.state (by simp)
    (fun hrun text wasDone hput => (h.running hrun text wasDone hput).mono)
    (fun hdone text wasDone hput => (h.done hdone text wasDone hput).mono) h.idle
    (fun hm => by rw [lastStart_append (by simp)]; exact h.asked hm)
    (h.starts.append (by simp))
  have hnext := hmarks.setCall call (.ready queued round) halone ?_ hcall
    (fun _ => h.idle _ hmem rfl) ?_ (fun hkind => by cases hkind)
  · rw [stepped, advance.eq_def]
    dsimp only
    rw [if_pos hrequeues]
    exact hnext
  · intro _ text wasDone hput
    rcases mem_append.mp hput with hput | hput
    · exact prepared_requeued hput
    · cases mem_singleton.mp hput
  · intro queued' round' hkind
    rcases hkind with hkind | hkind
    · cases hkind
    · obtain ⟨rfl, rfl⟩ := Stage.ready.inj hkind
      exact h.held queued round (.inl hmem)

section

variable (h0 : Inv initial { w with calls := w.calls.set call .returned })
include h0

section

variable (hquiet : Quiet { w with calls := w.calls.set call .returned })
include hquiet

/-- So does the marking of its rows. -/
theorem Inv.rowsMarked (hget : w.calls[call]? = some (.ready queued round)) :
    Inv initial (stepped w call (.ready queued round) outcome) := by
  obtain ⟨hcall, -⟩ := List.getElem?_eq_some_iff.mp hget
  have hmem := mem_of_getElem? hget
  have hready := h0.ready round hquiet (h.held queued round (.inr hmem))
  have hnext := hready.setCall call .marked (Quiet.alone hquiet)
    (fun _ => hready.prepared fun stage hstage =>
      not_reopened_of_not_midway (hquiet stage hstage))
    (by simpa [writeRows] using hcall) (fun _ => h.idle _ hmem rfl)
    (fun _ _ hkind => by rcases hkind with hkind | hkind <;> cases hkind)
    (fun _ => lastStart_round)
  have hset : (w.calls.set call .returned).set call .marked = w.calls.set call .marked := set_set ..
  rw [stepped, advance.eq_def]
  rw [← hset]
  exact hnext

/-- So does the request for a workflow. -/
theorem Inv.asks {activity : TicketActivity} {more : List Mark} (hmem : Stage.marked ∈ w.calls)
    (hmore : more = [] ∨ more = [.started]) (hrunning : activity = .running → more = [.started]) :
    Inv initial { w with
      activity := activity
      log := w.log ++ (.asked :: more)
      calls := w.calls.set call .returned } := by
  have hprepared : ∀ text wasDone, Mark.put text wasDone ∈ w.log → Prepared w.log text :=
    h0.prepared fun stage hstage => not_reopened_of_not_midway (hquiet stage hstage)
  refine h0.marks (.asked :: more) activity w.state ?_ ?_ ?_ ?_ ?_ ?_
  · rcases hmore with rfl | rfl <;> simp
  · intro hrun text wasDone hput
    refine (hprepared text wasDone hput).started ?_
    rw [hrunning hrun]
    simp
  · intro hdone text wasDone hput
    exact (h.done hdone text wasDone hput).mono
  · intro stage hstage hmid
    rw [hquiet stage hstage] at hmid
    cases hmid
  · intro hm
    cases hquiet _ hm
  · have hasked := h.starts.asked (h.asked hmem)
    have hall : OncePerRound (w.log ++ [.asked] ++ more) :=
      hasked.append (by rcases hmore with rfl | rfl <;> simp)
    rwa [append_assoc] at hall

/-- So does the answer to it. -/
theorem Inv.startAsked (hget : w.calls[call]? = some .marked) :
    Inv initial (stepped w call .marked outcome) := by
  have hmem := mem_of_getElem? hget
  rw [stepped, advance.eq_def]
  cases outcome.start with
  | none => exact h0
  | some activity =>
    cases activity with
    | running => exact h.asks h0 hquiet hmem (.inr rfl) fun _ => rfl
    | queued | idle => exact h.asks h0 hquiet hmem (.inl rfl) fun hrun => by cases hrun

end

end

/-- **One step of a call of a calm run.** -/
theorem Inv.step (hget : w.calls[call]? = some stage) (hcalm : Calm w (.step call outcome) = true) :
    Inv initial (stepped w call stage outcome) := by
  obtain ⟨hcall, -⟩ := List.getElem?_eq_some_iff.mp hget
  rw [Calm, hget] at hcalm
  obtain ⟨hfirst, hrequeues⟩ := Bool.and_eq_true_iff.mp hcalm
  have halone : Alone w call := by
    intro k other hk hne
    rcases Bool.or_eq_true_iff.mp hfirst with hmid | hothers
    · by_contra hother
      exact hne (h.alone k call other stage hk hget (by simpa using hother) hmid)
    · simpa using all_eq_true.mp hothers other (mem_of_getElem? hk)
  have hquiet := quiet_returned halone
  cases stage with
  | begun chat => exact (h.returned hget rfl).begun hquiet hcall
  | settled rows => exact (h.returned hget rfl).goOn_of_ended hquiet hcall
  | reopened queued round =>
    exact h.requeued halone hget (by simpa [Stage.isReopened] using hrequeues)
  | ready queued round => exact h.rowsMarked (h.returned hget rfl) hquiet hget
  | marked => exact h.startAsked (h.returned hget rfl) hquiet hget
  | returned => exact h.returned hget rfl

end

end Step

/-! ## One event -/

section Events

variable {initial : List Str} {w : World} {e : Event}

section

variable (h : Inv initial w)
include h

/-- When all is quiet, what was put on the ticket is prepared. -/
theorem Inv.prepared_of_quiet (hquiet : Quiet w) :
    ∀ text wasDone, Mark.put text wasDone ∈ w.log → Prepared w.log text :=
  h.prepared fun stage hstage => not_reopened_of_not_midway (hquiet stage hstage)

/-- While a workflow runs, all is quiet. -/
theorem Inv.quiet (hbusy : w.activity ≠ .idle) : Quiet w := by
  intro stage hstage
  by_contra hmid
  exact hbusy (h.idle stage hstage (by simpa using hmid))

/-- A workflow that starts keeps it. -/
theorem Inv.workflowStarts (hquiet : Quiet w) :
    Inv initial { w with activity := .running, log := w.log ++ [.started] } := by
  refine h.marks [.started] .running w.state (by simp) ?_ ?_ ?_ ?_
    (h.starts.append (by simp))
  · intro _ text wasDone hput
    exact (h.prepared_of_quiet hquiet text wasDone hput).started (by simp)
  · intro hdone text wasDone hput
    exact (h.done hdone text wasDone hput).mono
  · intro stage hstage hmid
    rw [hquiet stage hstage] at hmid
    cases hmid
  · intro hm
    cases hquiet _ hm

/-- So does one that ends. -/
theorem Inv.workflowEnds {state : TicketState} (hrunning : w.activity = .running) :
    Inv initial { w with activity := .idle, state := state, log := w.log ++ [.ended state] } := by
  have hquiet := h.quiet (by rw [hrunning]; decide)
  refine h.marks _ _ _ (by simp) ?_ ?_ (fun _ _ _ => rfl) ?_ (h.starts.append (by simp))
  · intro hrun
    cases hrun
  · rintro rfl text wasDone hput
    exact (h.running hrunning text wasDone hput).ended
  · intro hm
    cases hquiet _ hm

/-- So does one whose lane drops it. -/
theorem Inv.laneDrops : Inv initial { w with activity := .idle } :=
  { h with
    running := fun hrun => (by cases hrun)
    idle := fun _ _ _ => rfl }

/-- **One event of a calm run.** -/
theorem Inv.after (hcalm : Calm w e = true) : Inv initial (w.after e) := by
  cases e with
  | propose chat texts => exact h.propose
  | add chat text => exact h.add hcalm
  | decideCriteria chat ids accept => exact h.decideCriteria hcalm
  | call chat => exact h.called
  | step call outcome =>
    cases hget : w.calls[call]? with
    | none =>
      have hsame : w.after (.step call outcome) = w := by
        simp only [World.after, hget]
      rw [hsame]
      exact h
    | some stage =>
      rw [after_step hget]
      exact h.step hget hcalm
  | stop => exact h.stop hcalm
  | laneStarts =>
    show Inv initial (if _ then _ else _)
    split
    · rename_i hqueued
      exact h.workflowStarts (h.quiet (by rw [hqueued]; decide))
    · exact h
  | laneDrops =>
    show Inv initial (if _ then _ else _)
    split
    · exact h.laneDrops
    · exact h
  | boardStarts =>
    show Inv initial (if _ then _ else _)
    split
    · refine h.workflowStarts ?_
      intro stage hstage
      simpa using all_eq_true.mp hcalm stage hstage
    · exact h
  | ends state =>
    show Inv initial (if _ then _ else _)
    split
    · rename_i hrunning
      exact h.workflowEnds hrunning
    · exact h

end

/-! ### The way of the rows -/

theorem RowsMove.refl (w : World) : RowsMove w w := by
  intro i row hrow
  exact ⟨row, hrow, rfl, rfl, .stays _⟩

theorem rowsMove_of_rows {w' : World} (h : w'.rows = w.rows) : RowsMove w w' := by
  intro i row hrow
  exact ⟨row, by rw [h, hrow], rfl, rfl, .stays _⟩

/-- A decision moves rows on. -/
theorem rowsMove_decideCriteria {chat : ChatId} {accept : Bool} :
    RowsMove w (w.decideCriteria chat ids accept) := by
  have hmoves : ids.all (fun i => i ∈ w.having (w.rowsOf chat) .proposed) = true →
      ∀ status, Moves .proposed status →
        RowsMove w (w.writeRows ids fun row => { row with status := status }) := by
    intro hids status hmove
    refine rowsMove_writeRows (fun _ => rfl) (fun _ => rfl) ?_
    intro i hi row hrow
    obtain ⟨row', hrow', hproposed⟩ := mem_having_all hids hi
    rw [hrow] at hrow'
    obtain rfl := some.inj hrow'
    rw [hproposed]
    exact hmove
  rw [decideCriteria]
  split
  · rename_i hids
    split
    · split
      · exact hmoves hids _ .accepted
      · exact RowsMove.refl w
    · exact hmoves hids _ .dropped
  · exact RowsMove.refl w

/-- An advance writes no rows before it marks them. -/
theorem rows_goOn {rows : List Nat} : (w.goOn rows).1.rows = w.rows := by
  rw [goOn]
  split
  · rfl
  · rw [startRound]
    split <;> rfl

/-- A step of a call moves rows on. -/
theorem Inv.rowsMove_stepped {call : Nat} {stage : Stage} {outcome : World.Outcome}
    (h : Inv initial w) (hget : w.calls[call]? = some stage) :
    RowsMove w (stepped w call stage outcome) := by
  cases stage with
  | begun chat =>
    rw [stepped, advance.eq_def]
    dsimp only
    split
    · refine rowsMove_writeRows (fun _ => rfl) (fun _ => rfl) ?_
      intro i hi row hrow
      obtain ⟨-, row', hrow', hround⟩ := mem_having.mp hi
      rw [hrow] at hrow'
      obtain rfl := some.inj hrow'
      rw [hround]
      exact .ends
    · exact rowsMove_of_rows rows_goOn
  | settled rows => exact rowsMove_of_rows rows_goOn
  | reopened queued round | marked =>
    refine rowsMove_of_rows ?_
    rw [stepped, advance.eq_def]
    dsimp only
    split <;> rfl
  | ready queued round =>
    refine rowsMove_writeRows (f := fun row => { row with status := .inRound, round := round })
      (fun _ => rfl) (fun _ => rfl) ?_
    intro i hi row hrow
    obtain ⟨row', hrow', hqueued, -⟩ := h.held queued round (.inr (mem_of_getElem? hget)) i hi
    rw [hrow] at hrow'
    obtain rfl := some.inj hrow'
    rw [hqueued]
    exact .begins
  | returned => exact rowsMove_of_rows rfl

/-- Every event does. -/
theorem Inv.rowsMove (h : Inv initial w) : RowsMove w (w.after e) := by
  cases e with
  | propose chat texts => exact rowsMove_append
  | add chat text =>
    show RowsMove w (w.add chat text)
    rw [World.add]
    split
    · exact RowsMove.refl w
    · split
      · exact RowsMove.refl w
      · split
        · exact rowsMove_append
        · exact RowsMove.refl w
  | decideCriteria chat ids accept => exact rowsMove_decideCriteria
  | call chat | stop => exact rowsMove_of_rows rfl
  | step call outcome =>
    cases hget : w.calls[call]? with
    | none =>
      have hsame : w.after (.step call outcome) = w := by
        simp only [World.after, hget]
      rw [hsame]
      exact RowsMove.refl w
    | some stage =>
      rw [after_step hget]
      exact h.rowsMove_stepped hget
  | laneStarts | laneDrops | boardStarts | ends _ =>
    refine rowsMove_of_rows ?_
    show World.rows (if _ then _ else _) = _
    split <;> rfl

end Events

/-! ## Every run -/

def Step (w : World) (e : Event) (w' : World) : Prop := w.after e = w'

/-- The ticket a chat is bound to: any criteria, any state, its workflow running or not. -/
def World.start (criteria : List Str) (state : TicketState) (activity : TicketActivity) : World :=
  { criteria := normalizeCriteria criteria, state := state, activity := activity }

/-- The first world has it. -/
theorem Inv.start (criteria : List Str) (state : TicketState) (activity : TicketActivity) :
    Inv (normalizeCriteria criteria) (start criteria state activity) where
  keeps _ hmem := hmem
  count text hnot := by
    rw [show (World.start criteria state activity).criteria = normalizeCriteria criteria from rfl,
      count_eq_zero.mpr hnot]
    exact Nat.zero_le _
  fresh _ hrow := by cases hrow
  logged _ hmem hnot := absurd hmem hnot
  onTicket _ hrow := by cases hrow
  prepared _ _ _ hput := by cases hput
  running _ _ _ hput := by cases hput
  done _ _ _ hput := by cases hput
  met _ hrow := by cases hrow
  alone _ _ _ _ hi := by cases hi
  idle _ hstage := by cases hstage
  held _ _ hcall := by rcases hcall with hcall | hcall <;> cases hcall
  asked hm := by cases hm
  starts := by
    intro pre post heq
    have hlen := congrArg List.length heq
    simp [World.start] at hlen
  room := .inl rfl
  notRefused hmem := by cases hmem

/-- **Rounds are sound in every calm run**, from any ticket: every world is
    `LoopSound`, and every event behind it moves the rows the way they go. -/
theorem rounds_sound {criteria : List Str} {state : TicketState} {activity : TicketActivity}
    {tr : List Event} {w : World}
    (hr : Run (Guarded Step fun w e => Calm w e = true) (World.start criteria state activity)
      tr w) :
    LoopSound w ∧ ∀ e : Event, RowsMove w (w.after e) := by
  have hinv : Inv (normalizeCriteria criteria) w := by
    refine hr.invariant ?_ (Inv.start criteria state activity)
    rintro s e t hs ⟨hcalm, rfl⟩
    exact hs.after hcalm
  exact ⟨hinv.sound, fun _ => hinv.rowsMove⟩

/-- Criteria accepted while the ticket's first workflow runs, and two rounds. -/
def twoRounds : List Event :=
  let go : World.Outcome := ⟨true, some .running⟩
  [.boardStarts, .add 0 "toggle".toList, .propose 0 ["contrast".toList], .ends .done, .call 0,
    .step 0 go, .step 0 go, .step 0 go, .step 0 go, .decideCriteria 0 [1] true, .ends .done,
    .call 0, .step 1 go, .step 1 go, .step 1 go, .step 1 go, .step 1 go, .ends .done, .call 0,
    .step 2 go]

/-- Two rounds of one chat. -/
theorem twoRounds_sound : ((twoRounds.foldl World.after (World.start [] .backlog .idle)).rows.map
      FeatureCriterion.status) = [.met, .met] ∧
    LoopSound (twoRounds.foldl World.after (World.start [] .backlog .idle)) :=
  ⟨by decide +kernel, (rounds_sound (Run.of_meets (fun _ _ hcalm => ⟨hcalm, rfl⟩)
      (by decide +kernel : meets World.after Calm (World.start [] .backlog .idle) twoRounds
        = true))).1⟩

/-- A ticket one below the cap, and two chats that each accept one criterion. -/
def twoChats : List Event :=
  let go : World.Outcome := ⟨true, some .running⟩
  [.add 0 "one".toList, .add 1 "two".toList, .call 0, .step 0 go, .step 0 go, .step 0 go,
    .ends .done, .call 1, .step 1 go]

/-- Eleven texts, which leave room for one more. -/
def eleven : List Str := (List.range 11).map fun n => List.replicate (n + 1) 'x'

/-- **An accepted criterion that its round refuses.** -/
theorem refused_after_acceptance :
    ¬ ∀ (criteria : List Str) (state : TicketState) (activity : TicketActivity)
      (tr : List Event) (w : World), Run Step (World.start criteria state activity) tr w →
        LoopSound w := by
  intro h
  have hsound := h eleven .inProgress .idle twoChats _ (Run.of_foldl (fun _ _ => rfl) _ _)
  refine hsound.notRefused ?_
  decide +kernel

end Loregarden.FeatureLoop

