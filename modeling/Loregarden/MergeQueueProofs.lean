import Mathlib.Data.List.MinMax
import Mathlib.Order.Nat
import Loregarden.MergeQueueLoopModel
import Loregarden.RunProofs

/-! # What a write of the merge queue does

    * `transition_rewrites`: a write that went through replaces one row;
    * `Operated`: everything a call may do to the table, `go_operated`;
    * `headEntry_spec`: the entry the loop acts on;
    * `Planned`: what every write of the loop keeps, once an entry is active. -/

namespace Loregarden.MergeQueue

open Ranked Runs List MergeQueueState

variable {q q' : Queue} {r r' x y e : MergeQueueEntry} {id p : Nat} {now : Instant}
  {expected state : MergeQueueState} {fields : Fields} {call : Call} {candidate : Candidate}
  {cfg : Settings} {cuts : List Cut} {built : Staged} {pr : StagedPullRequest} {after : After}

/-! ## Rows -/

theorem mem_live {t : Table} : x ∈ live t ↔ x ∈ t.rows ∧ x.state.terminal = false := by
  rw [live, mem_filter, decide_eq_true_iff, Bool.not_eq_true]

theorem mem_liveEntries : x ∈ liveEntries q ↔ x ∈ q.table.rows ∧ x.state.terminal = false :=
  mem_ranked.trans mem_live

theorem MergeQueueState.not_terminal_of_active {s : MergeQueueState} (h : s.active = true) :
    s.terminal = false := by
  cases s <;> first | rfl | cases h

theorem get_mem (h : q.get id = some r) : r ∈ q.table.rows ∧ r.id = id := Keyed.get_eq_some h

theorem row_eq (hx : x ∈ q.table.rows) (hy : y ∈ q.table.rows) (h : x.id = y.id) : x = y :=
  Keyed.eq_of_id hx hy h

theorem commit_eq_some {t : Table} (h : commit t = some q') : q'.table = t := by
  rw [commit] at h
  split at h
  · cases h
    rfl
  · cases h

theorem lt_nextPosition (h : r ∈ q.table.rows) : r.position < nextPosition q :=
  Nat.lt_succ_of_le (le_max_of_le' 0 (mem_map_of_mem h) le_rfl)

theorem nextPosition_le {n : Nat} (hn : 0 < n) (h : ∀ r ∈ q.table.rows, r.position < n) :
    nextPosition q ≤ n := by
  have hmax : (q.table.rows.map (·.position)).foldr max ⊥ ≤ n - 1 := by
    refine max_le_of_forall_le _ _ fun i hi => ?_
    obtain ⟨r, hr, rfl⟩ := mem_map.mp hi
    exact Nat.le_sub_one_of_lt (h r hr)
  exact Nat.add_le_of_le_sub hn hmax

theorem nextPosition_mono (h : ∀ r ∈ q.table.rows, ∃ r' ∈ q'.table.rows, r.position ≤ r'.position) :
    nextPosition q ≤ nextPosition q' := by
  refine nextPosition_le (Nat.succ_pos _) fun r hr => ?_
  obtain ⟨r', hr', hle⟩ := h r hr
  exact Nat.lt_of_le_of_lt hle (lt_nextPosition hr')

/-! ## Writes -/

structure Rewrites (q q' : Queue) (r r' : MergeQueueEntry) : Prop where
  mem : r ∈ q.table.rows
  id : r'.id = r.id
  rows : ∀ x, x ∈ q'.table.rows ↔ x ∈ q.table.rows ∧ x.id ≠ r.id ∨ x = r'

theorem transition_rewrites (h : transition q id expected fields now = .moved q') :
    ∃ r, r.id = id ∧ r.state = expected ∧ Rewrites q q' r (fields.apply expected now r) := by
  rw [transition] at h
  split at h
  · cases h
  · rename_i r hget
    obtain ⟨hmem, rfl⟩ := get_mem hget
    split at h
    · cases h
    · rename_i hstate
      split at h
      · rename_i hcommit
        cases h
        refine ⟨r, rfl, not_not.mp hstate, hmem, rfl, fun x => ?_⟩
        rw [commit_eq_some hcommit, Keyed.mem_update]
        constructor
        · rintro (hold | ⟨y, hy, hid, rfl⟩)
          · exact .inl hold
          · rw [row_eq hy hmem hid]
            exact .inr rfl
        · rintro (hold | rfl)
          · exact .inl hold
          · exact .inr ⟨r, hmem, rfl, rfl⟩
      · cases h

namespace Rewrites

section

variable (h : Rewrites q q' r r')
include h

theorem mem_new : r' ∈ q'.table.rows := (h.rows r').mpr (.inr rfl)

theorem keeps (hx : x ∈ q.table.rows) (hid : x.id ≠ r.id) : x ∈ q'.table.rows :=
  (h.rows x).mpr (.inl ⟨hx, hid⟩)

theorem cases (hx : x ∈ q'.table.rows) : x ∈ q.table.rows ∧ x.id ≠ r.id ∨ x = r' := (h.rows x).mp hx

theorem nextPosition_le (hp : r.position ≤ r'.position) : nextPosition q ≤ nextPosition q' :=
  nextPosition_mono fun x hx => by
    by_cases hid : x.id = r.id
    · exact ⟨r', h.mem_new, row_eq hx h.mem hid ▸ hp⟩
    · exact ⟨x, h.keeps hx hid, le_rfl⟩

end

end Rewrites

structure Inserts (q q' : Queue) (r : MergeQueueEntry) : Prop where
  fresh : ∀ x ∈ q.table.rows, x.id ≠ r.id
  rows : ∀ x, x ∈ q'.table.rows ↔ x ∈ q.table.rows ∨ x = r

theorem commit_inserts (hr : r.id = q.table.next) (h : commit (q.table.insert r hr) = some q') :
    Inserts q q' r where
  fresh := fun x hx hid => Nat.lt_irrefl _ (hid.trans hr ▸ q.table.fresh x hx)
  rows := fun x => by rw [commit_eq_some h, Keyed.mem_insert]

/-! ## What a call does -/

/-- A row a call is about to write over was in a state that it may write over. -/
def Call.Careful : Call → Prop
  | .matching _ seen => ∀ e ∈ seen, e.state.terminal = false
  | .repointing _ e => e.state.terminal = false ∧ e.state ≠ .merging
  | .withdrawing e => e.state.terminal = false ∧ e.state ≠ .merging
  | _ => True

theorem enqueue_careful : (enqueue q candidate).Careful := by
  rw [enqueue]
  split
  · trivial
  · split
    · trivial
    · exact fun e he => (mem_liveEntries.mp he).2

theorem matchPr_careful {seen : List MergeQueueEntry}
    (h : ∀ e ∈ seen, e.state.terminal = false) : (matchPr q candidate seen).Careful := by
  rw [matchPr]
  split
  · rename_i same hsame
    split
    · rename_i hstate
      obtain ⟨x, hx, rfl⟩ := mem_map.mp (mem_of_find?_eq_some hsame)
      refine ⟨?_, hstate⟩
      cases hseen : seen.find? (·.id = x.id) with
      | none => exact (mem_liveEntries.mp hx).2
      | some e => exact h e (mem_of_find?_eq_some hseen)
    · trivial
  · trivial

theorem withdraw_careful : (withdraw q id).Careful := by
  rw [withdraw]
  split
  · trivial
  · rename_i e _
    split
    · trivial
    · rename_i hlive
      have hlive : e.state.terminal = false := Bool.not_eq_true _ ▸ hlive
      cases hstate : e.state with
      | queued | staging | testing => exact ⟨hlive, hstate ▸ noConfusion⟩
      | merging => trivial
      | merged | failed | timedOut | withdrawn => cases hstate ▸ hlive

theorem retry_careful : (retry q id).Careful := by
  rw [retry]
  split
  · trivial
  · split <;> trivial

theorem recheck_careful : (recheck q e).Careful := by
  rw [recheck]
  split <;> trivial

theorem go_careful (h : call.Careful) : (call.go q now).2.1.Careful := by
  cases call with
  | requested request =>
    cases request with
    | enqueue candidate => exact enqueue_careful
    | withdraw id => exact withdraw_careful
    | retry id => exact retry_careful
  | matching candidate seen => exact matchPr_careful h
  | rechecking e => exact recheck_careful
  | positioning candidate tries | placing e tries => cases tries <;> trivial
  | repointing candidate e | inserting candidate tries p | clashed candidate tries
  | withdrawing e | rejoining e tries p | rereading id tries =>
    rw [Call.go]
    split <;> trivial
  | idle | replied reply => trivial

theorem update_careful {calls : Nat → Call} {session : Nat} (h : ∀ n, (calls n).Careful)
    (hc : call.Careful) : ∀ n, (Function.update calls session call n).Careful := by
  intro n
  rw [Function.update_apply]
  split
  · exact hc
  · exact h n

/-- Everything one read or write of a call may do to the table. -/
inductive Operated (q : Queue) (call : Call) : Queue → Option (Nat × Nat) → Prop where
  | same : Operated q call q none
  /-- Re-pointed or withdrawn, in its place. -/
  | displaced {q' : Queue} {r r' : MergeQueueEntry} (h : Rewrites q q' r r')
      (live : r.state.terminal = false) (early : r.state ≠ .merging)
      (state : r'.state = .queued ∨ r'.state = .withdrawn)
      (position : r'.position = r.position) : Operated q call q' none
  | retried {q' : Queue} {e r r' : MergeQueueEntry} {tries p : Nat}
      (go : call = .rejoining e tries p) (h : Rewrites q q' r r') (id : r.id = e.id)
      (found : r.state = e.state) (state : r'.state = .queued) (position : r'.position = p) :
      Operated q call q' (some (p, e.id))
  | admitted {q' : Queue} {candidate : Candidate} {r : MergeQueueEntry} {tries p : Nat}
      (go : call = .inserting candidate tries p) (h : Inserts q q' r) (state : r.state = .queued)
      (position : r.position = p) : Operated q call q' (some (p, r.id))

theorem go_operated (h : call.Careful) : Operated q call (call.go q now).1 (call.go q now).2.2 := by
  cases call with
  | requested request => cases request <;> exact .same
  | positioning candidate tries | placing e tries => cases tries <;> exact .same
  | clashed candidate tries | rereading id tries =>
    rw [Call.go]
    split <;> exact .same
  | repointing candidate e =>
    obtain ⟨hlive, hearly⟩ := h
    rw [Call.go]
    split
    · rename_i q' hmoved
      obtain ⟨r, hid, hstate, hr⟩ := transition_rewrites hmoved
      exact .displaced hr (hstate ▸ hlive) (hstate ▸ hearly) (.inl rfl) rfl
    · exact .same
    · exact .same
  | withdrawing e =>
    obtain ⟨hlive, hearly⟩ := h
    rw [Call.go]
    split
    · rename_i q' hmoved
      obtain ⟨r, hid, hstate, hr⟩ := transition_rewrites hmoved
      exact .displaced hr (hstate ▸ hlive) (hstate ▸ hearly) (.inr rfl) rfl
    · exact .same
    · exact .same
  | rejoining e tries p =>
    rw [Call.go]
    split
    · rename_i q' hmoved
      obtain ⟨r, hid, hstate, hr⟩ := transition_rewrites hmoved
      exact .retried rfl hr hid hstate rfl rfl
    · exact .same
    · exact .same
  | inserting candidate tries p =>
    rw [Call.go]
    split
    · rename_i q' hcommit
      exact .admitted rfl (commit_inserts _ hcommit) rfl rfl
    · exact .same
  | idle | replied reply | matching candidate seen | rechecking e => exact .same

theorem headEntry_spec (h : headEntry q = some e) : e ∈ q.table.rows ∧ e.state.terminal = false ∧
      (e.state.active = true ∨ (∀ x ∈ q.table.rows, x.state.active = false) ∧
        ∀ x ∈ q.table.rows, x.state.terminal = false → x.id ≠ e.id → e.position < x.position) := by
  rcases Option.or_eq_some_iff.mp h with hactive | ⟨hnone, hfirst⟩
  · have hmem := mem_of_head? hactive
    rw [mem_filter] at hmem
    obtain ⟨hrow, hlive⟩ := mem_liveEntries.mp hmem.1
    exact ⟨hrow, hlive, .inl hmem.2⟩
  · obtain ⟨hrow, hlive⟩ := mem_liveEntries.mp (mem_of_head? hfirst)
    refine ⟨hrow, hlive, .inr ⟨fun x hx => ?_, fun x hx hxlive hid => ?_⟩⟩
    · rw [List.head?_eq_none_iff, filter_eq_nil_iff] at hnone
      by_contra hactive
      have hactive : x.state.active = true := Bool.not_eq_false _ ▸ hactive
      exact hnone x (mem_liveEntries.mpr ⟨hx, not_terminal_of_active hactive⟩)
        hactive
    · obtain ⟨tail, htail⟩ := List.head?_eq_some_iff.mp hfirst
      have hsorted : Ascending (·.position) (liveEntries q) :=
        ranked_ascending ((filter_sublist.map _).nodup q.unique.1)
      have hxmem := mem_liveEntries.mpr ⟨hx, hxlive⟩
      rw [htail] at hsorted hxmem
      rcases mem_cons.mp hxmem with rfl | hxtail
      · exact absurd rfl hid
      · exact (pairwise_cons.mp hsorted).1 x hxtail

/-! ## What the loop plans -/

def MergeQueueState.staged : MergeQueueState → Bool
  | .testing | .merging | .merged => true
  | _ => false

def MergeQueueEntry.cut (e : MergeQueueEntry) : Cut :=
  ⟨e.stagedSha, e.headSha, e.stagedBaseSha, e.stagedTree⟩

/-- A staged row was cut from its head, and a merged one landed the tree of that cut. -/
structure Backed (cuts : List Cut) (e : MergeQueueEntry) : Prop where
  cut : e.state.staged = true → e.cut ∈ cuts
  landed : e.state = .merged → e.landedTree = e.stagedTree

theorem Backed.mono {cuts' : List Cut} (h : Backed cuts e) (hsub : cuts ⊆ cuts') :
    Backed cuts' e where
  cut := fun hs => hsub (h.cut hs)
  landed := h.landed

theorem backed_of_not_staged (h : e.state.staged = false) : Backed cuts e where
  cut := fun hs => absurd hs (h ▸ Bool.false_ne_true)
  landed := fun hm => by cases hm ▸ h

/-- A write over a row that is the entry as it was read, or one that is not active. -/
def Keeps (cuts : List Cut) (e : MergeQueueEntry) (expected : MergeQueueState)
    (fields : Fields) : Prop :=
  ∀ now row, row.state = expected → (expected.active = true → row = e) → Backed cuts row →
    Backed cuts (fields.apply expected now row)

structure Planned (cuts : List Cut) (e : MergeQueueEntry) (expected : MergeQueueState)
    (fields : Fields) : Prop where
  active : fields.state ≠ none → expected.active = true
  position : fields.position = none
  backed : Keeps cuts e expected fields

section

variable (ha : expected.active = true)
include ha

theorem planned_leave (hs : fields.state = some state)
    (hn : state.staged = false) (hp : fields.position = none) :
    Planned cuts e expected fields where
  active := fun _ => ha
  position := hp
  backed := fun now row _ _ _ => backed_of_not_staged (by
    show (fields.state.getD row.state).staged = false
    rw [hs]
    exact hn)

theorem planned_keep (hexp : expected.staged = true)
    (hs : ∀ s, fields.state = some s → s ≠ .merged) (hp : fields.position = none)
    (hcut : ∀ now row, (fields.apply expected now row).cut = row.cut) :
    Planned cuts e expected fields where
  active := fun _ => ha
  position := hp
  backed := fun now row hstate _ h => {
    cut := fun _ => hcut now row ▸ h.cut (hstate ▸ hexp)
    landed := fun hm => by
      have hm : fields.state.getD row.state = .merged := hm
      cases hf : fields.state with
      | none =>
        rw [hf, Option.getD_none, hstate] at hm
        rw [hm] at ha
        cases ha
      | some s =>
        rw [hf] at hm
        exact absurd hm (hs s hf) }

/-- Nothing is left to do but write, or ask for something less than a merge. -/
def After.Plain : After → Prop
  | .stage _ | .merge _ => False
  | _ => True

/-- A phase that goes on with an entry as it was read. -/
def Phase.GoesOn (cuts : List Cut) (e : MergeQueueEntry) : Phase → Prop
  | .idle => True
  | .writing e' expected fields after => e' = e ∧ Planned cuts e expected fields ∧ after.Plain
  | .cutting e' | .filing e' | .waiting e' | .refused e' | .confirming e' | .resuming e' => e' = e
  | .pushing e' staged => e' = e ∧ ⟨staged.sha, e.headSha, staged.baseSha, staged.tree⟩ ∈ cuts
  | _ => False

theorem stop_goesOn (hn : state.staged = false) : (stop e expected state).GoesOn cuts e :=
  ⟨rfl, planned_leave ha rfl hn rfl, trivial⟩

omit ha in
theorem hold_goesOn (wait : MergeQueueWait) (ha : expected.active = true)
    (hexp : expected.staged = true) : (hold e expected wait).GoesOn cuts e :=
  ⟨rfl, planned_keep ha hexp (fun _ h => by cases h) rfl fun _ _ => rfl, trivial⟩

theorem relabel_goesOn (hexp : expected.staged = true)
    (hs : state ≠ .merged) (hplain : after.Plain) :
    (relabel e expected state after).GoesOn cuts e :=
  ⟨rfl, planned_keep ha hexp (fun s h => by cases h; exact hs) rfl fun _ _ => rfl, hplain⟩

end

theorem restage_goesOn : (restage e).GoesOn cuts e := ⟨rfl, planned_leave rfl rfl rfl rfl, trivial⟩

theorem stage_goesOn : (stage cfg e).GoesOn cuts e := by
  rw [stage]
  split
  · exact stop_goesOn rfl rfl
  · exact rfl

theorem afterCut_goesOn (h : built.verdict = .clean →
    ⟨built.sha, e.headSha, built.baseSha, built.tree⟩ ∈ cuts) :
    (afterCut e built).GoesOn cuts e := by
  cases hv : built.verdict with
  | conflicted =>
    rw [afterCut, hv]
    exact ⟨rfl, planned_leave rfl rfl rfl rfl, trivial⟩
  | undetermined =>
    rw [afterCut, hv]
    exact stop_goesOn rfl rfl
  | clean =>
    rw [afterCut, hv]
    exact ⟨rfl, h hv⟩

theorem afterPush_goesOn {ok : Bool}
    (h : ⟨built.sha, e.headSha, built.baseSha, built.tree⟩ ∈ cuts) :
    (afterPush e built ok now).GoesOn cuts e := by
  rw [afterPush]
  split
  · exact ⟨rfl, planned_leave rfl rfl rfl rfl, trivial⟩
  · refine ⟨rfl, ⟨fun _ => rfl, rfl, fun _ row _ hrow _ => ⟨fun _ => ?_, fun hm => ?_⟩⟩, trivial⟩
    · -- the row is the entry that was cut, so its head is the head of the cut
      rw [hrow rfl]
      exact h
    · cases hm

theorem closedOutside_goesOn : (closedOutside e pr).GoesOn cuts e := by
  rw [closedOutside]
  split
  · exact relabel_goesOn rfl rfl noConfusion trivial
  · exact ⟨rfl, planned_leave rfl rfl rfl rfl, trivial⟩

/-- A reading that lets a commit land: it is the head, and its required checks are all
    reported, and each passed, or was skipped. -/
structure Passes (sha : Sha) (pr : StagedPullRequest) (required : List String) : Prop where
  head : pr.headSha = sha
  reported : unreported pr.checks required = []
  passed : ∀ reading ∈ readRequired pr.checks required,
    reading.outcome = .passing ∨ reading.outcome = .skipped

theorem wait_cases (answer : Option (StagedPullRequest × List String)) :
    (wait cfg e now answer).GoesOn cuts e ∨
      ∃ pr required, answer = some (pr, required) ∧ wait cfg e now answer = .landing e pr ∧
        Passes e.stagedSha pr required := by
  rw [wait.eq_def]
  split
  · exact .inl (stop_goesOn rfl rfl)
  · split
    · exact .inl (hold_goesOn _ rfl rfl)
    · rename_i pr required
      split
      · exact .inl closedOutside_goesOn
      · split
        · exact .inl restage_goesOn
        · rename_i hhead
          dsimp only
          split
          · exact .inl (stop_goesOn rfl rfl)
          · rename_i hfailing
            split
            · exact .inl (hold_goesOn _ rfl rfl)
            · rename_i hreported
              split
              · exact .inl (hold_goesOn _ rfl rfl)
              · rename_i hpending
                refine .inr ⟨pr, required, rfl, rfl, not_not.mp hhead, ?_, fun reading hr => ?_⟩
                · exact isEmpty_iff.mp (not_not.mp hreported)
                · have hnotfailing : reading.outcome ≠ .failing := fun h =>
                    hfailing (any_eq_true.mpr ⟨reading, hr, decide_eq_true h⟩)
                  have hnotpending : reading.outcome ≠ .pending := fun h =>
                    hpending (any_eq_true.mpr ⟨reading, hr, decide_eq_true h⟩)
                  cases hout : reading.outcome with
                  | passing => exact .inl rfl
                  | skipped => exact .inr rfl
                  | failing => exact absurd hout hnotfailing
                  | pending => exact absurd hout hnotpending

/-- What `_land` writes. -/
def landFields : Fields := { state := some .merging, wait := some .none }

theorem land_cases (e : MergeQueueEntry) (pr : StagedPullRequest) (fetched : Option Sha) :
    (land e pr fetched).GoesOn cuts e ∨ fetched = some e.stagedBaseSha ∧
        land e pr fetched = .writing e .testing landFields (.merge pr) := by
  cases fetched with
  | none => exact .inl (hold_goesOn _ rfl rfl)
  | some baseSha =>
    by_cases hbase : baseSha = e.stagedBaseSha
    · exact .inr ⟨congrArg some hbase, if_neg (not_not.mpr hbase)⟩
    · rw [land, if_pos hbase]
      exact .inl restage_goesOn

theorem mergeRefused_goesOn (fetched : Option Sha) : (mergeRefused e fetched).GoesOn cuts e := by
  cases fetched with
  | none => exact stop_goesOn rfl rfl
  | some baseSha =>
    rw [mergeRefused]
    split
    · exact relabel_goesOn rfl rfl noConfusion trivial
    · exact stop_goesOn rfl rfl

theorem confirmMerged_goesOn (answer : Option StagedPullRequest) :
    (confirmMerged e answer).GoesOn cuts e := by
  cases answer with
  | none => exact hold_goesOn _ rfl rfl
  | some merged =>
    rw [confirmMerged]
    split
    · exact stop_goesOn rfl rfl
    · by_cases htree : merged.mergeTree = e.stagedTree
      · refine ⟨rfl, ⟨fun _ => rfl, rfl, fun _ row hstate hrow h => ⟨fun _ => ?_, fun _ => ?_⟩⟩,
          trivial⟩
        · exact h.cut (hstate ▸ rfl)
        · rw [hrow rfl]
          exact htree
      · rw [if_pos htree]
        exact ⟨rfl, planned_leave rfl rfl rfl rfl, trivial⟩

theorem resumeMerging_goesOn (answer : Option StagedPullRequest) :
    (resumeMerging e answer).GoesOn cuts e := by
  cases answer with
  | none => exact hold_goesOn _ rfl rfl
  | some pr =>
    rw [resumeMerging]
    split
    · exact rfl
    · exact relabel_goesOn rfl rfl noConfusion trivial

theorem filed_goesOn :
    (Phase.writing e .failed { wait := some .conflictArtifactOpen } .done).GoesOn cuts e :=
  ⟨rfl, ⟨fun h => absurd rfl h, rfl, fun _ row hstate _ _ => backed_of_not_staged (by
    show row.state.staged = false
    rw [hstate]
    rfl)⟩, trivial⟩

theorem reloaded_cases (cfg : Settings) (e : MergeQueueEntry) (after : After) :
    (reloaded cfg e after).GoesOn cuts e ∨
      ∃ pr, after = .merge pr ∧ reloaded cfg e after = .asserting e pr := by
  cases after with
  | done => exact .inl trivial
  | stage place => exact .inl stage_goesOn
  | artifact | confirm | wait => exact .inl rfl
  | merge pr => exact .inr ⟨pr, rfl, rfl⟩
  | restage => exact .inl restage_goesOn

/-- What `_stage` writes first. -/
def stageFields : Fields := { state := some .staging, wait := some .none }

theorem step_cases (place : Nat) : (step cfg e place).GoesOn cuts e ∨ e.state = .queued ∧
        step cfg e place = .writing e .queued stageFields (.stage place) := by
  cases hstate : e.state with
  | queued =>
    refine .inr ⟨rfl, ?_⟩
    rw [step, hstate]
    rfl
  | staging =>
    rw [step, hstate]
    exact .inl stage_goesOn
  | testing | merging =>
    rw [step, hstate]
    exact .inl rfl
  | merged | failed | timedOut | withdrawn =>
    rw [step, hstate]
    exact .inl trivial

def candidate7 : Candidate where
  prNumber := 7
  headSha := "h7"

def candidate8 : Candidate where
  prNumber := 8
  headSha := "h8"

def asks (session : Nat) (request : Request) (moves : Nat) : List Act :=
  .call session request :: List.replicate moves (.go session)

/-- The loop stages the head of the queue, and waits for its checks. -/
def stages : List Act :=
  [.pick, .step, .write, .reload, .cut ⟨.clean, "s1", "t1", "b1"⟩, .push true, .write, .reload,
    .pick, .step].map .loop

def systemAfter (acts : List Act) : System :=
  (acts.map fun act => ((0 : Instant), act)).foldl (fun s step => s.act {} step.1 step.2) System.new

theorem run_systemAfter (acts : List Act) :
    Run (QueueStep {}) System.new (acts.map fun act => (0, act)) (systemAfter acts) := by
  refine Run.of_foldl (fun s step => ?_) _ _
  exact rfl

theorem run_guarded {cond : System → Instant × Act → Prop}
    [∀ s step, Decidable (cond s step)] {acts : List Act}
    (h : meets (fun s step => s.act {} step.1 step.2) (fun s step => decide (cond s step))
      System.new (acts.map fun act => (0, act)) = true) :
    Run (Guarded (QueueStep {}) cond) System.new (acts.map fun act => (0, act))
      (systemAfter acts) := by
  refine Run.of_meets (fun s step hc => ?_) h
  exact ⟨of_decide_eq_true hc, rfl⟩

end Loregarden.MergeQueue

