import Loregarden.LandingModel
import Loregarden.RunProofs

/-! # What a landing leaves in the worktrees

A call leaves the worktrees and the branch's tip as they are, or its refresh moves the branch
(`landTicket_cases`). Where each existing worktree is taken along, it differs from the new tip only
by the local edits it had, and its index has what was refreshed; a sequence of calls in which every
refresh is taken leaves nothing stale (`noStale_of_taken`). -/

namespace Loregarden.Landing

open TwoTree Runs List Option

variable {mergeTree : List Commit → Sha → Sha → MergeAnswer} {branch : Branch} {call : Call}
variable {r r' : Repo}
variable {fails : String → Bool} {after before : Files} {w : Worktree} {ws : List Worktree}

/-! ## What stays -/

/-- The worktrees stay, commits are only added, and the branch stays where it is. -/
structure Frame (branch : Branch) (r r' : Repo) : Prop where
  worktrees : r'.worktrees = r.worktrees
  commits : r.commits <+: r'.commits
  head : r'.heads branch = r.heads branch

theorem Frame.refl (branch : Branch) (r : Repo) : Frame branch r r := ⟨rfl, prefix_rfl, rfl⟩

theorem tree_of_commits (h : r.commits <+: r'.commits) {sha : Sha} (hsha : sha < r.commits.length) :
    r'.tree sha = r.tree sha := by
  obtain ⟨extra, hextra⟩ := h
  rw [Repo.tree, Repo.tree, ← hextra, List.getElem?_append_left hsha]

theorem Frame.tip (h : Frame branch r r') : r'.tip branch = r.tip branch := by
  rw [Repo.tip, Repo.tip, h.head]
  cases hb : r.heads branch with
  | none => rfl
  | some sha => exact tree_of_commits h.commits (r.heads_lt branch sha hb)

/-- What `merge_tips` leaves of a repository. -/
def MergeLeaves (r r' : Repo) (target source : Branch) (o : MergeOutcome) : Prop :=
  r'.worktrees = r.worktrees ∧ r.commits <+: r'.commits ∧
    (((∀ sha, o ≠ .merged sha) ∧ r'.heads = r.heads) ∨
      ∃ sha, o = .merged sha ∧ source ≠ target ∧ r.heads target ≠ none ∧
        r'.heads = fun other => if other = target then some sha else r.heads other)

/-- **What `merge_tips` does to a repository.** -/
theorem mergeTips_spec (fails : MergeStep → Bool) (verify : Option Bool) (r : Repo)
    (target source : Branch) {o : MergeOutcome}
    (h : mergeTips mergeTree fails verify r target source = (o, r')) :
    MergeLeaves r r' target source o := by
  have hstay : ∀ {o' : MergeOutcome}, (o', r) = (o, r') → (∀ sha, o' ≠ .merged sha) →
      MergeLeaves r r' target source o := by
    intro o' heq ho'
    cases heq
    exact ⟨rfl, prefix_rfl, .inl ⟨ho', rfl⟩⟩
  have hwrite : ∀ {c : Commit}, (MergeOutcome.refused [], r.write c) = (o, r') →
      MergeLeaves r r' target source o := by
    intro c heq
    cases heq
    exact ⟨rfl, prefix_append _ _, .inl ⟨fun _ => nofun, rfl⟩⟩
  rw [mergeTips] at h
  split at h
  · exact hstay h fun _ => nofun
  · split at h
    · rename_i s t hs ht
      split at h
      · exact hstay h fun _ => nofun
      · rename_i hapart
        split at h
        · exact hstay h fun _ => nofun
        · split at h
          · exact hstay h fun _ => nofun
          · rw [publish] at h
            split at h
            · exact hstay h fun _ => nofun
            · split at h
              · exact hwrite h
              · split at h
                · exact hwrite h
                · cases h
                  refine ⟨rfl, prefix_append _ _, .inr ⟨_, rfl, ?_, ht ▸ nofun, rfl⟩⟩
                  rintro rfl
                  exact hapart (.inl (some.inj (hs.symm.trans ht)))
    · exact hstay h fun _ => nofun

theorem ensure_frame (hb : r.heads branch ≠ none) (h : ensureIntegrationBranch call r = some r') :
    Frame branch r r' := by
  rw [ensureIntegrationBranch] at h
  split at h
  · cases h
  · split at h
    · cases h
      exact .refl branch r
    · rename_i hnone
      split at h
      · cases h
      · split at h
        · cases h
        · cases h
          refine ⟨rfl, prefix_rfl, ?_⟩
          show (if branch = call.target then _ else r.heads branch) = r.heads branch
          refine if_neg ?_
          rintro rfl
          exact hnone (isSome_iff_ne_none.mpr hb)

theorem enter_frame (branch : Branch) (call : Call) (r : Repo) :
    Frame branch r (enter branch call r).2 := by
  rw [enter]
  split
  · exact .refl branch r
  · split
    · exact .refl branch r
    · rename_i hb
      split
      · exact .refl branch r
      · split
        · exact .refl branch r
        · split
          · exact .refl branch r
          · rename_i r₁ h
            have hframe : Frame branch r r₁ := ensure_frame (fun hnone => hb (.inr hnone)) h
            split
            · exact hframe
            · exact hframe

theorem landMerge_frame (branch : Branch) (call : Call) (r : Repo) :
    Frame branch r (landMerge mergeTree branch call r).2 := by
  have hframe : ∀ {o : MergeOutcome} {r' : Repo},
      mergeTips mergeTree (fun step => call.fails (.merge step)) (some call.verifies) r
        call.target branch = (o, r') → Frame branch r r' := by
    intro o r' h
    obtain ⟨hw, hc, ⟨-, hheads⟩ | ⟨sha, -, hne, -, hheads⟩⟩ := mergeTips_spec _ _ _ _ _ h
    · exact ⟨hw, hc, by rw [hheads]⟩
    · exact ⟨hw, hc, by rw [hheads]; exact if_neg hne⟩
  rw [landMerge]
  split <;> exact hframe ‹_›

/-! ## The worktrees behind a refresh -/

/-- One worktree before and behind a refresh: as it was, or moved. -/
def MovedBy (before : Option Files) (after : Files) (w w' : Worktree) : Prop :=
  w' = w ∨ ∃ b c, before = some b ∧ move b after w.checkout = some c ∧ w' = { w with checkout := c }

theorem alignWorktree_moved {before : Option Files} {c : Checkout Path Blob}
    (h : alignWorktree fails branch before after w = .moved c) :
    ∃ b, before = some b ∧ move b after w.checkout = some c := by
  rw [alignWorktree] at h
  split at h
  · cases h
  · split at h
    · cases h
    · split at h
      · cases h
      · split at h
        · cases h
        · split at h
          · cases h
          · rename_i c' hc
            cases h
            obtain ⟨b, hb, hmove⟩ := bind_eq_some_iff.mp hc
            exact ⟨b, hb, hmove⟩

theorem alignWorktrees_moved (fails : String → Bool) (before : Option Files) (after : Files)
    (ws : List Worktree) :
    List.Forall₂ (MovedBy before after) ws
      (alignWorktrees fails branch before after ws).1 := by
  induction ws with
  | nil => exact .nil
  | cons w rest ih =>
    rw [alignWorktrees]
    split
    · exact forall₂_same.mpr fun x _ => .inl rfl
    · exact .cons (.inl rfl) ih
    · rename_i c hc
      obtain ⟨b, hb, hmove⟩ := alignWorktree_moved hc
      exact .cons (.inr ⟨b, c, hb, hmove, rfl⟩) ih

def Holds (branch : Branch) (w : Worktree) : Prop := w.head = .branch branch ∧ w.missing = false

/-- The walk comes past a worktree: git moves it, if it holds the branch and is not prunable. -/
def Passes (fails : String → Bool) (branch : Branch) (before after : Files) (w : Worktree) : Prop :=
  w.head = .branch branch → w.prunable = false →
    w.missing = false ∧ fails w.path = false ∧ Clear before after w.checkout

/-- The walk reaches every existing worktree that holds the branch, and none is in the way. -/
def Reached (fails : String → Bool) (branch : Branch) (before after : Files)
    (ws : List Worktree) : Prop :=
  ∀ ahead w behind, ws = ahead ++ w :: behind → Holds branch w →
    w.prunable = false ∧ ∀ x ∈ ahead ++ [w], Passes fails branch before after x

theorem Reached.tail (h : Reached fails branch before after (w :: ws)) :
    Reached fails branch before after ws := by
  intro ahead x behind heq hx
  obtain ⟨hprune, hpass⟩ := h (w :: ahead) x behind (by rw [heq]; rfl) hx
  exact ⟨hprune, fun y hy => hpass y (mem_cons_of_mem w hy)⟩

theorem Reached.passes (h : Reached fails branch before after (w :: ws)) {x : Worktree}
    (hx : x ∈ w :: ws) (hholds : Holds branch x) : Passes fails branch before after w := by
  rcases mem_cons.mp hx with rfl | hx
  · exact (h [] x ws rfl hholds).2 x (mem_singleton_self x)
  · obtain ⟨ahead, behind, rfl⟩ := append_of_mem hx
    exact (h (w :: ahead) x behind rfl hholds).2 w mem_cons_self

theorem alignWorktree_of_passes (h : Passes fails branch before after w) :
    (alignWorktree fails branch (some before) after w = .skipped ∧
        ¬ (Holds branch w ∧ w.prunable = false)) ∨
      ∃ c, alignWorktree fails branch (some before) after w = .moved c ∧
        move before after w.checkout = some c := by
  rw [alignWorktree]
  by_cases hhead : w.head = .branch branch
  · by_cases hprune : w.prunable = false
    · obtain ⟨hmissing, hfails, hclear⟩ := h hhead hprune
      obtain ⟨c, hc⟩ := move_of_clear hclear
      right
      refine ⟨c, ?_, hc⟩
      rw [if_neg (not_not_intro hhead), if_neg (by simp [hprune]), if_neg (by simp [hmissing]),
        if_neg (by simp [hfails]), bind_some, hc]
    · left
      rw [if_neg (not_not_intro hhead), if_pos (by simpa using hprune)]
      exact ⟨rfl, fun hx => hprune hx.2⟩
  · left
    rw [if_pos hhead]
    exact ⟨rfl, fun hx => hhead hx.1.1⟩

/-- **Where the walk reaches all that hold the branch, each of them is moved.** -/
theorem alignWorktrees_reached (h : Reached fails branch before after ws) :
    List.Forall₂ (fun w w' => Holds branch w →
        ∃ c, move before after w.checkout = some c ∧ w' = { w with checkout := c })
      ws (alignWorktrees fails branch (some before) after ws).1 := by
  induction ws with
  | nil => exact .nil
  | cons w rest ih =>
    by_cases hnone : ∃ x ∈ w :: rest, Holds branch x
    · obtain ⟨x, hx, hholds⟩ := hnone
      have hpass := h.passes hx hholds
      rw [alignWorktrees]
      rcases alignWorktree_of_passes hpass with ⟨heq, hnot⟩ | ⟨c, heq, hmove⟩
      · rw [heq]
        refine .cons (fun hw => ?_) (ih h.tail)
        exact absurd ⟨hw, (h [] w rest rfl hw).1⟩ hnot
      · rw [heq]
        exact .cons (fun _ => ⟨c, hmove, rfl⟩) (ih h.tail)
    · have hnot : ∀ x ∈ w :: rest, ¬ Holds branch x := fun x hx hholds => hnone ⟨x, hx, hholds⟩
      refine ((forall₂_and_left _ _).mpr
        ⟨hnot, alignWorktrees_moved fails (some before) after (w :: rest)⟩).imp ?_
      rintro x x' ⟨hx, -⟩ hholds
      exact absurd hholds hx

/-- The call comes to its refresh in `r₁`, and the refresh moves the branch to `after`. -/
def Moves (mergeTree : List Commit → Sha → Sha → MergeAnswer) (branch : Branch) (call : Call)
    (r r₁ : Repo) (after : Sha) (r₂ : Repo) : Prop :=
  enter branch call r = (.goesOn, r₁) ∧
    ¬ (call.fails .refreshNeeded = false ∧ branchContained r₁ branch call.target = true) ∧
    refreshMerge mergeTree branch call r₁ = (.merged after, r₂)

/-- The worktrees behind a refresh that moved the branch. -/
def behindRefresh (branch : Branch) (call : Call) (r₁ : Repo) (after : Sha) (r₂ : Repo) :
    List Worktree :=
  if call.fails .worktreeList then r₂.worktrees
  else (alignWorktrees (fun path => call.fails (.readTree path)) branch
    (readBefore branch call r₁) (r₂.tree after) r₂.worktrees).1

/-- What `_refresh_branch` does to a repository. -/
theorem refreshBranch_cases (mergeTree : List Commit → Sha → Sha → MergeAnswer) (branch : Branch)
    (call : Call) (h : (refreshBranch mergeTree branch call r).2 = r') :
    Frame branch r r' ∨ ∃ after r₂,
      ¬ (call.fails .refreshNeeded = false ∧ branchContained r branch call.target = true) ∧
      refreshMerge mergeTree branch call r = (.merged after, r₂) ∧
      r'.worktrees = behindRefresh branch call r after r₂ ∧ r'.tip branch = r₂.tree after := by
  have hframe : ∀ {o : MergeOutcome} {r₂ : Repo}, refreshMerge mergeTree branch call r = (o, r₂) →
      (∀ sha, o ≠ .merged sha) → Frame branch r r₂ := by
    intro o r₂ hmerge ho
    obtain ⟨hw, hc, ⟨-, hheads⟩ | ⟨sha, hsha, -⟩⟩ := mergeTips_spec _ _ _ _ _ hmerge
    · exact ⟨hw, hc, by rw [hheads]⟩
    · exact absurd hsha (ho sha)
  rw [refreshBranch] at h
  split at h
  · cases h
    exact .inl (.refl branch r)
  · rename_i hneeded
    split at h
    · rename_i files r₂ hmerge
      cases h
      exact .inl (hframe hmerge fun _ => nofun)
    · rename_i sha r₂ hmerge
      cases h
      exact .inl (hframe hmerge fun _ => nofun)
    · rename_i after r₂ hmerge
      obtain ⟨hw, hc, ⟨hnot, -⟩ | ⟨sha, hsha, -, -, hheads⟩⟩ := mergeTips_spec _ _ _ _ _ hmerge
      · exact absurd rfl (hnot after)
      · cases hsha
        have htip : r₂.tip branch = r₂.tree after := by
          rw [Repo.tip, hheads]
          simp
        refine .inr ⟨after, r₂, hneeded, hmerge, ?_⟩
        rw [behindRefresh]
        split at h
        · rename_i hlist
          cases h
          exact ⟨by rw [if_pos hlist], htip⟩
        · rename_i hlist
          cases h
          exact ⟨by rw [if_neg hlist]; rfl, htip⟩

/-- **A call moves nothing, or its refresh moves the branch and the worktrees follow as far as
    they do.** -/
theorem landTicket_cases (mergeTree : List Commit → Sha → Sha → MergeAnswer) (branch : Branch)
    (call : Call) (r : Repo) :
    ((landTicket mergeTree branch call r).2.worktrees = r.worktrees ∧
        (landTicket mergeTree branch call r).2.tip branch = r.tip branch) ∨
      ∃ r₁ after r₂, Moves mergeTree branch call r r₁ after r₂ ∧
        (landTicket mergeTree branch call r).2.worktrees = behindRefresh branch call r₁ after r₂ ∧
        (landTicket mergeTree branch call r).2.tip branch = r₂.tree after := by
  have hentry := enter_frame branch call r
  rw [landTicket]
  cases henter : (enter branch call r).1 with
  | ends result => exact .inl ⟨hentry.worktrees, hentry.tip⟩
  | goesOn =>
    have hfinal : Frame branch (refreshBranch mergeTree branch call (enter branch call r).2).2
        (landRefreshed mergeTree branch call (enter branch call r).2).2 := by
      rw [landRefreshed]
      cases (refreshBranch mergeTree branch call (enter branch call r).2).1 with
      | some failed => exact .refl branch _
      | none => exact landMerge_frame branch call _
    rcases refreshBranch_cases mergeTree branch call
      (rfl : (refreshBranch mergeTree branch call (enter branch call r).2).2 = _)
      with hframe | ⟨after, r₂, h⟩
    · left
      exact ⟨hfinal.worktrees.trans (hframe.worktrees.trans hentry.worktrees),
        hfinal.tip.trans (hframe.tip.trans hentry.tip)⟩
    · right
      obtain ⟨hneeded, hmerge, hworktrees, htip⟩ := h
      refine ⟨_, after, r₂, ⟨?_, hneeded, hmerge⟩, hfinal.worktrees.trans hworktrees,
        hfinal.tip.trans htip⟩
      rw [← henter]

/-! ## Where a refresh is taken -/

/-- Where the call's refresh brings the branch another tree, every existing worktree that holds
    the branch is reached and takes it. -/
def Taken (mergeTree : List Commit → Sha → Sha → MergeAnswer) (branch : Branch) (call : Call)
    (r : Repo) : Prop :=
  ∀ r₁ after r₂, Moves mergeTree branch call r r₁ after r₂ →
    (∃ p, (r.tip branch).get p ≠ (r₂.tree after).get p) →
    (∃ w ∈ r.worktrees, Holds branch w) →
    call.fails .worktreeList = false ∧ call.fails .before = false ∧
      Reached (fun path => call.fails (.readTree path)) branch (r.tip branch) (r₂.tree after)
        r.worktrees

/-- A worktree before and behind a call that takes the branch from one tree to another: it has
    only the local edits it had, and its index follows the branch. -/
structure Follows (branch : Branch) (before after : Files) (w w' : Worktree) : Prop where
  place : w'.path = w.path ∧ w'.head = w.head ∧ w'.missing = w.missing
  tidy : Holds branch w → Tidy before w.checkout after w'.checkout
  same : Holds branch w → ∀ p, before.get p = after.get p →
    w'.checkout.index.get p = w.checkout.index.get p
  changed : Holds branch w → ∀ p, before.get p ≠ after.get p → w'.checkout.index.get p = after.get p

theorem Follows.of_move {c : Checkout Path Blob} (h : move before after w.checkout = some c) :
    Follows branch before after w { w with checkout := c } :=
  ⟨⟨rfl, rfl, rfl⟩, fun _ => move_tidy h, fun _ _ => index_of_same h, fun _ _ => index_of_changed h⟩

theorem Follows.of_same (h : ∀ p, before.get p = after.get p)
    (w : Worktree) : Follows branch before after w w := by
  refine ⟨⟨rfl, rfl, rfl⟩, fun _ p hlocal => ⟨?_, rfl, rfl⟩, fun _ _ _ => rfl,
    fun _ p hne => absurd (h p) hne⟩
  rw [Local, ← h p] at hlocal
  exact hlocal

theorem Follows.of_not_holds {b' : Files} {before' : Option Files} {w' : Worktree}
    (hw : ¬ Holds branch w) (h : MovedBy before' b' w w') : Follows branch before after w w' := by
  refine ⟨?_, fun hx => absurd hx hw, fun hx => absurd hx hw, fun hx => absurd hx hw⟩
  rcases h with rfl | ⟨b, c, -, -, rfl⟩
  · exact ⟨rfl, rfl, rfl⟩
  · exact ⟨rfl, rfl, rfl⟩

theorem behindRefresh_moved (branch : Branch) (call : Call) (r₁ : Repo) (after : Sha) (r₂ : Repo) :
    List.Forall₂ (MovedBy (readBefore branch call r₁) (r₂.tree after)) r₂.worktrees
      (behindRefresh branch call r₁ after r₂) := by
  rw [behindRefresh]
  split
  · exact forall₂_same.mpr fun w _ => .inl rfl
  · exact alignWorktrees_moved _ _ _ _

theorem readBefore_eq {b : Files} (h : readBefore branch call r = some b) : b = r.tip branch := by
  rw [readBefore] at h
  split at h
  · cases h
  · rw [Repo.tip, h]
    rfl

theorem readBefore_of_head (hbefore : call.fails .before = false) (h : r.heads branch ≠ none) :
    readBefore branch call r = some (r.tip branch) := by
  obtain ⟨sha, hsha⟩ := ne_none_iff_exists'.mp h
  rw [readBefore, if_neg (by simp [hbefore]), Repo.tip, hsha]
  rfl

/-- **Where its refresh is taken, every worktree follows a call.** -/
theorem follows_of_taken (h : Taken mergeTree branch call r) :
    List.Forall₂ (Follows branch (r.tip branch) ((landTicket mergeTree branch call r).2.tip branch))
      r.worktrees (landTicket mergeTree branch call r).2.worktrees := by
  rcases landTicket_cases mergeTree branch call r with
    ⟨hworktrees, htip⟩ | ⟨r₁, after, r₂, hmoves, hworktrees, htip⟩
  · rw [hworktrees, htip]
    exact forall₂_same.mpr fun w _ => .of_same (fun _ => rfl) w
  · rw [hworktrees, htip]
    have hframe : Frame branch r r₁ := by
      have hentry := enter_frame branch call r
      rw [hmoves.1] at hentry
      exact hentry
    obtain ⟨hw₂, -, ⟨hnot, -⟩ | ⟨-, -, -, hhead, -⟩⟩ := mergeTips_spec _ _ _ _ _ hmoves.2.2
    · exact absurd rfl (hnot after)
    · have hw : r₂.worktrees = r.worktrees := hw₂.trans hframe.worktrees
      have hmoved := behindRefresh_moved branch call r₁ after r₂
      by_cases hdiff : ∃ p, (r.tip branch).get p ≠ (r₂.tree after).get p
      · by_cases hholds : ∃ w ∈ r.worktrees, Holds branch w
        · obtain ⟨hlist, hbefore, hreached⟩ := h r₁ after r₂ hmoves hdiff hholds
          rw [behindRefresh, if_neg (by simp [hlist]), readBefore_of_head hbefore hhead,
            hframe.tip, hw] at hmoved ⊢
          refine ((forall₂_iff_zip).mpr ⟨hmoved.length_eq, fun {w w'} hmem => ?_⟩)
          have hpair := forall₂_zip (alignWorktrees_reached hreached) hmem
          by_cases hx : Holds branch w
          · obtain ⟨c, hc, rfl⟩ := hpair hx
            exact .of_move hc
          · exact .of_not_holds hx (forall₂_zip hmoved hmem)
        · rw [hw] at hmoved
          refine ((forall₂_and_left _ _).mpr
            ⟨fun w hw hx => hholds ⟨w, hw, hx⟩, hmoved⟩).imp ?_
          rintro w w' ⟨hx, hmove⟩
          exact .of_not_holds hx hmove
      · have hsame : ∀ p, (r.tip branch).get p = (r₂.tree after).get p :=
          fun p => not_not.mp fun hp => hdiff ⟨p, hp⟩
        rw [hw] at hmoved
        refine hmoved.imp ?_
        rintro w w' (rfl | ⟨b, c, hb, hc, rfl⟩)
        · exact .of_same hsame w'
        · rw [readBefore_eq hb, hframe.tip] at hc
          exact .of_move hc

/-! ## A run of calls -/

/-- One call takes a repository that nothing else touches to the next. -/
def Calls (mergeTree : List Commit → Sha → Sha → MergeAnswer) (branch : Branch) :
    World → Call → World → Prop :=
  fun w call w' => w' = w.land mergeTree branch call

/-- Each existing worktree that holds the branch differs from its tip only by the local edits it
    had. -/
def LeavesTidy (branch : Branch) (r r' : Repo) : Prop :=
  List.Forall₂ (fun w w' => (w'.path = w.path ∧ w'.head = w.head ∧ w'.missing = w.missing) ∧
    (Holds branch w → Tidy (r.tip branch) w.checkout (r'.tip branch) w'.checkout))
    r.worktrees r'.worktrees

/-- The index of the worktree has not what the branch has, at a path a landing changed on it. -/
def Lacks (branch : Branch) (w : World) (x : Worktree) : Prop :=
  ∃ m ∈ w.moves, ∃ p, m.1.get p ≠ m.2.get p ∧ x.checkout.index.get p ≠ (w.repo.tip branch).get p

def Lands (result : Option LandResult) : Prop :=
  ∃ landed, result = some landed ∧ landed.ok = true ∧ landed.landedSha ≠ none

/-- No existing worktree that holds the branch lacks what was refreshed. -/
def UpToDate (branch : Branch) (w : World) : Prop :=
  ∀ x ∈ w.repo.worktrees, Holds branch x → ¬ Lacks branch w x

theorem mem_right_of_forall₂ {R : Worktree → Worktree → Prop} {ws' : List Worktree}
    (h : List.Forall₂ R ws ws') {w' : Worktree} (hw' : w' ∈ ws') : ∃ w ∈ ws, R w w' := by
  induction h with
  | nil => exact absurd hw' not_mem_nil
  | cons hhead htail ih =>
    rcases mem_cons.mp hw' with rfl | hw'
    · exact ⟨_, mem_cons_self, hhead⟩
    · obtain ⟨w, hw, hR⟩ := ih hw'
      exact ⟨w, mem_cons_of_mem _ hw, hR⟩

theorem upToDate_land {w : World} (hinv : UpToDate branch w)
    (h : Taken mergeTree branch call w.repo) : UpToDate branch (w.land mergeTree branch call) := by
  intro x' hx' hholds
  obtain ⟨x, hx, hfollows⟩ := mem_right_of_forall₂ (follows_of_taken h) hx'
  have hold : Holds branch x := ⟨hfollows.place.2.1 ▸ hholds.1, hfollows.place.2.2 ▸ hholds.2⟩
  rintro ⟨m, hm, p, hp, hlacks⟩
  by_cases hsame : (w.repo.tip branch).get p
      = ((landTicket mergeTree branch call w.repo).2.tip branch).get p
  · rcases mem_append.mp hm with hm | hm
    · refine hinv x hx hold ⟨m, hm, p, hp, ?_⟩
      rw [← hfollows.same hold p hsame, hsame]
      exact hlacks
    · rw [mem_singleton.mp hm] at hp
      exact hp hsame
  · exact hlacks (hfollows.changed hold p hsame)

/-- **A landing leaves no stale tree, and no stale tree lets one through**, in every run of calls
    whose refreshes are taken by the worktrees that hold the branch. -/
theorem landing_leaves_no_stale {r₀ : Repo} {calls : List Call} {w w' : World}
    (hr : Run (Guarded (Calls mergeTree branch) fun w call => Taken mergeTree branch call w.repo)
      { repo := r₀ } calls w)
    (hstep : Guarded (Calls mergeTree branch) (fun w call => Taken mergeTree branch call w.repo)
      w call w') :
    LeavesTidy branch w.repo w'.repo ∧
      (Lands (landTicket mergeTree branch call w.repo).1 → UpToDate branch w') := by
  obtain ⟨htaken, rfl⟩ := hstep
  have hinv : UpToDate branch w := by
    refine hr.invariant (P := UpToDate branch) ?_ ?_
    · rintro s l t hs ⟨htaken, rfl⟩
      exact upToDate_land hs htaken
    · rintro x - - ⟨m, hm, -⟩
      exact absurd hm not_mem_nil
  refine ⟨(follows_of_taken htaken).imp fun x x' hx => ⟨hx.place, hx.tidy⟩, fun _ => ?_⟩
  exact upToDate_land hinv htaken

/-- The merge of trees that agree where they overlap. -/
def joinTrees (commits : List Commit) (target source : Sha) : MergeAnswer :=
  let tree := fun sha => ((commits[sha]?).map Commit.tree).getD []
  { tree := tree target ++ (tree source).filter fun e => e.1 ∉ (tree target).paths }

/-- A ticket's branch with a file of its own, an integration branch with two more, and the
    ticket's worktree, which holds some more files. -/
def ticketRepo (untracked : Files) : Repo where
  commits := [⟨[("a", "1")], []⟩, ⟨[("a", "1"), ("b", "2"), ("d", "4")], [0]⟩,
    ⟨[("a", "1"), ("c", "3")], [0]⟩]
  heads := fun b =>
    if b = "main" then some 0 else if b = "integration" then some 1
    else if b = "ticket" then some 2 else none
  worktrees := [{
    path := "/worktrees/ticket"
    head := .branch "ticket"
    checkout :=
      { index := [("a", "1"), ("c", "3")]
        files := [("a", "1"), ("c", "3")] ++ untracked
        ignored := fun _ => false } }]
  heads_lt := by
    intro b sha h
    split at h
    · cases h
      decide
    · split at h
      · cases h
        decide
      · split at h
        · cases h
          decide
        · cases h

/-- A landing of the ticket, whose runs recorded its own file. -/
def ticketCall : Call where
  target := "integration"
  base := "main"
  ticketRoot := some "/worktrees/ticket"
  recorded := ["c"]

/-- A clean worktree takes the refresh, and the branch lands. -/
theorem landing_leaves_no_stale_clean : LeavesTidy "ticket" (ticketRepo [])
        (World.land joinTrees "ticket" ⟨ticketRepo [], []⟩ ticketCall).repo ∧
      UpToDate "ticket" (World.land joinTrees "ticket" ⟨ticketRepo [], []⟩ ticketCall) := by
  have htaken : Taken joinTrees "ticket" ticketCall (ticketRepo []) := by
    rintro r₁ after r₂ ⟨hentry, -, hmerge⟩ - -
    refine ⟨rfl, rfl, ?_⟩
    rintro ahead w behind hws -
    obtain ⟨rfl, hw⟩ : ahead = [] ∧ w = _ := by
      cases ahead with
      | nil => exact ⟨rfl, (List.cons.inj hws).1.symm⟩
      | cons x ahead => exact absurd (List.cons.inj hws).2 (by simp)
    subst hw
    refine ⟨rfl, fun x hx _ _ => ?_⟩
    rw [mem_singleton.mp hx]
    exact ⟨rfl, rfl, fun p _ => .inr ⟨rfl, .inl rfl⟩⟩
  have hr : Run (Guarded (Calls joinTrees "ticket") fun w call =>
      Taken joinTrees "ticket" call w.repo) ⟨ticketRepo [], []⟩ [] ⟨ticketRepo [], []⟩ := .nil _
  have hstep : Guarded (Calls joinTrees "ticket")
      (fun w call => Taken joinTrees "ticket" call w.repo) ⟨ticketRepo [], []⟩ ticketCall
      (World.land joinTrees "ticket" ⟨ticketRepo [], []⟩ ticketCall) := ⟨htaken, rfl⟩
  obtain ⟨htidy, hfresh⟩ := landing_leaves_no_stale hr hstep
  exact ⟨htidy, hfresh ⟨{ ok := true, landedSha := some 4 }, by decide +kernel, rfl, nofun⟩⟩

/-- A file the ticket's runs left untracked is in the way of the refresh: the first call is refused
    and leaves the worktree without another file of the branch, and the second lands it. -/
theorem refused_refresh_is_landed :
    (landTicket joinTrees "ticket" ticketCall (ticketRepo [("b", "x")])).1
        = some (refuse (.stale "/worktrees/ticket") []) ∧
      ¬ LeavesTidy "ticket" (ticketRepo [("b", "x")])
        (landTicket joinTrees "ticket" ticketCall (ticketRepo [("b", "x")])).2 ∧
      Lands (landTicket joinTrees "ticket" ticketCall
        (landTicket joinTrees "ticket" ticketCall (ticketRepo [("b", "x")])).2).1 ∧
      ¬ UpToDate "ticket"
        ((World.land joinTrees "ticket" ⟨ticketRepo [("b", "x")], []⟩ ticketCall).land
          joinTrees "ticket" ticketCall) := by
  refine ⟨by decide +kernel, fun htidy => ?_,
    ⟨{ ok := true, landedSha := some 4 }, by decide +kernel, rfl, nofun⟩, fun hfresh => ?_⟩
  · obtain ⟨w', hw', hindex⟩ : ∃ w' ∈
        (landTicket joinTrees "ticket" ticketCall (ticketRepo [("b", "x")])).2.worktrees,
        w'.checkout.index.get "d" = none := by decide +kernel
    obtain ⟨w, hw, -, hkeeps⟩ := mem_right_of_forall₂ htidy hw'
    rw [mem_singleton.mp hw] at hkeeps
    have hbranch : ((landTicket joinTrees "ticket" ticketCall (ticketRepo [("b", "x")])).2.tip
      "ticket").get "d" ≠ none := by decide +kernel
    rcases (hkeeps ⟨rfl, rfl⟩ "d" (.inl fun h => hbranch (h ▸ hindex))).1 with h | h
    · exact h (by decide +kernel)
    · exact h (by decide +kernel)
  · obtain ⟨x, hx, hhead, hmissing, hindex⟩ : ∃ x ∈
        ((World.land joinTrees "ticket" ⟨ticketRepo [("b", "x")], []⟩ ticketCall).land
          joinTrees "ticket" ticketCall).repo.worktrees,
        x.head = .branch "ticket" ∧ x.missing = false ∧ x.checkout.index.get "d" ≠
            ((({ repo := ticketRepo [("b", "x")] : World }.land joinTrees "ticket"
              ticketCall).land joinTrees "ticket" ticketCall).repo.tip "ticket").get "d" := by
      decide +kernel
    obtain ⟨m, hm, hdiff⟩ : ∃ m ∈
        ((World.land joinTrees "ticket" ⟨ticketRepo [("b", "x")], []⟩ ticketCall).land
          joinTrees "ticket" ticketCall).moves, m.1.get "d" ≠ m.2.get "d" := by
      decide +kernel
    exact hfresh x hx ⟨hhead, hmissing⟩ ⟨m, hm, "d", hdiff, hindex⟩

end Loregarden.Landing
