import Loregarden.LandingAgreeProofs

/-! # A landing, landed again, and its receipt

    * `reland`: the call behind a landing changes nothing and names the same commit.
    * `receipt_iff`: the receipt names it exactly where the target contains the branch.
    * `landing_agrees_iff`: both, of every landing the target did not hold by content alone. -/

namespace Loregarden.Landing

open List Bool

variable {git : Answers} {s : Setting} {w w' : Landed} {b t sha : Sha}

/-! ## Landed again -/

namespace Settled

section

variable (h : Settled git s w b t sha)
include h

theorem emptyLanding_eq : (callOf git w.repo s w.ticket).emptyLanding = false := by
  have hon : landedOnRecord w.ticket s.target = true := by
    rw [h.ticket]
    simp [landedOnRecord]
  show emptyLanding git w.repo s w.ticket = false
  rw [emptyLanding, hon, if_pos (by simp)]

theorem superseding_eq :
    (callOf git w.repo s w.ticket).superseding = holderByContent git w.repo b t := by
  refine heldByContent_eq h.branch ?_
  rw [targetTip, h.target]
  rfl

section

variable (hb : w.repo.isAncestor b sha = true)
include hb

section

variable (ht : w.repo.isAncestor sha t = true)
include ht

theorem landingOnRecord_eq : landingOnRecord w.repo w.ticket s.target (some t) b = true := by
  rw [h.ticket]
  show (decide (s.target = s.target) && w.repo.isAncestor b sha && w.repo.isAncestor sha t) = true
  rw [hb, ht, decide_eq_true rfl]
  rfl

theorem landedAt_eq : (callOf git w.repo s w.ticket).landedAt = sha := by
  show ((w.repo.heads s.branch).map _).getD 0 = sha
  rw [h.branch, targetTip, h.target]
  exact alreadyLandedAt_of_onRecord (by rw [h.ticket]) (h.landingOnRecord_eq hb ht)

omit hb in
omit ht in
theorem enter_eq : enter s.branch (callOf git w.repo s w.ticket) w.repo =
      ((heldWithoutSharedHistory s.branch (callOf git w.repo s w.ticket) w.repo).elim .goesOn
        fun landed => .ends (some landed), w.repo) := by
  have hrepository : (callOf git w.repo s w.ticket).repository = true := h.repository
  have hne : (callOf git w.repo s w.ticket).target ≠ (callOf git w.repo s w.ticket).base :=
    h.target_ne
  have hensure : ensureIntegrationBranch (callOf git w.repo s w.ticket) w.repo = some w.repo := by
    rw [ensureIntegrationBranch, if_neg (by simp [callOf_fails]), if_pos]
    show (w.repo.heads s.target).isSome = true
    rw [h.target]
    rfl
  rw [enter, if_neg (by simp [hrepository]), if_neg (by simp [callOf_fails, h.branch]),
    uncommitted_of_ready h.ready]
  rw [if_neg hne, hensure]
  dsimp only
  cases heldWithoutSharedHistory s.branch (callOf git w.repo s w.ticket) w.repo <;> rfl

theorem landRefreshed_eq :
    landRefreshed git.mergeTree s.branch (callOf git w.repo s w.ticket) w.repo =
      ({ ok := true, landedSha := some sha, skipped := some .alreadyLanded }, w.repo) := by
  have hin : w.repo.isAncestor b t = true := Repo.isAncestor_trans h.acyclic hb ht
  have hrefresh : refreshBranch git.mergeTree s.branch (callOf git w.repo s w.ticket) w.repo
      = (none, w.repo) := by
    have hcontained : branchContained w.repo s.branch (callOf git w.repo s w.ticket).target
        = true := by
      show branchContained w.repo s.branch s.target = true
      rw [branchContained, h.branch, h.target]
      exact hin
    rw [refreshBranch, if_pos ⟨rfl, hcontained⟩]
  have hmerge : mergeTips git.mergeTree (fun _ => false) (some s.verifies) w.repo s.target s.branch
      = (.contained b, w.repo) := by
    rw [mergeTips, if_neg (by simp), h.branch, h.target]
    exact if_pos (.inr ⟨rfl, hin⟩)
  have hland : landMerge git.mergeTree s.branch (callOf git w.repo s w.ticket) w.repo =
      ({ ok := true, landedSha := some (callOf git w.repo s w.ticket).landedAt,
         skipped := some .alreadyLanded }, w.repo) := by
    rw [landMerge, show mergeTips git.mergeTree
      (fun step => (callOf git w.repo s w.ticket).fails (.merge step))
      (some (callOf git w.repo s w.ticket).verifies) w.repo (callOf git w.repo s w.ticket).target
      s.branch = _ from hmerge]
  rw [landRefreshed, hrefresh]
  rw [hland, h.landedAt_eq hb ht]

end

end

/-- **The call behind a landing changes nothing, and names the same commit.** -/
theorem reland : land git s w =
      (some { ok := true, landedSha := some sha, skipped := some .alreadyLanded }, w) := by
  have hlands : landTicket git.mergeTree s.branch (callOf git w.repo s w.ticket) w.repo =
      (some { ok := true, landedSha := some sha, skipped := some .alreadyLanded }, w.repo) := by
    rw [landTicket, h.enter_eq]
    have htips : (callOf git w.repo s w.ticket).fails .heldTips = false := rfl
    have hheads : w.repo.heads (callOf git w.repo s w.ticket).target = some t := h.target
    cases h.has with
    | contained hb ht =>
      have hin := Repo.isAncestor_trans h.acyclic hb ht
      have hnone : heldWithoutSharedHistory s.branch (callOf git w.repo s w.ticket) w.repo
          = none := by
        rw [heldWithoutSharedHistory, if_neg (by simp [htips]), h.branch, hheads]
        dsimp only
        rw [landingCommit_of_ancestor callOf_fails hin]
        dsimp only
        rw [if_neg (by simp [h.emptyLanding_eq]), if_pos rfl]
      rw [hnone]
      dsimp only [Option.elim]
      rw [h.landRefreshed_eq hb ht]
    | content hout hholder hne =>
      have hsome : heldWithoutSharedHistory s.branch (callOf git w.repo s w.ticket) w.repo
          = some { ok := true, landedSha := some sha, skipped := some .alreadyLanded } := by
        rw [heldWithoutSharedHistory, if_neg (by simp [htips]), h.branch, hheads]
        dsimp only
        rw [landingCommit_of_not callOf_fails hout, h.superseding_eq, hholder]
        dsimp only
        rw [if_neg (by simp [h.emptyLanding_eq]), if_neg hne]
      rw [hsome]
      rfl
  have hticket : recordLanding s.target
      (some { ok := true, landedSha := some sha, skipped := some .alreadyLanded }) w.ticket
        = w.ticket := h.ticket.symm
  rw [land, hlands]
  rw [hticket]

theorem iterate_land (n : ℕ) : (fun w => (land git s w).2)^[n] w = w := by
  induction n with
  | zero => rfl
  | succ n ih =>
    rw [Function.iterate_succ_apply', ih, h.reland]

end

/-- **The receipt names the landing exactly where the target contains the branch.** -/
theorem receipt_iff (hgit : git.Lawful) (h : Settled git s w b t sha) :
    ticketReceipt s s.branch w = .receipt (.digest sha) s.target ↔
      w.repo.isAncestor b t = true := by
  have htip : ((liveTip w.repo s.branch).orElse fun _ => w.repo.heads s.branch) = some b := by
    rw [liveTip, h.branch]
    split <;> rfl
  rw [ticketReceipt, htip]
  dsimp only
  rw [h.target]
  cases h.has with
  | contained hb ht =>
    rw [if_pos (h.landingOnRecord_eq hb ht), h.ticket]
    exact ⟨fun _ => Repo.isAncestor_trans h.acyclic hb ht, fun _ => rfl⟩
  | content hout hholder hne =>
    have hon : landingOnRecord w.repo w.ticket s.target (some t) b = false := by
      by_contra hon
      have hon : landingOnRecord w.repo w.ticket s.target (some t) b = true := not_eq_false _ ▸ hon
      rw [landingOnRecord, h.ticket] at hon
      have hb := (and_eq_true _ _ ▸ (and_eq_true _ _ ▸ hon).1).2
      have hin := Repo.isAncestor_trans h.acyclic hb (holder_isAncestor hgit h.acyclic hholder)
      rw [hout] at hin
      cases hin
    rw [if_neg (by simp [hon]), hout]
    constructor
    · intro hreceipt
      split at hreceipt <;> cases hreceipt
    · intro hfalse
      cases hfalse

end Settled

/-- Behind any number of further calls, the next one names the commit, and so does the receipt. -/
def Agrees (git : Answers) (s : Setting) (sha : Sha) (w : Landed) : Prop :=
  ∀ n, Names (land git s ((fun w => (land git s w).2)^[n] w)).1 sha ∧
    ticketReceipt s s.branch ((fun w => (land git s w).2)^[n] w) = .receipt (.digest sha) s.target

/-- **A landing and its receipt agree, exactly if the target did not hold the branch by its content
    alone.** -/
theorem landing_agrees_iff {result : Option LandResult} (hgit : git.Lawful)
    (hr : w.repo.Acyclic) (hon : OnBranch s w.repo) (h : land git s w = (result, w'))
    (hnames : Names result sha) : Agrees git s sha w' ↔ ¬ ByContent git s w.repo := by
  obtain ⟨b, t, hsettled, hiff⟩ := landed_cases hgit hr hon h hnames
  rw [hiff, not_eq_false, ← hsettled.receipt_iff hgit]
  constructor
  · intro hagrees
    exact (hagrees 0).2
  · intro hreceipt n
    rw [hsettled.iterate_land n, hsettled.reland]
    exact ⟨⟨_, rfl, rfl, rfl⟩, hreceipt⟩

/-! ## A branch and a target that forked -/

/-- A git that answers by what descends from what, and numbers its commits by date. -/
def plainGit : Answers where
  mergeTree := joinTrees
  mergeBase := fun commits one other =>
    ((List.range commits.length).filter fun sha =>
      reaches commits sha one && reaches commits sha other).getLast?
  touching := fun commits baseSha branchSha paths =>
    ((List.range commits.length).filter fun sha =>
      reaches commits sha baseSha && !reaches commits sha branchSha &&
        (changes commits sha).any (· ∈ paths)).reverse
  ancestryPath := fun commits commit refSha =>
    ((List.range commits.length).filter fun sha =>
      sha ≠ commit && reaches commits commit sha && reaches commits sha refSha).reverse
  carriesOwnWork := fun commits branchSha baseSha =>
    (List.range commits.length).any fun sha =>
      reaches commits sha branchSha && !baseSha.any (reaches commits sha)
where
  bare (commits : List Commit) : Repo := ⟨commits, fun _ => none, [], fun _ _ h => by cases h⟩
  reaches (commits : List Commit) (a b : Sha) : Bool := (bare commits).isAncestor a b
  /-- The paths a commit changes from its first parent. -/
  changes (commits : List Commit) (sha : Sha) : List Path :=
    match (commits[sha]?).bind fun commit => commit.parents.head? with
    | none => ((bare commits).tree sha).paths
    | some parent => changedPaths ((bare commits).tree parent) ((bare commits).tree sha)

theorem plainGit_reaches (r : Repo) : plainGit.reaches r.commits = r.isAncestor := by
  funext a b
  have hcommits : (plainGit.bare r.commits).commits = r.commits := rfl
  exact isAncestor_congr hcommits a b

theorem plainGit_lawful : plainGit.Lawful where
  mergeBase := by
    intro r _ one other fork h
    have hmem := mem_of_getLast? h
    rw [mem_filter, plainGit_reaches, and_eq_true] at hmem
    exact hmem.2
  touching := by
    intro r _ baseSha branchSha paths listed h
    have hmem := mem_reverse.mp h
    rw [mem_filter, plainGit_reaches, and_eq_true, and_eq_true] at hmem
    exact hmem.2.1.1
  ancestryPath := by
    intro r _ commit refSha listed h
    have hmem := mem_reverse.mp h
    rw [mem_filter, plainGit_reaches, and_eq_true, and_eq_true] at hmem
    exact ⟨hmem.2.1.2, hmem.2.2⟩

/-- A branch of one commit, and an integration branch that left the base with another. -/
def forkedRepo (landed : Files) : Repo where
  commits := [⟨[], []⟩, ⟨[("a", "1")], [0]⟩, ⟨landed, [0]⟩]
  heads := fun b =>
    if b = "main" then some 0 else if b = "ticket" then some 1
    else if b = "integration" then some 2 else none
  worktrees := [{
    path := "/worktrees/ticket"
    head := .branch "ticket"
    checkout := { index := [("a", "1")], files := [("a", "1")], ignored := fun _ => false } }]
  heads_lt := by
    intro b sha h
    split at h
    · cases h
      simp
    · split at h
      · cases h
        simp
      · split at h
        · cases h
          simp
        · cases h

theorem forkedRepo_acyclic (landed : Files) : (forkedRepo landed).Acyclic := by
  intro sha commit hsha parent hparent
  rcases sha with _ | _ | _ | sha
  · cases hsha
    cases hparent
  · cases hsha
    rw [mem_singleton.mp hparent]
    exact Nat.zero_lt_one
  · cases hsha
    rw [mem_singleton.mp hparent]
    exact Nat.zero_lt_two
  · cases hsha

def forkedSetting : Setting where
  branch := "ticket"
  target := "integration"
  base := "main"
  ticketRoot := some "/worktrees/ticket"
  recorded := ["a"]

theorem forked_onBranch (landed : Files) : OnBranch forkedSetting (forkedRepo landed) := by
  intro x hx
  cases hx
  exact ⟨rfl, rfl⟩

/-- A branch that is merged beside another file. -/
theorem landing_agrees_iff_merged : Agrees plainGit forkedSetting 4
      (land plainGit forkedSetting ⟨forkedRepo [("b", "2")], {}⟩).2 := by
  have hnot : ¬ ByContent plainGit forkedSetting (forkedRepo [("b", "2")]) := by
    rintro ⟨b, t, -, -, -, hheld⟩
    exact hheld (by decide +kernel)
  exact (landing_agrees_iff plainGit_lawful (forkedRepo_acyclic _) (forked_onBranch _) rfl
    ⟨{ ok := true, landedSha := some 4 }, by decide +kernel, rfl, rfl⟩).mpr hnot

/-- A branch the target holds as a squash is on record by the squash, which no receipt names. -/
theorem squashed_landing_without_receipt :
    ¬ ∀ (git : Answers) (s : Setting) (w w' : Landed) (result : Option LandResult) (sha : Sha),
      git.Lawful → w.repo.Acyclic → OnBranch s w.repo → land git s w = (result, w') →
        Names result sha → Agrees git s sha w' := by
  intro hall
  have hagrees := hall plainGit forkedSetting ⟨forkedRepo [("a", "1")], {}⟩ _ _ 2 plainGit_lawful
    (forkedRepo_acyclic _) (forked_onBranch _) rfl
    ⟨{ ok := true, landedSha := some 2, skipped := some .alreadyLanded }, by decide +kernel, rfl,
      rfl⟩
  have hreceipt : ticketReceipt forkedSetting forkedSetting.branch
      (land plainGit forkedSetting ⟨forkedRepo [("a", "1")], {}⟩).2
        = .unresolved .receiptDoesNotCover := by
    decide +kernel
  have hclash := hreceipt.symm.trans (hagrees 0).2
  cases hclash

end Loregarden.Landing
