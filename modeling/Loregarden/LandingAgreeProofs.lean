import Loregarden.LandingReceiptProofs

/-! # What a landing that names a commit leaves

A call that names a commit has come to the question whether the target holds the branch
(`enter_held`), and answered by content, or gone on to the refresh and the merge
(`landRefreshed_names`); `landed_cases` says what is then on record, and how the target has the
branch. -/

namespace Loregarden.Landing

open TwoTree Relation Option Prod List Repo

variable {git : Answers} {s : Setting} {w : Landed} {r r' : Repo} {sha : Sha}
variable {mergeTree : List Commit → Sha → Sha → MergeAnswer}
variable {target branch : Branch} {call : Call} {b t : Sha} {r₁ : Repo} {ticket : Ticket}

/-! ## Merges where every call of git answers -/

theorem isAncestor_congr (h : r'.commits = r.commits) (a b : Sha) :
    r'.isAncestor a b = r.isAncestor a b := by
  have hdescends : ∀ n b, r'.descends n a b = r.descends n a b := by
    intro n
    induction n with
    | zero => exact fun _ => rfl
    | succ n ih =>
      intro b
      rw [descends, descends, h]
      simp only [ih]
  rw [isAncestor, isAncestor, h, hdescends]

theorem acyclic_append (h : r.Acyclic) {tree : Files} {one other : Sha}
    (hcommits : r'.commits = r.commits ++ [⟨tree, [one, other]⟩]) (hone : one < r.commits.length)
    (hother : other < r.commits.length) : r'.Acyclic := by
  intro sha commit hsha parent hparent
  rw [hcommits] at hsha
  rcases Nat.lt_trichotomy sha r.commits.length with hlt | heq | hgt
  · rw [getElem?_append_left hlt] at hsha
    exact h sha commit hsha parent hparent
  · subst heq
    rw [getElem?_append_right (Nat.le_refl _), Nat.sub_self] at hsha
    cases hsha
    rcases mem_pair.mp hparent with rfl | rfl
    · exact hone
    · exact hother
  · rw [getElem?_eq_none (by simpa using Nat.succ_le_of_lt hgt)] at hsha
    cases hsha

structure Merged (target source : Branch) (r : Repo) (sha : Sha) (r' : Repo) : Prop where
  sha_eq : sha = r.commits.length
  tips : ∃ t b tree, r.heads target = some t ∧ r.heads source = some b ∧ b ≠ t ∧
    r'.commits = r.commits ++ [⟨tree, [t, b]⟩]
  heads : r'.heads = fun other => if other = target then some sha else r.heads other
  worktrees : r'.worktrees = r.worktrees

theorem mergeTips_merged {fails : MergeStep → Bool} {verify : Option Bool} {source : Branch}
    (h : mergeTips mergeTree fails verify r target source = (.merged sha, r')) :
    Merged target source r sha r' := by
  rw [mergeTips] at h
  split at h
  · cases h
  · split at h
    · rename_i b t hb ht
      split at h
      · cases h
      · rename_i hnot
        split at h
        · cases h
        · split at h
          · cases h
          · rw [publish] at h
            split at h
            · cases h
            · split at h
              · cases h
              · split at h
                · cases h
                · cases h
                  exact ⟨rfl, ⟨t, b, _, ht, hb, fun heq => hnot (.inl heq), rfl⟩, rfl, rfl⟩
    · cases h

theorem mergeTips_contained {fails : MergeStep → Bool} {verify : Option Bool} {source : Branch}
    (h : mergeTips mergeTree fails verify r target source = (.contained sha, r')) :
    r' = r ∧ ∃ b t, r.heads source = some b ∧ r.heads target = some t ∧
      r.isAncestor b t = true := by
  rw [mergeTips] at h
  split at h
  · cases h
  · split at h
    · rename_i b t hb ht
      split at h
      · rename_i hin
        cases h
        refine ⟨rfl, sha, t, hb, ht, ?_⟩
        rcases hin with rfl | hin
        · exact isAncestor_refl
        · exact hin.2
      · split at h
        · cases h
        · split at h
          · cases h
          · rw [publish] at h
            split at h
            · cases h
            · split at h
              · cases h
              · split at h <;> cases h
    · cases h

namespace Merged

variable {target source : Branch}

section

variable (h : Merged target source r sha r')
include h

theorem acyclic (hr : r.Acyclic) : r'.Acyclic := by
  obtain ⟨t, b, tree, ht, hb, -, hcommits⟩ := h.tips
  exact acyclic_append hr hcommits (r.heads_lt _ _ ht) (r.heads_lt _ _ hb)

theorem head_target : r'.heads target = some sha := by
  rw [h.heads]
  exact if_pos rfl

theorem head_other {other : Branch} (hne : other ≠ target) : r'.heads other = r.heads other := by
  rw [h.heads]
  exact if_neg hne

theorem source_ne : source ≠ target := by
  obtain ⟨t, b, -, ht, hb, hne, -⟩ := h.tips
  rintro rfl
  exact hne (some.inj (hb.symm.trans ht))

theorem prefix_commits : r.commits <+: r'.commits := by
  obtain ⟨_, _, _, -, -, -, hcommits⟩ := h.tips
  exact ⟨_, hcommits.symm⟩

theorem isAncestor (hr : r.Acyclic) {tip : Sha}
    (htip : r.heads source = some tip ∨ r.heads target = some tip) :
    r'.isAncestor tip sha = true := by
  refine isAncestor_of_parent (h.acyclic hr) ?_
  obtain ⟨t, b, tree, ht, hb, -, hcommits⟩ := h.tips
  rw [Repo.Parent, h.sha_eq, hcommits, getElem?_append_right (Nat.le_refl _), Nat.sub_self]
  refine mem_pair.mpr ?_
  rcases htip with htip | htip
  · exact .inr (some.inj (htip.symm.trans hb))
  · exact .inl (some.inj (htip.symm.trans ht))

end

end Merged

/-! ## As far as the refresh -/

theorem callOf_fails : (callOf git r s w.ticket).fails = fun _ => false := rfl

/-- A call has come to the question whether the target holds the branch. -/
structure Entered (s : Setting) (r r₁ : Repo) (b t : Sha) : Prop where
  repository : s.repository = true
  target_ne : s.target ≠ s.base
  branch : r₁.heads s.branch = some b
  target : r₁.heads s.target = some t
  commits : r₁.commits = r.commits
  worktrees : r₁.worktrees = r.worktrees
  before : r.heads s.branch = some b
  tip : targetTip r s = some t

theorem ensure_entered (htarget : call.target = s.target)
    (hbase : call.base = s.base) (hne : s.target ≠ s.base) (hrepo : s.repository = true)
    (hb : r.heads s.branch = some b) (h : ensureIntegrationBranch call r = some r₁) :
    ∃ t, Entered s r r₁ b t := by
  rw [ensureIntegrationBranch] at h
  split at h
  · cases h
  · split at h
    · rename_i hsome
      cases h
      obtain ⟨t, ht⟩ := isSome_iff_exists.mp hsome
      rw [htarget] at ht
      exact ⟨t, hrepo, hne, hb, ht, rfl, rfl, hb, by rw [targetTip, ht]; rfl⟩
    · rename_i hnone
      split at h
      · cases h
      · rename_i t ht
        split at h
        · cases h
        · cases h
          rw [htarget, not_isSome_iff_eq_none] at hnone
          rw [hbase] at ht
          have hbranch : s.branch ≠ call.target := by
            intro heq
            rw [heq, htarget, hnone] at hb
            cases hb
          refine ⟨t, hrepo, hne, ?_, ?_, rfl, rfl, hb, by rw [targetTip, hnone]; exact ht⟩
          · show (if s.branch = call.target then _ else _) = _
            rw [if_neg hbranch]
            exact hb
          · show (if s.target = call.target then some t else _) = some t
            rw [if_pos htarget.symm]

inductive Held (git : Answers) (s : Setting) (w : Landed) (r₁ : Repo) (b t : Sha) : Entry → Prop
  | contained (h : r₁.isAncestor b t = true) : Held git s w r₁ b t .goesOn
  | notHeld (h : r₁.isAncestor b t = false)
      (hnone : ∀ holder, heldByContent git w.repo s = some holder → holder = b) :
      Held git s w r₁ b t .goesOn
  | content (holder : Sha) (h : r₁.isAncestor b t = false)
      (hholder : heldByContent git w.repo s = some holder) (hne : holder ≠ b) :
      Held git s w r₁ b t
        (.ends (some { ok := true, landedSha := some holder, skipped := some .alreadyLanded }))

def Names (result : Option LandResult) (sha : Sha) : Prop :=
  ∃ landed, result = some landed ∧ landed.ok = true ∧ landed.landedSha = some sha

section

variable (hfails : call.fails = fun _ => false)
include hfails

theorem landingCommit_of_ancestor
    (h : r.isAncestor b t = true) : landingCommit call r b t = .ok (some b) := by
  rw [landingCommit, hfails, if_pos (.inr ⟨rfl, h⟩)]

theorem landingCommit_of_not
    (h : r.isAncestor b t = false) : landingCommit call r b t = .ok call.superseding := by
  have hnot : ¬ (b = t ∨ (false = false ∧ r.isAncestor b t = true)) := by
    rintro (rfl | ⟨-, hin⟩)
    · rw [isAncestor_refl] at h
      cases h
    · rw [h] at hin
      cases hin
  rw [landingCommit, hfails, if_neg hnot]
  rfl

theorem heldWithoutSharedHistory_cases
    (hb : r.heads branch = some b) (ht : r.heads call.target = some t) {answer : Option LandResult}
    (h : heldWithoutSharedHistory branch call r = answer) :
    (answer = none ∧ r.isAncestor b t = true) ∨
      (r.isAncestor b t = false ∧ ((answer = none ∧ ∀ holder, call.superseding = some holder →
          call.emptyLanding = false ∧ holder = b) ∨
        ∃ holder, call.superseding = some holder ∧ call.emptyLanding = false ∧ holder ≠ b ∧
          answer = some { ok := true, landedSha := some holder, skipped := some .alreadyLanded })) ∨
      (call.emptyLanding = true ∧ answer = some (refuse .empty [])) := by
  have htips : call.fails .heldTips = false := by rw [hfails]
  rw [heldWithoutSharedHistory, if_neg (by simp [htips]), hb, ht] at h
  dsimp only at h
  cases hin : r.isAncestor b t with
  | true =>
    rw [landingCommit_of_ancestor hfails hin] at h
    dsimp only at h
    split at h
    · rename_i hempty
      exact .inr (.inr ⟨hempty, h.symm⟩)
    · rw [if_pos rfl] at h
      exact .inl ⟨h.symm, rfl⟩
  | false =>
    rw [landingCommit_of_not hfails hin] at h
    cases hholder : call.superseding with
    | none =>
      rw [hholder] at h
      refine .inr (.inl ⟨rfl, .inl ⟨h.symm, ?_⟩⟩)
      intro holder hsome
      cases hsome
    | some holder =>
      rw [hholder] at h
      dsimp only at h
      split at h
      · rename_i hempty
        exact .inr (.inr ⟨hempty, h.symm⟩)
      · rename_i hempty
        have hempty : call.emptyLanding = false := Bool.not_eq_true _ ▸ hempty
        split at h
        · rename_i heq
          refine .inr (.inl ⟨rfl, .inl ⟨h.symm, ?_⟩⟩)
          intro other hother
          cases hother
          exact ⟨hempty, heq⟩
        · rename_i heq
          exact .inr (.inl ⟨rfl, .inr ⟨holder, rfl, hempty, heq, h.symm⟩⟩)

omit hfails in
/-- **A call that names a commit has come as far as the question**, and how it passed it. -/
theorem enter_held {entry : Entry}
    (h : enter s.branch (callOf git w.repo s w.ticket) w.repo = (entry, r₁))
    (hentry : entry = .goesOn ∨ ∃ result sha, entry = .ends result ∧ Names result sha) :
    uncommitted (callOf git w.repo s w.ticket) w.repo = none ∧
      ∃ b t, Entered s w.repo r₁ b t ∧ Held git s w r₁ b t entry := by
  have hends : ∀ {result : Option LandResult} {r' : Repo},
      ((.ends result, r') : Entry × Repo) = (entry, r₁) →
      (∀ landed, result = some landed → landed.landedSha = none) → False := by
    intro result r' heq hnone
    cases heq
    rcases hentry with hentry | ⟨result', sha, hentry, landed, hlanded, -, hsha⟩
    · cases hentry
    · cases hentry
      rw [hnone landed hlanded] at hsha
      cases hsha
  rw [enter] at h
  split at h
  · exact (hends h fun landed hl => by cases hl; rfl).elim
  · rename_i hrepo
    split at h
    · refine (hends h fun landed hl => ?_).elim
      cases hl
      split <;> rfl
    · rename_i hbranch
      rw [not_or] at hbranch
      obtain ⟨b, hb⟩ := ne_none_iff_exists'.mp hbranch.2
      split at h
      · exact (hends h fun landed hl => by cases hl; rfl).elim
      · rename_i huncommitted
        refine ⟨huncommitted, ?_⟩
        split at h
        · exact (hends h fun landed hl => by cases hl; rfl).elim
        · rename_i htarget
          split at h
          · exact (hends h fun landed hl => by cases hl).elim
          · rename_i r₂ hensure
            have hrepository : s.repository = true := by
              show (callOf git w.repo s w.ticket).repository = true
              simpa using hrepo
            obtain ⟨t, hentered⟩ := ensure_entered rfl rfl htarget hrepository hb hensure
            rcases heldWithoutSharedHistory_cases callOf_fails hentered.branch hentered.target
              (rfl : heldWithoutSharedHistory s.branch (callOf git w.repo s w.ticket) r₂ = _)
              with ⟨hanswer, hin⟩ | ⟨hout, ⟨hanswer, hnone⟩ | ⟨holder, hholder, -, hne, hanswer⟩⟩ |
                ⟨-, hanswer⟩
            · rw [hanswer] at h
              cases h
              exact ⟨b, t, hentered, .contained hin⟩
            · rw [hanswer] at h
              cases h
              exact ⟨b, t, hentered, .notHeld hout fun holder hholder => (hnone holder hholder).2⟩
            · rw [hanswer] at h
              cases h
              exact ⟨b, t, hentered, .content holder hout hholder hne⟩
            · rw [hanswer] at h
              exact (hends h fun landed hl => by cases hl; rfl).elim

inductive Refreshed (branch target : Branch) (r : Repo) : Repo → Prop
  | contained {b t : Sha} (hb : r.heads branch = some b) (ht : r.heads target = some t)
      (h : r.isAncestor b t = true) : Refreshed branch target r r
  | ready {b t : Sha} (hb : r.heads branch = some b) (ht : r.heads target = some t)
      (h : r.isAncestor b t = false) : Refreshed branch target r r
  | moved {after : Sha} {r' : Repo} {ws : List Worktree} (h : Merged branch target r after r')
      (hws : alignWorktrees (fun _ => false) branch (some (r.tip branch)) (r'.tree after)
        r.worktrees = (ws, none)) : Refreshed branch target r (r'.setWorktrees ws)

theorem refreshBranch_none (hb : r.heads branch = some b)
    (ht : r.heads call.target = some t) (h : refreshBranch mergeTree branch call r = (none, r')) :
    Refreshed branch call.target r r' := by
  have hcontained : branchContained r branch call.target = r.isAncestor b t := by
    rw [branchContained, hb, ht]
  rw [refreshBranch, hcontained] at h
  split at h
  · rename_i hin
    cases h
    exact .contained hb ht hin.2
  · rename_i hnot
    have hout : r.isAncestor b t = false := by
      by_contra hin
      exact hnot ⟨by rw [hfails], Bool.not_eq_false _ ▸ hin⟩
    split at h
    · cases h
    · rename_i sha r₂ hmerge
      cases h
      obtain ⟨rfl, -⟩ := mergeTips_contained hmerge
      exact .ready hb ht hout
    · rename_i after r₂ hmerge
      have hmerged := mergeTips_merged hmerge
      rw [if_neg (by simp [hfails])] at h
      have hbefore : readBefore branch call r = some (r.tip branch) :=
        readBefore_of_head (by rw [hfails]) (by rw [hb]; exact some_ne_none _)
      have hread : (fun path => call.fails (.readTree path)) = fun _ => false := by rw [hfails]
      rw [hbefore, hread, hmerged.worktrees] at h
      have hnone := congrArg fst h
      rw [map_eq_none_iff] at hnone
      have hr' : r' = r₂.setWorktrees _ := (congrArg snd h).symm
      rw [hr']
      exact .moved hmerged (Prod.ext rfl hnone)

omit hfails in
theorem Refreshed.acyclic (h : Refreshed branch target r r') (hr : r.Acyclic) : r'.Acyclic := by
  cases h with
  | contained | ready => exact hr
  | moved hmerged hws => exact hmerged.acyclic hr

/-- **A landing that names a commit behind its refresh**: the target held the branch before, or
    the two are merged. -/
theorem landRefreshed_names {result : LandResult}
    (hr : r.Acyclic) (hb : r.heads branch = some b) (ht : r.heads call.target = some t)
    (h : landRefreshed mergeTree branch call r = (result, r')) (hnames : Names (some result) sha) :
    (r.isAncestor b t = true ∧ r' = r ∧ sha = call.landedAt) ∨
      ∃ r₂, Refreshed branch call.target r r₂ ∧ Merged call.target branch r₂ sha r' := by
  obtain ⟨landed, hlanded, hok, hsha⟩ := hnames
  cases hlanded
  rw [landRefreshed] at h
  cases hrefresh : refreshBranch mergeTree branch call r with
  | mk failed r₂ =>
    rw [hrefresh] at h
    cases failed with
    | some why =>
      -- no refusal is ok
      cases h
      rw [refreshBranch] at hrefresh
      split at hrefresh
      · cases hrefresh
      · split at hrefresh
        · cases hrefresh
          cases hok
        · cases hrefresh
        · split at hrefresh
          · cases hrefresh
            cases hok
          · have hstale := congrArg fst hrefresh
            obtain ⟨path, -, hwhy⟩ := map_eq_some_iff.mp hstale
            rw [← hwhy] at hok
            cases hok
    | none =>
      have hrefreshed := refreshBranch_none hfails hb ht hrefresh
      dsimp only at h
      rw [landMerge] at h
      split at h
      · cases h
        cases hok
      · rename_i tip r₃ hmerge
        cases h
        cases hsha
        obtain ⟨rfl, b', t', hb', ht', hin⟩ := mergeTips_contained hmerge
        refine .inl ?_
        cases hrefreshed with
        | contained hb₁ ht₁ hin₁ =>
          cases hb.symm.trans hb₁
          cases ht.symm.trans ht₁
          exact ⟨hin₁, rfl, rfl⟩
        | ready hb₁ ht₁ hout =>
          cases hb₁.symm.trans hb'
          cases ht₁.symm.trans ht'
          rw [hin] at hout
          cases hout
        | @moved after r₄ ws hmerged hws =>
          -- a commit just written is no ancestor of a tip that was there
          have hafter : b' = r.commits.length := by
            have hhead : r₄.heads branch = some b' := hb'
            rw [hmerged.head_target, hmerged.sha_eq] at hhead
            exact (some.inj hhead).symm
          have htarget : t' = t := by
            have hhead : r₄.heads call.target = some t' := ht'
            rw [hmerged.head_other hmerged.source_ne, ht] at hhead
            exact (some.inj hhead).symm
          have hle : b' ≤ t' :=
            le_of_isAncestor (Refreshed.acyclic (.moved hmerged hws) hr) hin
          rw [hafter, htarget] at hle
          exact absurd (r.heads_lt _ _ ht) (Nat.not_lt_of_le hle)
      · rename_i merged r₃ hmerge
        cases h
        cases hsha
        exact .inr ⟨r₂, hrefreshed, mergeTips_merged hmerge⟩

end

/-! ## The ticket's worktree -/

def OnBranch (s : Setting) (r : Repo) : Prop :=
  ∀ x, (s.ticketRoot.bind fun root => r.worktrees.find? (·.path = root)) = some x →
    x.head = .branch s.branch ∧ x.prunable = false

/-- It is, and holds nothing a landing would leave behind. -/
def Ready (s : Setting) (r : Repo) : Prop :=
  ∀ x, (s.ticketRoot.bind fun root => r.worktrees.find? (·.path = root)) = some x →
    (x.head = .branch s.branch ∧ x.prunable = false) ∧ Committed s.recorded (r.tip s.branch) x

theorem headTree_of_branch {x : Worktree} (h : x.head = .branch s.branch) :
    headTree r x = r.tip s.branch := by
  rw [headTree, h]

theorem ready_of_uncommitted (hon : OnBranch s r)
    (h : uncommitted (callOf git r s ticket) r = none) : Ready s r := by
  rw [uncommitted_eq_none_iff rfl] at h
  intro x hx
  refine ⟨hon x hx, ?_⟩
  rw [← headTree_of_branch (hon x hx).1]
  exact h x hx

theorem uncommitted_of_ready (h : Ready s r) : uncommitted (callOf git r s ticket) r = none := by
  rw [uncommitted_eq_none_iff rfl]
  intro x hx
  rw [headTree_of_branch (h x hx).1.1]
  exact (h x hx).2

theorem Ready.congr (h : Ready s r) (hworktrees : r'.worktrees = r.worktrees)
    (htip : r'.tip s.branch = r.tip s.branch) : Ready s r' := by
  intro x hx
  rw [hworktrees] at hx
  rw [htip]
  exact h x hx

theorem tip_of_head (hb : r.heads s.branch = some b) (hb' : r'.heads s.branch = some b)
    (hpre : r.commits <+: r'.commits) : r'.tip s.branch = r.tip s.branch := by
  rw [tip, tip, hb, hb']
  exact tree_of_commits hpre (r.heads_lt _ _ hb)

theorem Ready.merged (h : Ready s r) (hm : Merged target s.branch r sha r') : Ready s r' := by
  obtain ⟨t, b, tree, ht, hb, hne, hcommits⟩ := hm.tips
  refine h.congr hm.worktrees (tip_of_head hb ?_ hm.prefix_commits)
  rw [hm.head_other hm.source_ne]
  exact hb

theorem find?_aligned {fails : String → Bool} {before : Option Files}
    {after : Files} {xs ws : List Worktree} {root : String} {x' : Worktree}
    (h : alignWorktrees fails branch before after xs = (ws, none))
    (hfind : ws.find? (·.path = root) = some x') :
    ∃ x, xs.find? (·.path = root) = some x ∧
      ((alignWorktree fails branch before after x = .skipped ∧ x' = x) ∨
        ∃ c, alignWorktree fails branch before after x = .moved c ∧
          x' = { x with checkout := c }) := by
  induction xs generalizing ws with
  | nil =>
    cases h
    cases hfind
  | cons x xs ih =>
    rw [alignWorktrees] at h
    cases halign : alignWorktree fails branch before after x with
    | stuck =>
      rw [halign] at h
      cases h
    | skipped =>
      rw [halign] at h
      have hws : ws = x :: _ := (congrArg fst h).symm
      have hnone : (alignWorktrees fails branch before after xs).2 = none := congrArg snd h
      rw [hws, find?_cons] at hfind
      rw [find?_cons]
      split at hfind
      · cases hfind
        exact ⟨_, rfl, .inl ⟨halign, rfl⟩⟩
      · exact ih (Prod.ext rfl hnone) hfind
    | moved c =>
      rw [halign] at h
      have hws : ws = { x with checkout := c } :: _ := (congrArg fst h).symm
      have hnone : (alignWorktrees fails branch before after xs).2 = none := congrArg snd h
      rw [hws, find?_cons] at hfind
      rw [find?_cons]
      by_cases hpath : x.path = root
      · rw [show decide (({ x with checkout := c } : Worktree).path = root) = true from
          decide_eq_true hpath] at hfind
        cases hfind
        rw [show decide (x.path = root) = true from decide_eq_true hpath]
        exact ⟨_, rfl, .inr ⟨c, halign, rfl⟩⟩
      · rw [show decide (({ x with checkout := c } : Worktree).path = root) = false from
          decide_eq_false hpath] at hfind
        rw [show decide (x.path = root) = false from decide_eq_false hpath]
        exact ih (Prod.ext rfl hnone) hfind

theorem move_of_aligned {before after : Files} {x : Worktree}
    {a : Alignment} (hhead : x.head = .branch branch) (hprunable : x.prunable = false)
    (h : alignWorktree (fun _ => false) branch (some before) after x = a) :
    a ≠ .skipped ∧ ∀ c, a = .moved c → move before after x.checkout = some c := by
  rw [alignWorktree, if_neg (not_not.mpr hhead), if_neg (by simp [hprunable])] at h
  split at h
  · subst h
    constructor
    · intro h
      cases h
    · rintro c ⟨⟩
  · rw [if_neg (by simp), bind_some] at h
    cases hmove : move before after x.checkout with
    | none =>
      rw [hmove] at h
      subst h
      constructor
      · intro h
        cases h
      · rintro c ⟨⟩
    | some c =>
      rw [hmove] at h
      subst h
      constructor
      · intro h
        cases h
      · rintro c' ⟨⟩
        rfl

/-- **The ticket's worktree is ready behind a refresh, if it was before.** -/
theorem Ready.refreshed (h : Ready s r) (hr : Refreshed s.branch target r r') : Ready s r' := by
  cases hr with
  | contained | ready => exact h
  | @moved after r₂ ws hmerged hws =>
    intro x' hx'
    obtain ⟨root, hroot, hfind⟩ := bind_eq_some_iff.mp hx'
    obtain ⟨x, hx, halign⟩ := find?_aligned hws hfind
    obtain ⟨⟨hhead, hprunable⟩, hcommitted⟩ := h x (by rw [hroot]; exact hx)
    have htip : (r₂.setWorktrees ws).tip s.branch = r₂.tree after := by
      show ((r₂.heads s.branch).map r₂.tree).getD [] = _
      rw [hmerged.head_target]
      rfl
    rcases halign with ⟨hskipped, -⟩ | ⟨c, hmoved, rfl⟩
    · exact absurd rfl (move_of_aligned hhead hprunable hskipped).1
    · rw [htip]
      exact ⟨⟨hhead, hprunable⟩,
        committed_of_move ((move_of_aligned hhead hprunable hmoved).2 c rfl) hcommitted⟩

/-! ## What a landing that names a commit leaves -/

/-- The target does not contain the branch, and holds all it adds. -/
def ByContent (git : Answers) (s : Setting) (r : Repo) : Prop :=
  ∃ b t, r.heads s.branch = some b ∧ targetTip r s = some t ∧ r.isAncestor b t = false ∧
    heldByContent git r s ≠ none

theorem heldByContent_eq (hb : r.heads s.branch = some b)
    (ht : targetTip r s = some t) : heldByContent git r s = holderByContent git r b t := by
  rw [heldByContent, hb, ht]

theorem holderByContent_congr (h : r'.commits = r.commits) (b t : Sha) :
    holderByContent git r' b t = holderByContent git r b t := by
  have htree : r'.tree = r.tree := by
    funext sha
    rw [tree, tree, h]
  have hleaves : leavesUnchanged git r' = leavesUnchanged git r := by
    funext commit branchSha
    rw [leavesUnchanged, leavesUnchanged, h, htree]
  have hadds : addsNothing git r' = addsNothing git r := by
    funext baseSha branchSha
    rw [addsNothing, addsNothing, hleaves, isAncestor_congr h]
  rw [holderByContent, holderByContent, supersedingCommit, supersedingCommit, h, htree, hleaves,
    hadds]

/-- How the target has the branch behind a landing that names a commit. -/
inductive Has (git : Answers) (r : Repo) (b t sha : Sha) : Prop
  | contained (hb : r.isAncestor b sha = true) (ht : r.isAncestor sha t = true)
  | content (hout : r.isAncestor b t = false) (hholder : holderByContent git r b t = some sha)
      (hne : sha ≠ b)

structure Settled (git : Answers) (s : Setting) (w : Landed) (b t sha : Sha) : Prop where
  acyclic : w.repo.Acyclic
  repository : s.repository = true
  target_ne : s.target ≠ s.base
  ticket : w.ticket = { landedSha := .digest sha, landedBranch := s.target }
  branch : w.repo.heads s.branch = some b
  target : w.repo.heads s.target = some t
  ready : Ready s w.repo
  has : Has git w.repo b t sha

theorem recordLanding_of_names {result : Option LandResult}
    (h : Names result sha) : recordLanding target result ticket =
      { landedSha := .digest sha, landedBranch := target } := by
  obtain ⟨⟨ok, landedSha, detail, skipped, files⟩, rfl, hok, hsha⟩ := h
  cases hok
  cases hsha
  rfl

theorem Entered.acyclic (h : Entered s r r₁ b t) (hr : r.Acyclic) : r₁.Acyclic := by
  intro sha commit hsha
  rw [h.commits] at hsha
  exact hr sha commit hsha

theorem Entered.ready (h : Entered s r r₁ b t) (hr : Ready s r) : Ready s r₁ :=
  hr.congr h.worktrees (tip_of_head h.before h.branch (h.commits ▸ prefix_rfl))

theorem not_byContent (hgit : git.Lawful) (hr : w.repo.Acyclic)
    (hentered : Entered s w.repo r₁ b t) (hheld : Held git s w r₁ b t .goesOn) :
    ¬ ByContent git s w.repo := by
  rintro ⟨b', t', hb, ht, hout, hsome⟩
  cases hb.symm.trans hentered.before
  cases ht.symm.trans hentered.tip
  cases hheld with
  | contained hin =>
    rw [isAncestor_congr hentered.commits, hout] at hin
    cases hin
  | notHeld _ hnone =>
    obtain ⟨holder, hholder⟩ := ne_none_iff_exists'.mp hsome
    have hon := holder_isAncestor hgit hr
      ((heldByContent_eq hentered.before hentered.tip).symm.trans hholder)
    rw [hnone holder hholder, hout] at hon
    cases hon

/-- **What a landing that names a commit leaves**, and whether it was by content. -/
theorem landed_cases (hgit : git.Lawful) (hr : w.repo.Acyclic) (hon : OnBranch s w.repo)
    {result : Option LandResult} {w' : Landed} (h : land git s w = (result, w'))
    (hnames : Names result sha) :
    ∃ b t, Settled git s w' b t sha ∧
      (ByContent git s w.repo ↔ w'.repo.isAncestor b t = false) := by
  have hrepo : (landTicket git.mergeTree s.branch (callOf git w.repo s w.ticket) w.repo).2
      = w'.repo := congrArg (fun x => x.2.repo) h
  have hresult : (landTicket git.mergeTree s.branch (callOf git w.repo s w.ticket) w.repo).1
      = result := congrArg fst h
  have hticket : w'.ticket = { landedSha := .digest sha, landedBranch := s.target } := by
    refine (congrArg (fun x => x.2.ticket) h).symm.trans ?_
    show recordLanding s.target _ w.ticket = _
    rw [hresult]
    exact recordLanding_of_names hnames
  rw [landTicket] at hrepo hresult
  cases henter : enter s.branch (callOf git w.repo s w.ticket) w.repo with
  | mk entry r₁ =>
    rw [henter] at hrepo hresult
    cases entry with
    | ends ended =>
      cases hresult
      subst hrepo
      obtain ⟨huncommitted, b, t, hentered, hheld⟩ :=
        enter_held henter (.inr ⟨ended, sha, rfl, hnames⟩)
      have hready := hentered.ready (ready_of_uncommitted hon huncommitted)
      cases hheld with
      | content holder hout hholder hne =>
        obtain ⟨landed, hlanded, -, hsha⟩ := hnames
        cases hlanded
        cases hsha
        refine ⟨b, t, ⟨hentered.acyclic hr, hentered.repository, hentered.target_ne, hticket,
          hentered.branch, hentered.target, hready, ?_⟩, ?_⟩
        · refine .content hout ?_ hne
          rw [holderByContent_congr hentered.commits,
            ← heldByContent_eq hentered.before hentered.tip]
          exact hholder
        · refine ⟨fun _ => hout, fun _ => ⟨b, t, hentered.before, hentered.tip, ?_, ?_⟩⟩
          · rw [← isAncestor_congr hentered.commits]
            exact hout
          · rw [hholder]
            exact some_ne_none _
    | goesOn =>
      obtain ⟨huncommitted, b, t, hentered, hheld⟩ := enter_held henter (.inl rfl)
      have hready := hentered.ready (ready_of_uncommitted hon huncommitted)
      have hacyclic := hentered.acyclic hr
      have hnot := not_byContent hgit hr hentered hheld
      cases hlanded : landRefreshed git.mergeTree s.branch (callOf git w.repo s w.ticket) r₁ with
      | mk refreshed r₂ =>
        rw [hlanded] at hrepo hresult
        cases hresult
        subst hrepo
        rcases landRefreshed_names callOf_fails hacyclic hentered.branch hentered.target
          hlanded hnames with ⟨hin, heq, hsha⟩ | ⟨r₃, hrefreshed, hmerged⟩
        · have hcommits : w'.repo.commits = w.repo.commits := by
            rw [heq]
            exact hentered.commits
          have hbefore : w.repo.isAncestor b t = true := by
            rw [← isAncestor_congr hentered.commits]
            exact hin
          have hfound : sha = alreadyLandedAt git w.repo w.ticket s.target (some t) b := by
            rw [hsha]
            show (((w.repo.heads s.branch).map _).getD 0) = _
            rw [hentered.before, hentered.tip]
            rfl
          have hbetween : w.repo.isAncestor b sha = true ∧ w.repo.isAncestor sha t = true := by
            rw [hfound]
            exact alreadyLandedAt_between hgit hr hbefore
          refine ⟨b, t, ⟨heq ▸ hacyclic, hentered.repository, hentered.target_ne, hticket,
            heq ▸ hentered.branch, heq ▸ hentered.target, heq ▸ hready, ?_⟩, ?_⟩
          · refine .contained ?_ ?_
            · rw [isAncestor_congr hcommits]
              exact hbetween.1
            · rw [isAncestor_congr hcommits]
              exact hbetween.2
          · rw [isAncestor_congr hcommits, hbefore]
            exact ⟨fun h => absurd h hnot, fun h => by cases h⟩
        · obtain ⟨_, b₂, -, -, hb₂, -, -⟩ := hmerged.tips
          have hacyclic₃ := hrefreshed.acyclic hacyclic
          have htip : w'.repo.isAncestor b₂ sha = true := hmerged.isAncestor hacyclic₃ (.inl hb₂)
          refine ⟨b₂, sha, ⟨hmerged.acyclic hacyclic₃, hentered.repository,
            hentered.target_ne, hticket, ?_, hmerged.head_target,
            (hready.refreshed hrefreshed).merged hmerged,
            .contained htip isAncestor_refl⟩, ?_⟩
          · rw [hmerged.head_other hmerged.source_ne]
            exact hb₂
          · rw [htip]
            exact ⟨fun h => absurd h hnot, fun h => by cases h⟩

end Loregarden.Landing
