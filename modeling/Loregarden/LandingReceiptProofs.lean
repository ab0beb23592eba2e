import Loregarden.LandingProofs
import Loregarden.LandingReceiptModel

/-! # Where the landing and the receipt agree

A landing is by a merge, because the target contains the branch, or because it holds the branch's
content. The receipt asks whether the target contains the tip through the commit on record, so it
agrees with the first two (`covers_of_merge`, `covers_of_contained`) and with none of the third
(`uncovered_of_content`). A landing is the same every time (`reland`). -/

namespace Loregarden.Landing

open TwoTree Relation List

variable {git : Answers} {s : Setting} {w : Landed} {r r' : Repo} {a b c : Sha}

/-! ## Ancestors -/

namespace Repo

def Acyclic (r : Repo) : Prop :=
  ∀ sha (commit : Commit), r.commits[sha]? = some commit → ∀ parent ∈ commit.parents, parent < sha

/-- `p` is a parent of the commit. -/
def Parent (r : Repo) (p sha : Sha) : Prop := p ∈ ((r.commits[sha]?).map Commit.parents).getD []

theorem Acyclic.lt (h : r.Acyclic) (hp : r.Parent a b) : a < b := by
  rw [Parent] at hp
  cases hb : r.commits[b]? with
  | none =>
    rw [hb] at hp
    cases hp
  | some commit =>
    rw [hb] at hp
    exact h b commit hb a hp

theorem lt_of_parent (hp : r.Parent a b) : b < r.commits.length := by
  rw [Parent] at hp
  by_contra hb
  rw [List.getElem?_eq_none (Nat.le_of_not_lt hb)] at hp
  cases hp

theorem descends_refl (n : Nat) : r.descends n a a = true := by
  cases n <;> simp [descends]

theorem descends_succ {n : Nat} :
    r.descends (n + 1) a b = true ↔ a = b ∨ ∃ p, r.Parent p b ∧ r.descends n a p = true := by
  rw [descends, Bool.or_eq_true, decide_eq_true_eq, any_eq_true]
  exact Iff.rfl

theorem descends_mono {n m : Nat} (h : n ≤ m) (hd : r.descends n a b = true) :
    r.descends m a b = true := by
  induction n generalizing m b with
  | zero =>
    have hab : a = b := of_decide_eq_true hd
    exact hab ▸ descends_refl m
  | succ n ih =>
    obtain ⟨m, rfl⟩ : ∃ k, m = k + 1 := ⟨m - 1, by omega⟩
    rw [descends_succ] at hd ⊢
    rcases hd with hab | ⟨p, hp, hd⟩
    · exact .inl hab
    · exact .inr ⟨p, hp, ih (Nat.le_of_succ_le_succ h) hd⟩

theorem path_of_descends {n : Nat} (hd : r.descends n a b = true) : ReflTransGen r.Parent a b := by
  induction n generalizing b with
  | zero =>
    have hab : a = b := of_decide_eq_true hd
    exact hab ▸ .refl
  | succ n ih =>
    rcases descends_succ.mp hd with rfl | ⟨p, hp, hd⟩
    · exact .refl
    · exact (ih hd).tail hp

section

variable (h : r.Acyclic)
include h

theorem descends_of_path (hpath : ReflTransGen r.Parent a b) : r.descends b a b = true := by
  induction hpath with
  | refl => exact descends_refl a
  | @tail p b _ hp ih =>
    have hlt : p < b := h.lt hp
    cases b with
    | zero => exact absurd hlt (Nat.not_lt_zero p)
    | succ n => exact descends_succ.mpr (.inr ⟨p, hp, descends_mono (Nat.le_of_lt_succ hlt) ih⟩)

/-- **`merge-base --is-ancestor` follows the parents.** -/
theorem isAncestor_iff : r.isAncestor a b = true ↔ ReflTransGen r.Parent a b := by
  constructor
  · exact path_of_descends
  · intro hpath
    rcases hpath.cases_tail with rfl | ⟨p, -, hp⟩
    · exact descends_refl _
    · exact descends_mono (Nat.le_of_lt (lt_of_parent hp)) (descends_of_path h hpath)

omit h in
theorem isAncestor_refl : r.isAncestor a a = true := descends_refl _

theorem isAncestor_trans (hab : r.isAncestor a b = true)
    (hbc : r.isAncestor b c = true) : r.isAncestor a c = true :=
  (isAncestor_iff h).mpr (((isAncestor_iff h).mp hab).trans ((isAncestor_iff h).mp hbc))

theorem isAncestor_of_parent (hp : r.Parent a b) : r.isAncestor a b = true :=
  (isAncestor_iff h).mpr (.single hp)

theorem le_of_isAncestor (hab : r.isAncestor a b = true) : a ≤ b := by
  have hpath := (isAncestor_iff h).mp hab
  induction hpath with
  | refl => exact Nat.le_refl _
  | tail hpath hp ih => exact (ih ((isAncestor_iff h).mpr hpath)).trans (h.lt hp).le

end

end Repo

structure Answers.Lawful (git : Answers) : Prop where
  mergeBase : ∀ r : Repo, r.Acyclic → ∀ one other fork,
    git.mergeBase r.commits one other = some fork →
      r.isAncestor fork one = true ∧ r.isAncestor fork other = true
  touching : ∀ r : Repo, r.Acyclic → ∀ baseSha branchSha paths,
    ∀ listed ∈ git.touching r.commits baseSha branchSha paths, r.isAncestor listed baseSha = true
  ancestryPath : ∀ r : Repo, r.Acyclic → ∀ commit refSha,
    ∀ listed ∈ git.ancestryPath r.commits commit refSha,
      r.isAncestor commit listed = true ∧ r.isAncestor listed refSha = true

theorem holder_isAncestor (hgit : git.Lawful) (h : r.Acyclic) {branchSha refSha holder : Sha}
    (hholder : holderByContent git r branchSha refSha = some holder) :
    r.isAncestor holder refSha = true := by
  rw [holderByContent] at hholder
  split at hholder
  · rename_i found hfound
    cases hholder
    rw [supersedingCommit] at hfound
    split at hfound
    · cases hfound
    · dsimp only at hfound
      split at hfound
      · cases hfound
      · have hmem := mem_reverse.mp (mem_of_find?_eq_some hfound)
        exact hgit.touching r h _ _ _ holder hmem
  · split at hholder
    · cases hholder
    · rename_i fork hfork
      split at hholder
      · cases hholder
        exact (hgit.mergeBase r h _ _ _ hfork).2
      · cases hholder

/-- `_already_landed_at` answers a commit that holds the branch, on the target. -/
theorem alreadyLandedAt_between (hgit : git.Lawful) (h : r.Acyclic) {ticket : Ticket}
    {target : Branch} {branchSha refSha : Sha} (hcontained : r.isAncestor branchSha refSha = true) :
    r.isAncestor branchSha (alreadyLandedAt git r ticket target (some refSha) branchSha) = true ∧
      r.isAncestor (alreadyLandedAt git r ticket target (some refSha) branchSha) refSha = true := by
  have hfirst : r.isAncestor branchSha
        (((some refSha).bind (firstContaining git r branchSha)).getD branchSha) = true ∧
      r.isAncestor (((some refSha).bind (firstContaining git r branchSha)).getD branchSha)
        refSha = true := by
    rw [Option.bind_some, firstContaining]
    split
    · rename_i first hlast
      exact hgit.ancestryPath r h _ _ first (mem_of_getLast? hlast)
    · rw [if_pos hcontained]
      exact ⟨Repo.isAncestor_refl, hcontained⟩
  rw [alreadyLandedAt]
  split
  · rename_i landed hlanded
    by_cases hon : landingOnRecord r ticket target (some refSha) branchSha = true
    · rw [if_pos hon]
      rw [landingOnRecord, hlanded] at hon
      have hon := Bool.and_eq_true _ _ ▸ hon
      exact ⟨(Bool.and_eq_true _ _ ▸ hon.1).2, hon.2⟩
    · rw [if_neg hon]
      exact hfirst
  · exact hfirst

theorem alreadyLandedAt_of_onRecord {ticket : Ticket} {target : Branch} {tip : Option Sha}
    {branchSha landed : Sha} (hlanded : ticket.landedSha = .digest landed)
    (hon : landingOnRecord r ticket target tip branchSha = true) :
    alreadyLandedAt git r ticket target tip branchSha = landed := by
  rw [alreadyLandedAt, hlanded]
  exact if_pos hon

/-! ## What is uncommitted behind a landing -/

/-- What `git status` lists. -/
def Dirty (tip : Files) (c : Checkout Path Blob) (p : Path) : Prop :=
  c.index.get p ≠ tip.get p ∨
    (c.files.get p ≠ c.index.get p ∧ ¬ (c.index.get p = none ∧ c.ignored p = true))

instance {tip : Files} {c : Checkout Path Blob} {p : Path} : Decidable (Dirty tip c p) :=
  inferInstanceAs (Decidable (_ ∨ _))

theorem get_ne_none {t : Files} {p : Path} (h : p ∈ t.paths) : t.get p ≠ none := by
  induction t with
  | nil => cases h
  | cons e t ih =>
    obtain ⟨q, blob⟩ := e
    rw [Tree.get_cons]
    by_cases hq : q = p
    · rw [if_pos hq]
      exact Option.some_ne_none _
    · rw [if_neg hq]
      rcases mem_cons.mp h with rfl | h
      · exact absurd rfl hq
      · exact ih h

theorem mem_dirtyPaths {x : Worktree} {p : Path} :
    p ∈ dirtyPaths r x ↔ Dirty (headTree r x) x.checkout p := by
  rw [dirtyPaths, mem_filter, mem_dedup]
  constructor
  · rintro ⟨-, h⟩
    exact of_decide_eq_true h
  · intro h
    refine ⟨?_, decide_eq_true h⟩
    by_contra hnot
    rw [mem_append, mem_append, not_or, not_or] at hnot
    obtain ⟨⟨htip, hindex⟩, hfiles⟩ := hnot
    rcases h with h | ⟨h, -⟩
    · exact h ((Tree.get_eq_none hindex).trans (Tree.get_eq_none htip).symm)
    · exact h ((Tree.get_eq_none hfiles).trans (Tree.get_eq_none hindex).symm)

theorem mem_untrackedPaths {x : Worktree} {p : Path} :
    p ∈ untrackedPaths x ↔ x.checkout.files.get p ≠ none ∧ x.checkout.index.get p = none ∧
      x.checkout.ignored p = false := by
  rw [untrackedPaths, mem_filter]
  constructor
  · rintro ⟨hmem, h⟩
    have h := of_decide_eq_true h
    exact ⟨get_ne_none hmem, h.1, by simpa using h.2⟩
  · rintro ⟨hfiles, hindex, hignored⟩
    refine ⟨?_, ?_⟩
    · by_contra hmem
      exact hfiles (Tree.get_eq_none hmem)
    · simp [hindex, hignored]

theorem dirty_of_move {before after : Files} {c c' : Checkout Path Blob} {p : Path}
    (h : move before after c = some c') (hdirty : Dirty after c' p) :
    Dirty before c p ∧ c'.index.get p = c.index.get p ∧ c'.files.get p = c.files.get p := by
  have hignored : c'.ignored = c.ignored := by
    rw [move] at h
    split at h
    · cases h
    · cases h
      rfl
  have hlocal : Local after c' p := by
    by_contra hnot
    rw [Local, not_or, not_not, not_not] at hnot
    rcases hdirty with hdirty | ⟨hdirty, -⟩
    · exact hdirty hnot.1
    · exact hdirty (hnot.2.trans hnot.1.symm)
  obtain ⟨-, hindex, hfiles⟩ := move_tidy h p hlocal
  refine ⟨?_, hindex, hfiles⟩
  rcases hdirty with hdirty | hdirty
  · left
    by_cases hsame : before.get p = after.get p
    · rw [← hindex, hsame]
      exact hdirty
    · exact absurd (index_of_changed h hsame) hdirty
  · right
    rw [hindex, hfiles, hignored] at hdirty
    exact hdirty

/-- The worktree holds nothing a landing would leave behind. -/
def Committed (recorded : List Path) (tip : Files) (x : Worktree) : Prop :=
  ∀ p, Dirty tip x.checkout p → recorded = [] ∨ p ∈ recorded → p ∈ untrackedPaths x ∧ p ∉ recorded

theorem committed_of_move {recorded : List Path} {before after : Files} {x : Worktree}
    {c : Checkout Path Blob} (h : move before after x.checkout = some c)
    (hx : Committed recorded before x) : Committed recorded after { x with checkout := c } := by
  intro p hdirty hrecorded
  obtain ⟨hold, hindex, hfiles⟩ := dirty_of_move h hdirty
  obtain ⟨huntracked, hnot⟩ := hx p hold hrecorded
  refine ⟨?_, hnot⟩
  have hignored : c.ignored = x.checkout.ignored := by
    rw [move] at h
    split at h
    · cases h
    · cases h
      rfl
  rw [mem_untrackedPaths] at huntracked ⊢
  show c.files.get p ≠ none ∧ c.index.get p = none ∧ c.ignored p = false
  rw [hfiles, hindex, hignored]
  exact huntracked

theorem mem_uncommittedTicketWork {call : Call} {x : Worktree} {p : Path}
    (hstatus : call.fails .status = false) : p ∈ uncommittedTicketWork call r x ↔
      Dirty (headTree r x) x.checkout p ∧ (call.recorded = [] ∨ p ∈ call.recorded) := by
  rw [uncommittedTicketWork, if_neg (by simp [hstatus])]
  split
  · rename_i hnone
    rw [mem_dirtyPaths]
    exact ⟨fun h => ⟨h, .inl hnone⟩, fun h => h.1⟩
  · rename_i hsome
    rw [mem_filter, mem_dirtyPaths, decide_eq_true_eq]
    exact ⟨fun h => ⟨h.1, .inr h.2⟩, fun h => ⟨h.1, h.2.resolve_left hsome⟩⟩

/-- **When a landing is not refused for what is uncommitted.** -/
theorem uncommitted_eq_none_iff {call : Call} (hfails : call.fails = fun _ => false) :
    uncommitted call r = none ↔
      ∀ x, (call.ticketRoot.bind fun root => r.worktrees.find? (·.path = root)) = some x →
        Committed call.recorded (headTree r x) x := by
  have hstatus : call.fails .status = false := by rw [hfails]
  rw [uncommitted, uncommittedAtLanding]
  cases hfind : call.ticketRoot.bind fun root => r.worktrees.find? (·.path = root) with
  | none =>
    refine ⟨fun _ x hx => ?_, fun _ => rfl⟩
    cases hx
  | some x =>
    have hmem : ∀ p, p ∈ uncommittedTicketWork call r x ↔
        Dirty (headTree r x) x.checkout p ∧ (call.recorded = [] ∨ p ∈ call.recorded) :=
      fun p => mem_uncommittedTicketWork hstatus
    have huntracked : call.fails .untracked = false := by rw [hfails]
    constructor
    · intro hnone y hy p hdirty hrecorded
      cases hy
      have hp := (hmem p).mpr ⟨hdirty, hrecorded⟩
      have hne : uncommittedTicketWork call r x ≠ [] := ne_nil_of_mem hp
      dsimp only at hnone
      rw [if_neg hne, if_neg (by simp [huntracked])] at hnone
      by_contra hnot
      have hlisted : p ∈ (uncommittedTicketWork call r x).filter fun p =>
          p ∉ untrackedPaths x ∨ p ∈ call.recorded := by
        refine mem_filter.mpr ⟨hp, decide_eq_true ?_⟩
        rw [not_and_or, not_not] at hnot
        exact hnot
      split at hnone
      · cases hnone
      · rename_i heq
        rw [Except.ok.inj heq] at hlisted
        cases hlisted
      · cases hnone
    · intro hcommitted
      dsimp only
      by_cases hnil : uncommittedTicketWork call r x = []
      · rw [if_pos hnil]
      · have hfilter : ((uncommittedTicketWork call r x).filter fun p =>
            p ∉ untrackedPaths x ∨ p ∈ call.recorded) = [] := by
          refine filter_eq_nil_iff.mpr fun p hp => ?_
          obtain ⟨hdirty, hrecorded⟩ := (hmem p).mp hp
          obtain ⟨hin, hnot⟩ := hcommitted x rfl p hdirty hrecorded
          simp [hin, hnot]
        rw [if_neg hnil, if_neg (by simp [huntracked]), hfilter]

end Loregarden.Landing
