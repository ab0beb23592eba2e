import Mathlib.Data.List.Dedup
import Loregarden.BranchLandedModel

/-! # What a landed branch has in its base

A wrong answer needs a path that differs and that no printed name selects: the old name of a rename,
or a name that is printed quoted, as blanks or as a pattern. `Covered` is what has to hold of the
three trees (`landed_means_landed_iff`). -/

namespace Loregarden.LandedPaths

open BranchLanded Text List

variable {git : Diffing} {c : Compared} {old new : Tree} {path : Path}

/-- The work at a path is not in the base. -/
def Missing (c : Compared) (path : Path) : Prop :=
  c.mergeBase.at path ≠ c.tip.at path ∧ c.base.at path ≠ c.tip.at path

/-- A name as it is printed of a path the branch changed, which is not the old name of a rename;
    a line of blanks is none. -/
def Named (git : Diffing) (c : Compared) (name : List Char) : Prop :=
  (∃ path, c.mergeBase.at path ≠ c.tip.at path ∧
    (∀ new, (path, new) ∉ git.renames c.mergeBase c.tip) ∧ git.printed path = name) ∧
  ∃ char ∈ name, isSpace char = false

/-- The printed names, read as pathspecs, select the path. -/
def Selected (git : Diffing) (c : Compared) (path : Path) : Prop :=
  ((∃ name selects, Named git c name ∧ git.reads name = some (.takes selects) ∧
        selects path = true) ∨
      ∀ name selects, Named git c name → git.reads name ≠ some (.takes selects)) ∧
    ∀ name selects, Named git c name → git.reads name = some (.leavesOut selects) →
      selects path = false

/-- Where the work at a path is missing, git fails; or names are printed, and git refuses one as a
    pathspec or they select a path at which base and tip differ. -/
def Covered (git : Diffing) (c : Compared) : Prop :=
  (∃ path, Missing c path) → c.nameOnlyFails = true ∨ (∃ name, Named git c name) ∧
      (c.quietFails = true ∨ (∃ name, Named git c name ∧ git.reads name = none) ∨
        ∃ path, c.base.at path ≠ c.tip.at path ∧ Selected git c path)

theorem mem_paths_of_at {entry : Entry} (h : new.at path = some entry) : path ∈ new.paths := by
  rw [Tree.at, lookup_eq_some_iff] at h
  obtain ⟨before, behind, heq, -⟩ := h
  rw [Tree.paths, heq, map_append]
  exact mem_append_right _ mem_cons_self

theorem mem_changed : path ∈ changed old new ↔ old.at path ≠ new.at path := by
  rw [changed, mem_filter, mem_dedup, decide_eq_true_iff]
  refine ⟨And.right, fun hne => ⟨?_, hne⟩⟩
  cases hold : old.at path with
  | some entry => exact mem_append_left _ (mem_paths_of_at hold)
  | none =>
    cases hnew : new.at path with
    | some entry => exact mem_append_right _ (mem_paths_of_at hnew)
    | none => exact absurd (hold.trans hnew.symm) hne

/-- The names `_check` hands on as pathspecs. -/
def Diffing.named (git : Diffing) (c : Compared) : List (List Char) :=
  ((git.shown c.mergeBase c.tip).map git.printed).filter fun line => strip isSpace line ≠ []

theorem mem_named {name : List Char} : name ∈ git.named c ↔ Named git c name := by
  rw [Diffing.named, Diffing.shown, mem_filter, mem_map, decide_eq_true_iff, Ne, strip_eq_nil_iff]
  simp only [Named, mem_filter, mem_changed, Bool.not_eq_true', any_eq_false, decide_eq_true_iff]
  refine and_congr (exists_congr fun path => ?_) (by simp)
  constructor
  · rintro ⟨⟨hwork, hold⟩, hname⟩
    exact ⟨hwork, fun new hin => hold _ hin rfl, hname⟩
  · rintro ⟨hwork, hold, hname⟩
    refine ⟨⟨hwork, ?_⟩, hname⟩
    rintro ⟨old, new⟩ hin rfl
    exact hold new hin

theorem selects_iff : selects ((git.named c).filterMap git.reads) path = true ↔
    Selected git c path := by
  rw [selects, Bool.and_eq_true, Bool.or_eq_true, any_eq_true, all_eq_true, all_eq_true]
  simp only [mem_filterMap, mem_named]
  refine and_congr (or_congr ?_ ?_) ?_
  · constructor
    · rintro ⟨spec, ⟨name, hname, hread⟩, htakes⟩
      cases spec with
      | takes p => exact ⟨name, p, hname, hread, htakes⟩
      | leavesOut p => cases htakes
    · rintro ⟨name, p, hname, hread, htakes⟩
      exact ⟨.takes p, ⟨name, hname, hread⟩, htakes⟩
  · constructor
    · intro h name p hname hread
      cases h _ ⟨name, hname, hread⟩
    · rintro h spec ⟨name, hname, hread⟩
      cases spec with
      | takes p => exact absurd hread (h name p hname)
      | leavesOut p => rfl
  · constructor
    · intro h name p hname hread
      exact Bool.not_eq_true' _ ▸ h _ ⟨name, hname, hread⟩
    · rintro h spec ⟨name, hname, hread⟩
      cases spec with
      | takes p => rfl
      | leavesOut p => exact (Bool.not_eq_true' _).mpr (h name p hname hread)

theorem pathspec_named (git : Diffing) (c : Compared) :
    (git.pathspec (git.named c) = none ∧ ∃ name, Named git c name ∧ git.reads name = none) ∨
      (git.pathspec (git.named c) = some (selects ((git.named c).filterMap git.reads)) ∧
        ∀ name, Named git c name → git.reads name ≠ none) := by
  rw [Diffing.pathspec]
  split
  · next hall =>
      rw [all_eq_true] at hall
      refine .inr ⟨rfl, fun name hname hnone => ?_⟩
      have hread := hall name (mem_named.mpr hname)
      rw [hnone] at hread
      cases hread
  · next hnot =>
      rw [all_eq_true] at hnot
      push Not at hnot
      obtain ⟨name, hname, hread⟩ := hnot
      exact .inl ⟨rfl, name, mem_named.mp hname, by simpa using hread⟩

/-- The second call finds nothing to differ. -/
theorem quiet_eq_zero_iff : git.quiet c (git.named c) = 0 ↔ ¬ (c.quietFails = true ∨
    (∃ name, Named git c name ∧ git.reads name = none) ∨
      ∃ path, c.base.at path ≠ c.tip.at path ∧ Selected git c path) := by
  rw [Diffing.quiet, codeGiven]
  cases c.quietFails with
  | true => simp
  | false =>
    rcases pathspec_named git c with ⟨hspec, hrefused⟩ | ⟨hspec, htaken⟩
    · rw [hspec]
      exact ⟨nofun, fun h => absurd (.inr (.inl hrefused)) h⟩
    · rw [hspec]
      have hnone : ¬ ∃ name, Named git c name ∧ git.reads name = none := by
        rintro ⟨name, hname, hread⟩
        exact htaken name hname hread
      simp only [hnone, Bool.false_eq_true, false_or, ← selects_iff, ← mem_changed, if_false]
      rw [← any_eq_true]
      split <;> simp_all

/-- The answer, on the trees. -/
theorem landed_iff (base branch : Name) :
    branchWorkHasLanded (git.refs c) base branch = true ↔ c.nameOnlyFails = false ∧
      (git.named c = [] ∨ git.quiet c (git.named c) = 0) := by
  rw [branchWorkHasLanded, Diffing.refs]
  cases c.nameOnlyFails with
  | true => simp [given, check]
  | false =>
    show (check (some _) _).any Verdict.landed = true ↔ _
    rw [check]
    dsimp only
    rw [show (List.filter _ _ : List Path) = git.named c from rfl]
    by_cases hnone : git.named c = []
    · simp [hnone]
    · rw [if_neg hnone]
      split
      · simp [hnone]
      · rename_i hcode
        simp [hnone, (not_or.mp hcode).1]

theorem named_eq_nil_iff : git.named c = [] ↔ ¬ ∃ name, Named git c name := by
  rw [eq_nil_iff_forall_not_mem, not_exists]
  exact forall_congr' fun name => not_congr mem_named

/-- Names are printed as they are and select themselves; `a` became `b`. -/
def renamed : Diffing where
  printed := id
  renames _ _ := [(['a'], ['b'])]
  reads name := some (.takes fun path => path = name)

/-- The branch renamed `a` to `b`, and the base has both. -/
def copiedBack : Compared where
  mergeBase := ⟨[(['a'], ⟨0, 7⟩)]⟩
  base := ⟨[(['a'], ⟨0, 7⟩), (['b'], ⟨0, 7⟩)]⟩
  tip := ⟨[(['b'], ⟨0, 7⟩)]⟩

end Loregarden.LandedPaths
