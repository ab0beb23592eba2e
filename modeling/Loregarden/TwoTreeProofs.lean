import Mathlib.Data.List.Basic
import Mathlib.Data.Option.Basic

/-! # The two-tree move of a checkout

A checkout has an index, files, and paths it ignores. `git read-tree -m -u before after` carries it
from one tree to another (`move`): path by path it keeps what is there, takes what `after` has, or
refuses the whole move. What local edits a checkout has, and when two checkouts differ from their
tips by the same ones (`Tidy`), is read at each path. -/

namespace Loregarden.TwoTree

open List

variable {Path Blob : Type} [DecidableEq Path]

abbrev Tree (Path Blob : Type) := List (Path × Blob)

namespace Tree

def get (t : Tree Path Blob) (p : Path) : Option Blob := (t.find? (·.1 = p)).map Prod.snd

def paths (t : Tree Path Blob) : List Path := t.map Prod.fst

def collect (ps : List Path) (f : Path → Option Blob) : Tree Path Blob :=
  ps.filterMap fun p => (f p).map (Prod.mk p)

theorem get_cons (q : Path) (b : Blob) (t : Tree Path Blob) (p : Path) :
    get ((q, b) :: t) p = if q = p then some b else t.get p := by
  rw [get, List.find?_cons]
  by_cases h : q = p
  · rw [if_pos h, show decide ((q, b).1 = p) = true from decide_eq_true h]
    rfl
  · rw [if_neg h, show decide ((q, b).1 = p) = false from decide_eq_false h]
    rfl

theorem get_eq_none {t : Tree Path Blob} {p : Path} (h : p ∉ t.paths) : t.get p = none := by
  induction t with
  | nil => rfl
  | cons e t ih =>
    obtain ⟨q, b⟩ := e
    have hne : q ≠ p := by
      rintro rfl
      exact h mem_cons_self
    rw [get_cons, if_neg hne]
    exact ih fun hp => h (mem_cons_of_mem _ hp)

theorem get_collect (ps : List Path) (f : Path → Option Blob) (p : Path) :
    (collect ps f).get p = if p ∈ ps then f p else none := by
  induction ps with
  | nil => rfl
  | cons q ps ih =>
    rw [collect, filterMap_cons]
    cases hf : f q with
    | none =>
      show (collect ps f).get p = _
      rw [ih]
      by_cases hp : p = q
      · subst hp
        rw [if_pos mem_cons_self, hf]
        split <;> rfl
      · simp [hp]
    | some b =>
      show get ((q, b) :: collect ps f) p = _
      rw [get_cons, ih]
      by_cases hp : q = p
      · subst hp
        rw [if_pos rfl, if_pos mem_cons_self, hf]
      · rw [if_neg hp]
        simp [Ne.symm hp]

end Tree

structure Checkout (Path Blob : Type) where
  index : Tree Path Blob
  files : Tree Path Blob
  /-- A path that no file is tracked at and whose file is not looked at. -/
  ignored : Path → Bool

def Local (tip : Tree Path Blob) (c : Checkout Path Blob) (p : Path) : Prop :=
  c.index.get p ≠ tip.get p ∨ c.files.get p ≠ tip.get p

/-- `c'` differs from `tip'` only by what `c` differed from `tip` by. -/
def Tidy (tip : Tree Path Blob) (c : Checkout Path Blob) (tip' : Tree Path Blob)
    (c' : Checkout Path Blob) : Prop :=
  ∀ p, Local tip' c' p → Local tip c p ∧
    c'.index.get p = c.index.get p ∧ c'.files.get p = c.files.get p

variable [DecidableEq Blob]
variable (before after : Tree Path Blob) (c : Checkout Path Blob)

/-! ## The move -/

inductive Change where
  | keep | take | refuse
  deriving DecidableEq

/-- The two-tree merge of one path. A path both trees agree on is kept as it is, and so is one whose
    index already has what `after` has; a path whose index and file stand as in `before` takes
    `after`, as does one whose file is gone, or ignored and not tracked. -/
def changeAt (p : Path) : Change :=
  if before.get p = after.get p then .keep
  else if c.index.get p = after.get p then .keep
  else if c.index.get p = before.get p ∧ (c.files.get p = c.index.get p ∨ c.files.get p = none ∨
        (c.index.get p = none ∧ c.ignored p = true)) then .take
  else .refuse

def allPaths : List Path := before.paths ++ after.paths ++ c.index.paths ++ c.files.paths

def movedTo (old : Tree Path Blob) (p : Path) : Option Blob :=
  if changeAt before after c p = .take then after.get p else old.get p

/-- `git read-tree -m -u before after`. -/
def move : Option (Checkout Path Blob) :=
  if ∃ p ∈ allPaths before after c, changeAt before after c p = .refuse then none
  else some
    { index := .collect (allPaths before after c) (movedTo before after c c.index)
      files := .collect (allPaths before after c) (movedTo before after c c.files)
      ignored := c.ignored }

def Clear : Prop :=
  ∀ p, before.get p ≠ after.get p → c.index.get p = after.get p ∨
    (c.index.get p = before.get p ∧ (c.files.get p = c.index.get p ∨ c.files.get p = none ∨
      (c.index.get p = none ∧ c.ignored p = true)))

variable {before after c}

theorem changeAt_ne_refuse (h : Clear before after c) (p : Path) :
    changeAt before after c p ≠ .refuse := by
  rw [changeAt]
  by_cases hsame : before.get p = after.get p
  · rw [if_pos hsame]
    exact nofun
  · rw [if_neg hsame]
    by_cases hindex : c.index.get p = after.get p
    · rw [if_pos hindex]
      exact nofun
    · rw [if_neg hindex, if_pos ((h p hsame).resolve_left hindex)]
      exact nofun

theorem move_of_clear (h : Clear before after c) : ∃ c', move before after c = some c' := by
  refine ⟨_, if_neg ?_⟩
  rintro ⟨p, -, hp⟩
  exact changeAt_ne_refuse h p hp

theorem movedTo_eq_none {old : Tree Path Blob} {p : Path} (hafter : p ∉ after.paths)
    (hold : p ∉ old.paths) : movedTo before after c old p = none := by
  rw [movedTo]
  split
  · exact Tree.get_eq_none hafter
  · exact Tree.get_eq_none hold

section

variable {c' : Checkout Path Blob} (h : move before after c = some c')
include h

theorem get_of_move (p : Path) : c'.index.get p = movedTo before after c c.index p ∧
      c'.files.get p = movedTo before after c c.files p := by
  rw [move] at h
  split at h
  · cases h
  · cases h
    by_cases hp : p ∈ allPaths before after c
    · exact ⟨(Tree.get_collect _ _ p).trans (if_pos hp), (Tree.get_collect _ _ p).trans (if_pos hp)⟩
    · have hnot : p ∉ after.paths ∧ p ∉ c.index.paths ∧ p ∉ c.files.paths := by
        simp only [allPaths, mem_append, not_or] at hp
        exact ⟨hp.1.1.2, hp.1.2, hp.2⟩
      rw [movedTo_eq_none hnot.1 hnot.2.1, movedTo_eq_none hnot.1 hnot.2.2]
      exact ⟨(Tree.get_collect _ _ p).trans (if_neg hp), (Tree.get_collect _ _ p).trans (if_neg hp)⟩

theorem changeAt_of_move (p : Path) : changeAt before after c p ≠ .refuse := by
  intro hrefuse
  by_cases hp : p ∈ allPaths before after c
  · rw [move, if_pos ⟨p, hp, hrefuse⟩] at h
    cases h
  · have hnone : before.get p = after.get p := by
      simp only [allPaths, mem_append, not_or] at hp
      rw [Tree.get_eq_none hp.1.1.1, Tree.get_eq_none hp.1.1.2]
    rw [changeAt, if_pos hnone] at hrefuse
    cases hrefuse

theorem index_of_same {p : Path}
    (hsame : before.get p = after.get p) : c'.index.get p = c.index.get p := by
  rw [(get_of_move h p).1, movedTo, changeAt, if_pos hsame]
  rfl

/-- A path the trees differ at is as `after` has it in the index. -/
theorem index_of_changed {p : Path}
    (hdiff : before.get p ≠ after.get p) : c'.index.get p = after.get p := by
  rw [(get_of_move h p).1, movedTo]
  by_cases htake : changeAt before after c p = .take
  · rw [if_pos htake]
  · rw [if_neg htake]
    by_contra hindex
    have hrefuse := changeAt_of_move h p
    rw [changeAt, if_neg hdiff, if_neg hindex] at htake hrefuse
    split at htake
    · exact htake rfl
    · rename_i hnot
      exact hrefuse (if_neg hnot)

/-- **A move that is not refused leaves only the local edits there were.** -/
theorem move_tidy : Tidy before c after c' := by
  intro p hlocal
  obtain ⟨hindex, hfiles⟩ := get_of_move h p
  by_cases htake : changeAt before after c p = .take
  · rw [movedTo, if_pos htake] at hindex hfiles
    rcases hlocal with hlocal | hlocal
    · exact absurd hindex hlocal
    · exact absurd hfiles hlocal
  · rw [movedTo, if_neg htake] at hindex hfiles
    refine ⟨?_, hindex, hfiles⟩
    rw [Local, hindex, hfiles] at hlocal
    by_cases hsame : before.get p = after.get p
    · rw [← hsame] at hlocal
      exact hlocal
    · have hafter : c.index.get p = after.get p := hindex ▸ index_of_changed h hsame
      left
      rw [hafter]
      exact Ne.symm hsame

end

end Loregarden.TwoTree
