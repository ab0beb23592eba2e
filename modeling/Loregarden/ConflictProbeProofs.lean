import Loregarden.ConflictProbeModel

/-! # A probe that takes its merge back

The aborting undoes whatever merge is in progress, the probe's own or not, and every error of the
merge is read as conflicts. `Safe` is what has to hold for the checkout to stay as it was and the
answer to be true (`probe_harmless_iff`). -/

namespace Loregarden.ConflictProbe

open Text

variable {Files Index Commit : Type} {git : Git Files Index Commit}
variable {steps : Steps (Checkout Files Index Commit)} {c merged : Checkout Files Index Commit}
variable {target : Option Commit} {mergeBase : String} {targetBranch : List Char}

/-- Merging the target into the head of the checkout has no conflict. -/
def ConflictFree (git : Git Files Index Commit) (c : Checkout Files Index Commit)
    (target : Option Commit) : Prop :=
  ∃ commit, target = some commit ∧ git.clean c.head commit = true

/-- The merge starts in the checkout and conflicts, at these paths among others. -/
def ConflictsAt (git : Git Files Index Commit) (c : Checkout Files Index Commit)
    (target : Option Commit) (paths : List Path) : Prop :=
  ∃ commit files index clean, target = some commit ∧
    git.mergingOf c target = .started files index clean ∧
    git.clean c.head commit = false ∧ ∀ path ∈ paths, path ∈ git.conflicting c.head commit

def Truthful (git : Git Files Index Commit) (c : Checkout Files Index Commit)
    (target : Option Commit) (answer : Preview) : Prop :=
  answer.checked = true →
    if answer.hasConflicts then ConflictsAt git c target answer.conflictingFiles
    else ConflictFree git c target

def TruthfulDetails (git : Git Files Index Commit) (c : Checkout Files Index Commit)
    (target : Option Commit) : Option (List Path) → Prop
  | none => ConflictFree git c target
  | some files => files = [] ∨ ConflictsAt git c target files

/-- What git prints for the unmerged paths, less the blanks at its ends, has such a path on every
    line that is not empty. -/
def NamesStand (git : Git Files Index Commit) (index : Index) : Prop :=
  ∀ before name after, strip isSpace (git.diffUnmerged index) = before ++ name ++ after →
    name ≠ [] → '\n' ∉ name → (before = [] ∨ before.getLast? = some '\n') →
      (after = [] ∨ after.head? = some '\n') → name ∈ git.unmerged index

/-- Aborting undoes the merge: git's reset puts back the files and the index there were, or the
    aborting that is broken off leaves the checkout they were in. -/
def Undone (git : Git Files Index Commit) (steps : Steps (Checkout Files Index Commit))
    (c merged : Checkout Files Index Commit) : Prop :=
  match steps.abort with
  | .runs => merged.mergeHead.isSome → git.resetMerge merged = (c.files, c.index)
  | .fails left | .raises left _ => left = c

/-- A fetch or a merge is cut short, and leaves the checkout; or the merge goes through, its
    conflicts are listed under their own names, and it is undone; or the merge stops, and the
    probe is cut short behind it. -/
def Safe (git : Git Files Index Commit) (steps : Steps (Checkout Files Index Commit))
    (c : Checkout Files Index Commit) (target : Option Commit) : Prop :=
  match steps.fetchRaises, steps.mergeRaises with
  | some _, _ => True
  | none, some (left, _) => left = c
  | none, none =>
    match git.mergingOf c target with
    | .stopped files index =>
      if steps.diffRaises.isSome then files = c.files ∧ index = c.index
      else ∃ text, steps.abort = .raises c text
    | .upToDate => Undone git steps c c
    | .started files index clean =>
      Undone git steps c { c with files := files, index := index, mergeHead := target } ∧
        (clean = false → steps.diffRaises = none ∧
          (NamesStand git index ∨ ∃ left text, steps.abort = .raises left text))

theorem namesStand_iff {index : Index} : NamesStand git index ↔
    ∀ name ∈ extractConflictFiles (git.diffUnmerged index), name ∈ git.unmerged index := by
  simp only [extractConflictFiles, List.mem_filter, mem_splitOn_iff, decide_eq_true_iff]
  constructor
  · rintro h name ⟨⟨hline, before, after, heq, hbefore, hafter⟩, hname⟩
    exact h before name after heq hname hline hbefore hafter
  · intro h before name after heq hname hline hbefore hafter
    exact h name ⟨⟨hline, before, after, heq, hbefore, hafter⟩, hname⟩

theorem mergingOf_idle {merging : Merging Files Index} (h : git.mergingOf c target = merging)
    (hgoes : ∀ files index, merging ≠ .stopped files index) :
    ∃ commit, target = some commit ∧ c.mergeHead = none ∧ git.merging c commit = merging := by
  cases target with
  | none => exact absurd h.symm (hgoes _ _)
  | some commit =>
    by_cases hbusy : c.mergeHead.isSome ∨ c.sequencer = some .cherryPick
    · exact absurd ((if_pos hbusy).symm.trans h).symm (hgoes _ _)
    · refine ⟨commit, rfl, ?_, (if_neg hbusy).symm.trans h⟩
      simpa using fun h => hbusy (.inl h)

theorem leftBy_upToDate (h : c.mergeHead = none) :
    leftBy git steps c = c ↔ Undone git steps c c := by
  unfold leftBy Undone
  cases steps.abort with
  | runs => simp [Git.abort, h]
  | fails left | raises left text => rfl

theorem leftBy_started {files : Files} {index : Index} {commit : Commit}
    (h : c.mergeHead = none) (htarget : target = some commit) :
    leftBy git steps { c with files := files, index := index, mergeHead := target } = c ↔
      Undone git steps c { c with files := files, index := index, mergeHead := target } := by
  obtain ⟨_, _, _, _, _⟩ := c
  obtain rfl := h
  subst htarget
  unfold leftBy Undone
  cases steps.abort with
  | runs => simp [Git.abort, Prod.ext_iff]
  | fails left | raises left text => rfl

theorem truthful_couldNotCheck (text : String) : Truthful git c target (couldNotCheck text) :=
  fun h => nomatch h

/-- The aborting decides the answer only where it raises. -/
theorem truthful_answerBehind {answer : Preview} :
    Truthful git c target (answerBehind steps answer) ↔
      Truthful git c target answer ∨ ∃ left text, steps.abort = .raises left text := by
  unfold answerBehind
  cases habort : steps.abort with
  | runs | fails left => simp
  | raises left text => simp [truthful_couldNotCheck]

theorem truthful_cleanMerge :
    Truthful git c target (cleanMerge targetBranch) ↔ ConflictFree git c target := by
  simp [Truthful, cleanMerge]

theorem truthful_conflictsIn {diffOf : Path → Option (List Char)} {files : List Path} :
    Truthful git c target (conflictsIn diffOf mergeBase targetBranch files) ↔
      ConflictsAt git c target files := by
  simp [Truthful, conflictsIn]

theorem checked_or_unknown (git : Git Files Index Commit)
    (steps : Steps (Checkout Files Index Commit)) (mergeBase : String) (targetBranch : List Char)
    (c : Checkout Files Index Commit) :
    let answer := (getConflictPreview git steps mergeBase targetBranch c).1
    answer.checked = true ∨ answer.hasConflicts = true ∧ answer.conflictingFiles = [] := by
  have hbehind : ∀ answer : Preview, answer.checked = true →
      (answerBehind steps answer).checked = true ∨ (answerBehind steps answer).hasConflicts = true ∧
          (answerBehind steps answer).conflictingFiles = [] := by
    intro answer hchecked
    unfold answerBehind
    split
    · exact .inr ⟨rfl, rfl⟩
    · exact .inl hchecked
    · exact .inl hchecked
  unfold getConflictPreview
  split
  · exact .inr ⟨rfl, rfl⟩
  · exact .inr ⟨rfl, rfl⟩
  · split
    · exact hbehind _ rfl
    · split
      · exact .inr ⟨rfl, rfl⟩
      · exact hbehind _ rfl

theorem truthful_details
    (h : Truthful git c target (getConflictPreview git steps mergeBase targetBranch c).1) :
    TruthfulDetails git c target (getConflictDetails git steps mergeBase targetBranch c).1 := by
  have hsound := checked_or_unknown git steps mergeBase targetBranch c
  rw [getConflictDetails]
  generalize getConflictPreview git steps mergeBase targetBranch c = result at h hsound
  dsimp only
  rcases hsound with hchecked | ⟨hconflicts, hnone⟩
  · have h := h hchecked
    split
    · rename_i hconflicts
      rw [if_pos hconflicts] at h
      exact .inr h
    · rename_i hclean
      rw [if_neg hclean] at h
      exact h
  · rw [if_pos hconflicts]
    exact .inl hnone

/-! ## Each way the merge can go -/

section

variable (hfetch : steps.fetchRaises = none) (hmerge : steps.mergeRaises = none)
include hfetch hmerge

theorem preview_clean (h : git.merge c (git.commitOf (comparisonRef targetBranch)) =
      (true, merged)) :
    getConflictPreview git steps mergeBase targetBranch c =
      (answerBehind steps (cleanMerge targetBranch), leftBy git steps merged) := by
  rw [getConflictPreview, hfetch, hmerge]
  dsimp only
  rw [h]

theorem preview_unlisted {text : String} (hdiff : steps.diffRaises = some text)
    (h : git.merge c (git.commitOf (comparisonRef targetBranch)) = (false, merged)) :
    getConflictPreview git steps mergeBase targetBranch c = (couldNotCheck text, merged) := by
  rw [getConflictPreview, hfetch, hmerge]
  dsimp only
  rw [h, hdiff]

theorem preview_conflicts (hdiff : steps.diffRaises = none)
    (h : git.merge c (git.commitOf (comparisonRef targetBranch)) = (false, merged)) :
    getConflictPreview git steps mergeBase targetBranch c =
      (answerBehind steps (conflictsIn steps.diffOf mergeBase targetBranch
        (extractConflictFiles (git.diffUnmerged merged.index))), leftBy git steps merged) := by
  rw [getConflictPreview, hfetch, hmerge]
  dsimp only
  rw [h, hdiff]

end

/-- Where the aborting raises it leaves what it leaves, whatever was merged. -/
theorem leftBy_of_raises {left : Checkout Files Index Commit} {text : String}
    (h : steps.abort = .raises left text) : leftBy git steps merged = left := by
  rw [leftBy, h]

theorem not_conflictsAt_stopped {files : Files} {index : Index} {paths : List Path}
    (h : git.mergingOf c target = .stopped files index) : ¬ ConflictsAt git c target paths := by
  rintro ⟨commit, files', index', clean, -, hstarted, -⟩
  rw [h] at hstarted
  cases hstarted

section

variable {files : Files} {index : Index} {clean : Bool}
variable (h : git.mergingOf c target = .started files index clean)
include h

/-- What a started merge leaves unmerged is where the commits conflict. -/
theorem conflictsAt_iff_of_started {paths : List Path} : ConflictsAt git c target paths ↔
    clean = false ∧ ∀ path ∈ paths, path ∈ git.unmerged index := by
  obtain ⟨commit, rfl, -, hmerging⟩ := mergingOf_idle h nofun
  obtain ⟨rfl, hunmerged⟩ := git.started_spec hmerging
  rw [hunmerged]
  constructor
  · rintro ⟨commit', files', index', clean', heq, -, hne, hpaths⟩
    obtain rfl := Option.some.inj heq
    exact ⟨hne, hpaths⟩
  · rintro ⟨hne, hpaths⟩
    exact ⟨commit, files, index, _, rfl, h, hne, hpaths⟩

theorem conflictFree_of_started (hclean : clean = true) : ConflictFree git c target := by
  obtain ⟨commit, rfl, -, hmerging⟩ := mergingOf_idle h nofun
  exact ⟨commit, rfl, (git.started_spec hmerging).1.symm.trans hclean⟩

end

theorem conflictFree_of_upToDate (h : git.mergingOf c target = .upToDate) :
    ConflictFree git c target := by
  obtain ⟨commit, rfl, -, hmerging⟩ := mergingOf_idle h nofun
  exact ⟨commit, rfl, git.clean_upToDate hmerging⟩

/-- Every merge starts and is clean; working files are told apart by a number. -/
def cleanGit : Git Nat (List Path) Nat where
  commitOf _ := some 1
  merging _ _ := .started 2 [] true
  unmerged := id
  resetMerge _ := (0, [])
  printed := id
  clean _ _ := true
  conflicting _ _ := []
  started_spec h := ⟨(Merging.started.inj h).2.2.symm, (Merging.started.inj h).2.1.symm⟩
  clean_upToDate h := nomatch h

def ownMerge : Checkout Nat (List Path) Nat :=
  { files := 3, index := ["notes.md".toList], head := 0, mergeHead := some 5 }

end Loregarden.ConflictProbe
