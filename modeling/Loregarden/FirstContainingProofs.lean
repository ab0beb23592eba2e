import Mathlib.Tactic.ByContra
import Loregarden.WorkLandedModel

/-! # When the first commit stays the first

The answer is the oldest commit listed, and the commit itself only while the ref is at it: `Keeps`
is what a move of the ref has to do for the answer to stay (`landing_stays`). Where no two commits
are equally old it is all that does (`keeps_iff`). -/

namespace Loregarden.FirstContaining

open Relation List

variable {Commit : Type} {git : History Commit} {commit first last r r' x : Commit}

/-- The oldest of the commits on the ref that contain the commit. -/
def Oldest (git : History Commit) (commit first ref : Commit) : Prop :=
  first ∈ git.ancestryPath commit ref ∧
    ∀ x ∈ git.ancestryPath commit ref, x ≠ first → git.date first < git.date x

/-- The ref stays where it is; or it has left the commit already, and nothing it brings contains
    the commit and is as old as the oldest that does. -/
def Keeps (git : History Commit) (commit r r' : Commit) : Prop :=
  r' = r ∨ ∃ first, Oldest git commit first r ∧
    ∀ x ∈ git.ancestryPath commit r', ¬ Contains git.parents r x → git.date first < git.date x

theorem mem_of_contains (h : Contains git.parents r' r) (hx : x ∈ git.ancestryPath commit r) :
    x ∈ git.ancestryPath commit r' := by
  obtain ⟨hne, hcommit, hon⟩ := git.mem_ancestryPath.mp hx
  exact git.mem_ancestryPath.mpr ⟨hne, hcommit, h.trans hon⟩

theorem mem_of_new (hx : x ∈ git.ancestryPath commit r') (hr : Contains git.parents r x) :
    x ∈ git.ancestryPath commit r := by
  obtain ⟨hne, hcommit, -⟩ := git.mem_ancestryPath.mp hx
  exact git.mem_ancestryPath.mpr ⟨hne, hcommit, hr⟩

/-- Nothing listed is older than what is listed last. -/
theorem last_le (h : (git.ancestryPath commit r).getLast? = some last)
    (hx : x ∈ git.ancestryPath commit r) : git.date last ≤ git.date x := by
  obtain ⟨before, hsplit⟩ := List.getLast?_eq_some_iff.mp h
  have hsorted := git.newest_first commit r
  rw [hsplit] at hsorted hx
  rcases mem_append.mp hx with hx | hx
  · exact (pairwise_append.mp hsorted).2.2 x hx last mem_cons_self
  · obtain rfl := mem_singleton.mp hx
    exact Int.le_refl _

theorem firstContaining_of_oldest (h : Oldest git commit first r) :
    firstContaining git commit r = some first := by
  rw [firstContaining]
  cases hlast : (git.ancestryPath commit r).getLast? with
  | none => exact absurd (List.getLast?_eq_none_iff.mp hlast) (ne_nil_of_mem h.1)
  | some last =>
    by_contra hother
    have hnewer := h.2 last (mem_of_getLast? hlast) fun heq => hother (congrArg some heq)
    exact absurd hnewer (Int.not_lt.mpr (last_le hlast h.1))

theorem firstContaining_sound (h : Contains git.parents r commit) :
    ∃ first, firstContaining git commit r = some first ∧ Contains git.parents r first ∧
      Contains git.parents first commit := by
  rw [firstContaining]
  cases hlast : (git.ancestryPath commit r).getLast? with
  | none => exact ⟨commit, if_pos (git.isAncestor_iff.mpr h), h, .refl⟩
  | some last =>
    obtain ⟨-, hcommit, hon⟩ := git.mem_ancestryPath.mp (mem_of_getLast? hlast)
    exact ⟨last, rfl, hon, hcommit⟩

/-- One move of the ref. -/
theorem Keeps.same (h : Keeps git commit r r') (hdescends : Contains git.parents r' r) :
    firstContaining git commit r' = firstContaining git commit r := by
  rcases h with rfl | ⟨first, hold, hnew⟩
  · rfl
  · rw [firstContaining_of_oldest hold]
    refine firstContaining_of_oldest ⟨mem_of_contains hdescends hold.1, fun x hx hother => ?_⟩
    by_cases hr : Contains git.parents r x
    · exact hold.2 x (mem_of_new hx hr) hother
    · exact hnew x hx hr

/-- Where dates differ, only such a move keeps the answer. -/
theorem keeps_iff (hdates : Function.Injective git.date) (hc : Contains git.parents r commit)
    (hdescends : Contains git.parents r' r) :
    Keeps git commit r r' ↔ firstContaining git commit r' = firstContaining git commit r := by
  refine ⟨fun h => h.same hdescends, fun hsame => ?_⟩
  by_contra hnot
  obtain ⟨hmoves, hnot⟩ := not_or.mp hnot
  have hne : git.ancestryPath commit r' ≠ [] := by
    by_cases hr : r' = commit
    · subst hr
      exact ne_nil_of_mem (git.mem_ancestryPath.mpr ⟨fun h => hmoves h.symm, hc, hdescends⟩)
    · exact ne_nil_of_mem (git.mem_ancestryPath.mpr ⟨hr, hdescends.trans hc, .refl⟩)
  obtain ⟨last, hlast⟩ := Option.isSome_iff_exists.mp (List.getLast?_isSome.mpr hne)
  rw [show firstContaining git commit r' = some last by rw [firstContaining, hlast]] at hsame
  have hmem := git.mem_ancestryPath.mp (mem_of_getLast? hlast)
  rw [firstContaining] at hsame
  cases hlast' : (git.ancestryPath commit r).getLast? with
  | none =>
    -- the ref has left the commit
    rw [hlast', if_pos (git.isAncestor_iff.mpr hc)] at hsame
    exact hmem.1 (Option.some.inj hsame)
  | some last' =>
    rw [hlast'] at hsame
    obtain rfl := Option.some.inj hsame
    have hold := mem_of_getLast? hlast'
    refine hnot ⟨last, ⟨hold, fun x hx hother => ?_⟩, fun x hx hr => ?_⟩
    · exact Int.lt_iff_le_and_ne.mpr ⟨last_le hlast' hx, fun heq => hother (hdates heq.symm)⟩
    · refine Int.lt_iff_le_and_ne.mpr ⟨last_le hlast hx, fun heq => hr ?_⟩
      exact hdates heq ▸ (git.mem_ancestryPath.mp hold).2.2

/-- **THE RECORDED LANDING STAYS** over every run of a ref whose moves keep the oldest, and is a
    commit on the ref that contains the commit. -/
theorem landing_stays (git : History Commit) (commit : Commit) (ref : Nat → Commit)
    (hdescends : ∀ i, Contains git.parents (ref (i + 1)) (ref i))
    (hc : Contains git.parents (ref 0) commit)
    (hkeeps : ∀ i, Keeps git commit (ref i) (ref (i + 1))) (i : Nat) :
    firstContaining git commit (ref i) = firstContaining git commit (ref 0) ∧
      ∃ first, firstContaining git commit (ref i) = some first ∧
        Contains git.parents (ref i) first ∧ Contains git.parents first commit := by
  have hon : ∀ i, Contains git.parents (ref i) commit := by
    intro i
    induction i with
    | zero => exact hc
    | succ i ih => exact (hdescends i).trans ih
  refine ⟨?_, firstContaining_sound (hon i)⟩
  induction i with
  | zero => rfl
  | succ i ih => exact ((hkeeps i).same (hdescends i)).trans ih

/-- Commit `n + 1` has the one parent `n`. -/
def lineParents (n : Nat) : List Nat := if n = 0 then [] else [n - 1]

theorem contains_line {n k : Nat} : Contains lineParents n k ↔ k ≤ n := by
  constructor
  · intro h
    induction h with
    | refl => exact Nat.le_refl _
    | tail _ hparent ih =>
      rw [lineParents] at hparent
      split at hparent
      · exact absurd hparent not_mem_nil
      · obtain rfl := mem_singleton.mp hparent
        omega
  · intro h
    induction n with
    | zero =>
      obtain rfl := Nat.le_zero.mp h
      exact .refl
    | succ n ih =>
      rcases Nat.le_succ_iff.mp h with hle | rfl
      · exact .head (mem_singleton.mpr rfl) (ih hle)
      · exact .refl

def line : History Nat where
  parents := lineParents
  date n := n
  ancestryPath commit ref := (List.range' (commit + 1) (ref - commit)).reverse
  isAncestor commit ref := commit ≤ ref
  mem_ancestryPath := by
    intro commit ref x
    rw [mem_reverse, mem_range'_1, contains_line, contains_line]
    omega
  newest_first := by
    intro commit ref
    rw [pairwise_reverse]
    refine List.Pairwise.imp ?_ (pairwise_lt_range' 1)
    intro x y hlt
    exact Int.ofNat_le.mpr (Nat.le_of_lt hlt)
  isAncestor_iff := by
    intro commit ref
    rw [decide_eq_true_iff, contains_line]

/-- The ref is past commit 0 from the start. -/
theorem landing_stays_on_line : firstContaining line 0 6 = firstContaining line 0 1 ∧
      ∃ first, firstContaining line 0 6 = some first ∧ Contains line.parents 6 first ∧
        Contains line.parents first 0 := by
  refine landing_stays line 0 (fun i => i + 1) (fun i => contains_line.mpr (by omega))
    (contains_line.mpr (by omega)) (fun i => .inr ⟨1, ⟨?_, ?_⟩, ?_⟩) 5
  · exact line.mem_ancestryPath.mpr
      ⟨by decide, contains_line.mpr (by omega), contains_line.mpr (by omega)⟩
  · intro x hx hother
    obtain ⟨hne, -, -⟩ := line.mem_ancestryPath.mp hx
    exact Int.ofNat_lt.mpr (by omega)
  · intro x hx hnew
    obtain ⟨hne, -, -⟩ := line.mem_ancestryPath.mp hx
    have hlate : ¬ x ≤ i + 1 := fun hle => hnew (contains_line.mpr hle)
    exact Int.ofNat_lt.mpr (by omega)

/-- A ref that was forwarded to commit 0 moves on, and commit 1 is now the first. -/
theorem landing_drifts : ¬ ∀ (git : History Nat) (commit : Nat) (ref : Nat → Nat),
      (∀ i, Contains git.parents (ref (i + 1)) (ref i)) → Contains git.parents (ref 0) commit →
        ∀ i, firstContaining git commit (ref i) = firstContaining git commit (ref 0) := by
  intro h
  have hsame := h line 0 id (fun i => contains_line.mpr (Nat.le_succ i))
    (contains_line.mpr (Nat.le_refl _)) 1
  exact absurd hsame (by decide)

theorem keeps_iff_on_line :
    Keeps line 0 0 1 ↔ firstContaining line 0 1 = firstContaining line 0 0 :=
  keeps_iff (fun _ _ => Int.ofNat.inj) .refl (contains_line.mpr (Nat.zero_le 1))

end Loregarden.FirstContaining
