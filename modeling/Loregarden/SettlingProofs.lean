import Mathlib.Data.List.Nodup

/-! # Values that are read off other values

    Each node has a value, and `F n σ` is what a visit makes of node `n` from its
    own value and those it reads, `deps n`. A node is settled when a visit would
    leave it as it is.

    * `settled_of_split`: a pass settles a node when no node it reads changes after
      the visit;
    * `foldl_visit_eq_self`: a second pass changes nothing exactly when the first
      settled every node it visited;
    * `Settled.visit`: a visit unsettles only the nodes that read it. -/

namespace Loregarden.Settling

open List Function

variable {N V : Type*} [DecidableEq N] {F : N → (N → V) → V} {deps : N → N → Prop}
  {σ τ : N → V} {n m : N} {order l₁ l₂ : List N}

def visit (F : N → (N → V) → V) (σ : N → V) (n : N) : N → V := Function.update σ n (F n σ)

def Settled (F : N → (N → V) → V) (σ : N → V) (n : N) : Prop := F n σ = σ n

/-- A visit reads the node and what it depends on, and visiting twice is visiting once. -/
structure Reads (F : N → (N → V) → V) (deps : N → N → Prop) : Prop where
  congr : ∀ n σ τ, σ n = τ n → (∀ m, deps n m → σ m = τ m) → F n σ = F n τ
  again : ∀ n σ, F n (visit F σ n) = F n σ

theorem visit_self : visit F σ n n = F n σ := update_self _ _ _

theorem visit_of_ne (h : m ≠ n) : visit F σ n m = σ m := update_of_ne h _ _

theorem visit_eq_self_iff : visit F σ n = σ ↔ Settled F σ n := update_eq_self_iff

theorem Reads.settled_visit (h : Reads F deps) : Settled F (visit F σ n) n :=
  (h.again n σ).trans visit_self.symm

theorem Settled.visit (hs : Settled F σ m) (h : Reads F deps) (hne : m ≠ n)
    (hdeps : ¬ deps m n) : Settled F (visit F σ n) m := by
  have hsame : ∀ k, deps m k → Settling.visit F σ n k = σ k := fun k hk =>
    visit_of_ne fun hkn => hdeps (hkn ▸ hk)
  show F m (Settling.visit F σ n) = Settling.visit F σ n m
  rw [h.congr m (Settling.visit F σ n) σ (visit_of_ne hne) hsame, visit_of_ne hne]
  exact hs

theorem foldl_visit_of_not_mem (h : m ∉ order) : order.foldl (visit F) σ m = σ m := by
  induction order generalizing σ with
  | nil => rfl
  | cons n order ih =>
    rw [mem_cons, not_or] at h
    rw [foldl_cons, ih h.2, visit_of_ne h.1]

theorem foldl_visit_split (hnodup : (l₁ ++ n :: l₂).Nodup) :
    (l₁ ++ n :: l₂).foldl (visit F) σ n = F n (l₁.foldl (visit F) σ) := by
  have hn : n ∉ l₂ := (nodup_cons.mp (nodup_append'.mp hnodup).2.1).1
  rw [foldl_append, foldl_cons, foldl_visit_of_not_mem hn, visit_self]

theorem foldl_visit_before (hnodup : (l₁ ++ n :: l₂).Nodup) (hne : m ≠ n)
    [Decidable (m ∈ l₁)] : l₁.foldl (visit F) σ m =
      if m ∈ l₁ then (l₁ ++ n :: l₂).foldl (visit F) σ m else σ m := by
  split
  · rename_i hm
    have hm₂ : m ∉ l₂ := fun h =>
      (nodup_append'.mp hnodup).2.2 hm (mem_cons_of_mem n h)
    rw [foldl_append, foldl_cons, foldl_visit_of_not_mem hm₂, visit_of_ne hne]
  · rename_i hm
    exact foldl_visit_of_not_mem hm

section

variable (h : Reads F deps) (hself : ¬ deps n n) (hnodup : (l₁ ++ n :: l₂).Nodup)
  (hlater : ∀ m, deps n m → m ∉ l₁ → (l₁ ++ n :: l₂).foldl (visit F) σ m = σ m)
include h hself hnodup hlater

/-- What a pass makes of a node, from what it makes of the others, when no node it reads
    changes after its visit. -/
theorem foldl_visit_final :
    (l₁ ++ n :: l₂).foldl (visit F) σ n =
      F n (Function.update ((l₁ ++ n :: l₂).foldl (visit F) σ) n (σ n)) := by
  classical
  have hn : n ∉ l₁ := fun hn => (nodup_append'.mp hnodup).2.2 hn mem_cons_self
  rw [foldl_visit_split hnodup]
  refine h.congr n _ _ ?_ fun m hm => ?_
  · rw [update_self, foldl_visit_of_not_mem hn]
  · have hne : m ≠ n := fun hmn => hself (hmn ▸ hm)
    rw [update_of_ne hne, foldl_visit_before hnodup hne]
    split
    · rfl
    · rename_i hbefore
      exact (hlater m hm hbefore).symm

/-- **One pass settles a node** when no node it reads changes after its visit. -/
theorem settled_of_split :
    Settled F ((l₁ ++ n :: l₂).foldl (visit F) σ) n := by
  have hfinal := foldl_visit_final h hself hnodup hlater
  set τ := Function.update ((l₁ ++ n :: l₂).foldl (visit F) σ) n (σ n) with hτ
  have hvisit : visit F τ n = (l₁ ++ n :: l₂).foldl (visit F) σ := by
    rw [visit, hτ, update_idem, ← hτ, ← hfinal, update_eq_self]
  have hsettled := h.settled_visit (σ := τ) (n := n)
  rwa [hvisit] at hsettled

end

/-- **A second pass changes nothing** exactly when every node it visits is settled. -/
theorem foldl_visit_eq_self (hnodup : order.Nodup) :
    order.foldl (visit F) σ = σ ↔ ∀ n ∈ order, Settled F σ n := by
  induction order with
  | nil => exact ⟨fun _ n hn => absurd hn not_mem_nil, fun _ => rfl⟩
  | cons n order ih =>
    obtain ⟨hn, hrest⟩ := nodup_cons.mp hnodup
    rw [foldl_cons, forall_mem_cons]
    constructor
    · intro hsame
      have hfirst : Settled F σ n := by
        have hval := congrFun hsame n
        rw [foldl_visit_of_not_mem hn, visit_self] at hval
        exact hval
      rw [visit_eq_self_iff.mpr hfirst] at hsame
      exact ⟨hfirst, (ih hrest).mp hsame⟩
    · rintro ⟨hfirst, hothers⟩
      rw [visit_eq_self_iff.mpr hfirst]
      exact (ih hrest).mpr hothers

end Loregarden.Settling
