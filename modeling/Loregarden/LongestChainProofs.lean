import Mathlib.Algebra.Order.BigOperators.Group.List
import Mathlib.Data.List.Induction
import Mathlib.Order.Bounds.Defs
import Loregarden.SettlingProofs

/-! # Longest chains

A listing values each node by its own weight and the best value it leads to, and lists first what a
node leads to. The value is then the weight of the heaviest chain from the node (`longest`). -/

namespace Loregarden.Chains

open List Settling

variable {N α : Type*} [AddCommMonoid α] [LinearOrder α] [IsOrderedAddMonoid α]
variable {own best : N → α} {next : N → List N} {order : List N} {n : N}

def heaviest (own : N → α) (next : N → List N) (n : N) (best : N → α) : α :=
  own n + ((next n).map best).max?.getD 0

/-- The weights of the chains from a node. -/
def weights (own : N → α) (next : N → List N) (n : N) : Set α :=
  {w | ∃ chain, (n :: chain).IsChain (fun a b => b ∈ next a) ∧ w = ((n :: chain).map own).sum}

/-- A node's value, from the values of those it leads to. -/
theorem isGreatest_heaviest (hpos : ∀ n, 0 ≤ own n)
    (h : ∀ m ∈ next n, IsGreatest (weights own next m) (best m)) :
    IsGreatest (weights own next n) (heaviest own next n best) := by
  have hnonneg : ∀ l : List N, 0 ≤ (l.map own).sum := fun l =>
    sum_nonneg (forall_mem_map.mpr fun m _ => hpos m)
  rw [heaviest]
  cases hmax : ((next n).map best).max? with
  | none =>
    have hnone : next n = [] := by simpa using hmax
    refine ⟨⟨[], .singleton n, by simp⟩, ?_⟩
    rintro w ⟨_ | ⟨m, chain⟩, hchain, rfl⟩
    · simp
    · have hm := (isChain_cons_cons.mp hchain).1
      rw [hnone] at hm
      cases hm
  | some top =>
    obtain ⟨htop, hle⟩ := max?_eq_some_iff.mp hmax
    obtain ⟨m, hm, rfl⟩ := mem_map.mp htop
    obtain ⟨chain, hchain, hweight⟩ := (h m hm).1
    refine ⟨⟨m :: chain, hchain.cons_cons hm, ?_⟩, ?_⟩
    · rw [map_cons, sum_cons, ← hweight]
      rfl
    · rintro w ⟨_ | ⟨k, chain'⟩, hchain', rfl⟩
      · rw [map_singleton, sum_singleton]
        exact le_add_of_nonneg_right (hweight ▸ hnonneg _)
      · obtain ⟨hk, hrest⟩ := isChain_cons_cons.mp hchain'
        rw [map_cons, sum_cons]
        exact add_le_add_right (((h k hk).2 ⟨chain', hrest, rfl⟩).trans
          (hle _ (mem_map_of_mem hk))) _

/-- **A listed node's value is the weight of its heaviest chain.** -/
theorem longest [DecidableEq N] (hpos : ∀ n, 0 ≤ own n)
    (hbefore : ∀ l₁ n l₂, order = l₁ ++ n :: l₂ → next n ⊆ l₁) (start : N → α) (hn : n ∈ order) :
    IsGreatest (weights own next n) (order.foldl (visit (heaviest own next)) start n) := by
  -- over the nodes listed so far
  have hwalk : ∀ before after, order = before ++ after → ∀ n ∈ before,
      IsGreatest (weights own next n) (before.foldl (visit (heaviest own next)) start n) := by
    intro before
    induction before using List.reverseRecOn with
    | nil => exact fun _ _ n hn => nomatch hn
    | append_singleton before last ih =>
      intro after hsplit n hn
      rw [append_assoc, singleton_append] at hsplit
      rw [foldl_append, foldl_cons, foldl_nil]
      by_cases heq : n = last
      · rw [heq, visit_self]
        exact isGreatest_heaviest hpos fun m hm => ih _ hsplit m (hbefore _ _ _ hsplit hm)
      · rw [visit_of_ne heq]
        exact ih _ hsplit n ((mem_append.mp hn).resolve_right fun h => heq (mem_singleton.mp h))
  exact hwalk order [] (append_nil order).symm n hn

end Loregarden.Chains
