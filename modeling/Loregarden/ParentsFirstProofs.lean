import Mathlib.Data.List.Induction
import Mathlib.Logic.Relation

/-! # Marks passed down a parents-first listing

A listing gives each node with the nodes it has an arrow to, those it lists among them first. One
walk marks a node that is a seed or has an arrow to a marked one; so a node that reaches a seed
along listed nodes ends up marked (`marks_of_reaches`). -/

namespace Loregarden.ParentsFirst

open List

variable {α : Type*} [DecidableEq α]

def marks (seed : α → Bool) (rows : List (α × List α)) : α → Bool :=
  rows.foldl (fun marked row =>
    Function.update marked row.1 (seed row.1 || row.2.any marked)) fun _ => false

def nodes (rows : List (α × List α)) : List α := rows.map Prod.fst

/-- Of a node's arrows, those to listed nodes lead to nodes listed before it. -/
def Ordered (rows : List (α × List α)) : Prop :=
  ∀ before row after, rows = before ++ row :: after → ∀ p ∈ row.2, p ∈ nodes rows → p ∈ nodes before

def Arrow (rows : List (α × List α)) (c p : α) : Prop :=
  (∃ row ∈ rows, row.1 = c ∧ p ∈ row.2) ∧ p ∈ nodes rows

theorem marks_concat (seed : α → Bool) (rows : List (α × List α)) (row : α × List α) :
    marks seed (rows ++ [row]) = Function.update (marks seed rows) row.1
      (seed row.1 || row.2.any (marks seed rows)) := by
  rw [marks, foldl_append]
  rfl

omit [DecidableEq α] in
theorem reaches_cases {rows : List (α × List α)} {seed : α → Bool} {c x : α}
    (hreach : Relation.ReflTransGen (Arrow rows) c x) (hseed : seed x = true) :
    seed c = true ∨ ∃ p, Arrow rows c p ∧ Relation.ReflTransGen (Arrow rows) p x := by
  rcases Relation.ReflTransGen.cases_head hreach with rfl | ⟨p, harrow, hrest⟩
  · exact .inl hseed
  · exact .inr ⟨p, harrow, hrest⟩

/-- **A listed node that reaches a seed is marked**, where a node has one row. -/
theorem marks_of_reaches (seed : α → Bool) {rows : List (α × List α)} {c x : α}
    (hordered : Ordered rows)
    (hone : ∀ row ∈ rows, ∀ row' ∈ rows, row.1 = row'.1 → row.2 = row'.2)
    (hc : c ∈ nodes rows) (hreach : Relation.ReflTransGen (Arrow rows) c x)
    (hseed : seed x = true) : marks seed rows c = true := by
  -- over the rows read so far, for every node that reaches the seed
  have hwalk : ∀ before after, rows = before ++ after → ∀ d ∈ nodes before,
      Relation.ReflTransGen (Arrow rows) d x → marks seed before d = true := by
    intro before
    induction before using List.reverseRecOn with
    | nil => exact fun _ _ d hd => nomatch hd
    | append_singleton before row ih =>
      intro after hsplit d hd hdx
      have hsplit' : rows = before ++ row :: after := by
        rw [hsplit, append_assoc]
        rfl
      have hrow : row ∈ rows := hsplit' ▸ mem_append_right _ mem_cons_self
      rw [marks_concat]
      by_cases hid : d = row.1
      · subst hid
        rw [Function.update_self]
        rcases reaches_cases hdx hseed with hseed' | ⟨p, ⟨⟨row', hrow', hsame, hp⟩, hlisted⟩, hpx⟩
        · rw [hseed', Bool.true_or]
        · have hp' : p ∈ row.2 := hone row' hrow' row hrow hsame ▸ hp
          have hbefore := hordered before row after hsplit' p hp' hlisted
          have hany : row.2.any (marks seed before) = true :=
            any_eq_true.mpr ⟨p, hp', ih (row :: after) hsplit' p hbefore hpx⟩
          rw [hany, Bool.or_true]
      · rw [Function.update_of_ne hid]
        have hd' : d ∈ nodes before := by
          rw [nodes, map_append, mem_append] at hd
          rcases hd with hd | hd
          · exact hd
          · exact absurd (mem_singleton.mp hd) hid
        exact ih (row :: after) hsplit' d hd' hdx
  exact hwalk rows [] (append_nil rows).symm c hc hreach

omit [DecidableEq α] in
theorem ordered_of_pairwise {rows : List (α × List α)} (hself : ∀ row ∈ rows, row.1 ∉ row.2)
    (hlater : rows.Pairwise fun row later => later.1 ∉ row.2) : Ordered rows := by
  rintro before row after rfl p hp hlisted
  rw [nodes, map_append, map_cons, mem_append, mem_cons] at hlisted
  rcases hlisted with hbefore | rfl | hafter
  · exact hbefore
  · exact absurd hp (hself row (mem_append_right _ mem_cons_self))
  · obtain ⟨later, hmem, rfl⟩ := mem_map.mp hafter
    have htail := (pairwise_append.mp hlater).2.1
    exact absurd hp (rel_of_pairwise_cons htail hmem)

end Loregarden.ParentsFirst
