import Mathlib.Data.List.Nodup
import Mathlib.Data.List.Count

/-! # Topological order by counting prerequisites

    Kahn's loop: a node leaves the stack once as many of its edges have been
    discharged as it has prerequisites.

    * `loop`, `arrive`: the loop, over any stack;
    * `Linked`: each edge is listed at both its ends, as often;
    * `order_topological`: the nodes come out once, each after what it waits for, and a
      node that never comes out waits for another that never does. -/

namespace Loregarden.Kahn

open List

variable {N : Type*} [DecidableEq N] {ids : List N} {deps dependents : N → List N}

/-- The prerequisites still counted, the stack, and what has come out. -/
structure State (N : Type*) where
  indegree : N → Int
  queue : List N
  out : List N := []

/-- One edge into `child` is discharged. -/
def arrive (s : State N) (child : N) : State N :=
  { s with
    indegree := Function.update s.indegree child (s.indegree child - 1)
    queue := if s.indegree child - 1 = 0 then child :: s.queue else s.queue }

/-- Pop a node, and discharge its edges, until the stack is empty. -/
def loop (dependents : N → List N) : Nat → State N → State N
  | 0, s => s
  | fuel + 1, s =>
    match s.queue with
    | [] => s
    | n :: queue =>
      loop dependents fuel
        ((dependents n).foldl arrive { s with queue := queue, out := s.out ++ [n] })

/-- Every edge joins nodes of the list, and stands at both its ends equally often. -/
structure Linked (ids : List N) (deps dependents : N → List N) : Prop where
  nodup : ids.Nodup
  prerequisite : ∀ n ∈ ids, ∀ d ∈ deps n, d ∈ ids
  waiter : ∀ n ∈ ids, ∀ c ∈ dependents n, c ∈ ids
  agree : ∀ n ∈ ids, ∀ c ∈ ids, (dependents n).count c = (deps c).count n

structure Topological (ids : List N) (deps : N → List N) (out : List N) : Prop where
  nodup : out.Nodup
  subset : ∀ n ∈ out, n ∈ ids
  before : ∀ l₁ n l₂, out = l₁ ++ n :: l₂ → ∀ d ∈ deps n, d ∈ l₁
  stuck : ∀ n ∈ ids, n ∉ out → ∃ d ∈ deps n, d ∉ out

/-- The prerequisites of a node that have not come out. -/
def owed (deps : N → List N) (out : List N) (n : N) : List N := (deps n).filter (· ∉ out)

structure Counting (ids : List N) (deps : N → List N) (s : State N) : Prop where
  nodup : (s.queue ++ s.out).Nodup
  subset : ∀ n ∈ s.queue ++ s.out, n ∈ ids
  counted : ∀ n ∈ ids, s.indegree n = (owed deps s.out n).length
  ready : ∀ n ∈ ids, n ∈ s.queue ++ s.out ↔ owed deps s.out n = []
  before : ∀ l₁ n l₂, s.out = l₁ ++ n :: l₂ → ∀ d ∈ deps n, d ∈ l₁

theorem foldl_arrive_out {l : List N} {s : State N} : (l.foldl arrive s).out = s.out := by
  induction l generalizing s with
  | nil => rfl
  | cons a l ih => exact ih

theorem foldl_arrive {l : List N} {s : State N} (h : ∀ c ∈ l, (l.count c : Int) ≤ s.indegree c) :
    (∀ c, (l.foldl arrive s).indegree c = s.indegree c - l.count c) ∧
      ∃ pushed, (l.foldl arrive s).queue = pushed ++ s.queue ∧ pushed.Nodup ∧
        ∀ c, c ∈ pushed ↔ c ∈ l ∧ s.indegree c = l.count c := by
  induction l generalizing s with
  | nil => exact ⟨fun c => by simp, [], by simp⟩
  | cons a l ih =>
    have hat : (arrive s a).indegree a = s.indegree a - 1 := Function.update_self _ _ _
    have hoff : ∀ c, c ≠ a → (arrive s a).indegree c = s.indegree c := fun c hc =>
      Function.update_of_ne hc _ _
    have hroom : ∀ c ∈ l, (l.count c : Int) ≤ (arrive s a).indegree c := by
      intro c hc
      have hle := h c (mem_cons_of_mem a hc)
      by_cases hca : c = a
      · subst hca
        rw [count_cons_self] at hle
        omega
      · rw [count_cons_of_ne (Ne.symm hca)] at hle
        rwa [hoff c hca]
    obtain ⟨hcount, pushed, hqueue, hnodup, hpushed⟩ := ih hroom
    refine ⟨fun c => ?_, ?_⟩
    · rw [foldl_cons, hcount]
      by_cases hca : c = a
      · subst hca
        rw [hat, count_cons_self]
        omega
      · rw [hoff c hca, count_cons_of_ne (Ne.symm hca)]
    · by_cases hzero : s.indegree a - 1 = 0
      · -- the last edge into `a`
        have hal : a ∉ l := by
          intro hal
          have hle := h a mem_cons_self
          have hpos := count_pos_iff.mpr hal
          rw [count_cons_self] at hle
          omega
        have hfirst : (arrive s a).queue = a :: s.queue := if_pos hzero
        refine ⟨pushed ++ [a], ?_, ?_, fun c => ?_⟩
        · rw [foldl_cons, hqueue, hfirst, append_assoc, singleton_append]
        · refine nodup_append'.mpr ⟨hnodup, nodup_singleton a, fun c hc hc' => ?_⟩
          rw [mem_singleton.mp hc'] at hc
          exact hal ((hpushed a).mp hc).1
        · rw [mem_append, mem_singleton, hpushed, mem_cons]
          by_cases hca : c = a
          · subst hca
            rw [count_cons_self, count_eq_zero.mpr hal]
            constructor
            · intro _
              exact ⟨.inl rfl, by omega⟩
            · intro _
              exact .inr rfl
          · rw [hoff c hca, count_cons_of_ne (Ne.symm hca), or_iff_left hca, or_iff_right hca]
      · have hfirst : (arrive s a).queue = s.queue := if_neg hzero
        refine ⟨pushed, hqueue.trans (by rw [hfirst]), hnodup, fun c => ?_⟩
        rw [hpushed, mem_cons]
        by_cases hca : c = a
        · subst hca
          rw [hat, count_cons_self]
          constructor
          · rintro ⟨-, heq⟩
            exact ⟨.inl rfl, by omega⟩
          · rintro ⟨-, heq⟩
            refine ⟨count_pos_iff.mp ?_, by omega⟩
            omega
        · rw [hoff c hca, count_cons_of_ne (Ne.symm hca), or_iff_right hca]

theorem owed_append (out : List N) (n c : N) :
    owed deps (out ++ [n]) c = (owed deps out c).filter (· ≠ n) := by
  rw [owed, owed, filter_filter]
  simp [not_or, and_comm]

theorem length_owed_append {out : List N} {n c : N} (hn : n ∉ out) :
    (owed deps (out ++ [n]) c).length = (owed deps out c).length - (deps c).count n := by
  have hcount : (owed deps out c).count n = (deps c).count n := count_filter (decide_eq_true hn)
  have hsplit := (owed deps out c).length_eq_countP_add_countP fun d => d = n
  rw [owed_append, ← hcount, List.count, ← countP_eq_length_filter]
  have heq : (owed deps out c).countP (fun d => decide (d = n)) =
      (owed deps out c).countP (· == n) := countP_congr fun d _ => by simp
  have hne : (owed deps out c).countP (fun d => decide (d ≠ n)) =
      (owed deps out c).countP (fun d => decide ¬ decide (d = n) = true) :=
    countP_congr fun d _ => by simp
  omega

section

variable (h : Linked ids deps dependents)
include h

theorem Counting.pop {s : State N} {n : N} {queue : List N}
    (hs : Counting ids deps s) (hqueue : s.queue = n :: queue) :
    Counting ids deps
      ((dependents n).foldl arrive { s with queue := queue, out := s.out ++ [n] }) := by
  have hmem : n ∈ s.queue ++ s.out := by rw [hqueue]; exact mem_cons_self
  have hn := hs.subset n hmem
  have hnodup := hs.nodup
  rw [hqueue, cons_append, nodup_cons, mem_append, not_or] at hnodup
  obtain ⟨⟨hnq, hnout⟩, hrest⟩ := hnodup
  -- how far each count has to go
  have howed : ∀ c ∈ ids, ((dependents n).count c : Int) + (owed deps (s.out ++ [n]) c).length =
      s.indegree c := by
    intro c hc
    have hle : (deps c).count n ≤ (owed deps s.out c).length := by
      have hcount : (owed deps s.out c).count n = (deps c).count n :=
        count_filter (decide_eq_true hnout)
      exact hcount ▸ count_le_length
    rw [hs.counted c hc, length_owed_append hnout, h.agree n hn c hc]
    omega
  have hout : ((dependents n).foldl arrive
      { s with queue := queue, out := s.out ++ [n] }).out = s.out ++ [n] := foldl_arrive_out
  obtain ⟨hindegree, pushed, hpush, hpushnodup, hpushed⟩ :=
    foldl_arrive (s := { s with queue := queue, out := s.out ++ [n] }) (l := dependents n)
      fun c hc => by
        have hsum := howed c (h.waiter n hn c hc)
        show ((dependents n).count c : Int) ≤ s.indegree c
        omega
  have hzero : ∀ c ∈ ids, s.indegree c = (dependents n).count c ↔
      owed deps (s.out ++ [n]) c = [] := by
    intro c hc
    have hsum := howed c hc
    rw [← length_eq_zero_iff]
    omega
  -- a node is pushed when its last prerequisite comes out
  have hready : ∀ c ∈ ids, c ∈ pushed ↔
      owed deps (s.out ++ [n]) c = [] ∧ owed deps s.out c ≠ [] := by
    intro c hc
    rw [hpushed c]
    show c ∈ dependents n ∧ s.indegree c = _ ↔ _
    rw [hzero c hc]
    constructor
    · rintro ⟨hcn, hnil⟩
      refine ⟨hnil, fun hold => ?_⟩
      have hpos := count_pos_iff.mpr hcn
      have hsum := howed c hc
      rw [hnil, hs.counted c hc, hold] at hsum
      omega
    · rintro ⟨hnil, hold⟩
      refine ⟨count_pos_iff.mp ?_, hnil⟩
      have hsum := howed c hc
      have hlen := length_pos_iff.mpr hold
      rw [hnil, hs.counted c hc] at hsum
      simp only [length_nil] at hsum
      omega
  have hwas : ∀ c ∈ ids, c = n ∨ c ∈ queue ∨ c ∈ s.out ↔ owed deps s.out c = [] := by
    intro c hc
    rw [← hs.ready c hc, hqueue, cons_append, mem_cons, mem_append]
  have hmembers : ∀ c, c ∈ pushed → c ∈ ids := fun c hc => h.waiter n hn c ((hpushed c).mp hc).1
  constructor
  · rw [hpush, hout]
    refine nodup_append'.mpr ⟨?_, ?_, ?_⟩
    · refine nodup_append'.mpr ⟨hpushnodup, (nodup_append'.mp hrest).1, ?_⟩
      intro c hc hcq
      exact ((hready c (hmembers c hc)).mp hc).2 ((hwas c (hmembers c hc)).mp (.inr (.inl hcq)))
    · refine nodup_append'.mpr
        ⟨(nodup_append'.mp hrest).2.1, nodup_singleton n, fun c hc hc' => ?_⟩
      exact hnout (mem_singleton.mp hc' ▸ hc)
    · intro c hc hcout
      have hlast : c ∈ s.out ∨ c = n := (mem_append.mp hcout).imp_right mem_singleton.mp
      rcases mem_append.mp hc with hcp | hcq
      · refine ((hready c (hmembers c hcp)).mp hcp).2 ((hwas c (hmembers c hcp)).mp ?_)
        exact hlast.elim (fun h => .inr (.inr h)) .inl
      · rcases hlast with hcout | rfl
        · exact (nodup_append'.mp hrest).2.2 hcq hcout
        · exact hnq hcq
  · intro c hc
    rw [hpush, hout] at hc
    rcases mem_append.mp hc with hc | hc
    · rcases mem_append.mp hc with hcp | hcq
      · exact hmembers c hcp
      · exact hs.subset c (hqueue ▸ mem_append_left _ (mem_cons_of_mem n hcq))
    · rcases mem_append.mp hc with hcout | hcn
      · exact hs.subset c (mem_append_right _ hcout)
      · exact mem_singleton.mp hcn ▸ hn
  · intro c hc
    have hsum := howed c hc
    rw [hindegree, hout]
    show s.indegree c - _ = ((owed deps (s.out ++ [n]) c).length : Int)
    omega
  · intro c hc
    rw [hpush, hout, mem_append, mem_append, mem_append, mem_singleton, hready c hc]
    show ((_ ∨ c ∈ queue) ∨ c ∈ s.out ∨ c = n) ↔ _
    constructor
    · intro hcases
      by_cases hold : owed deps s.out c = []
      · rw [owed_append, hold]
        rfl
      · have hnot := fun hin => hold ((hwas c hc).mp hin)
        rcases hcases with (⟨hnil, -⟩ | hcq) | hcout | hcn
        · exact hnil
        · exact absurd (.inr (.inl hcq)) hnot
        · exact absurd (.inr (.inr hcout)) hnot
        · exact absurd (.inl hcn) hnot
    · intro hnil
      by_cases hold : owed deps s.out c = []
      · rcases (hwas c hc).mpr hold with hcn | hcq | hcout
        · exact .inr (.inr hcn)
        · exact .inl (.inr hcq)
        · exact .inr (.inl hcout)
      · exact .inl (.inl ⟨hnil, hold⟩)
  · intro l₁ m l₂ hsplit d hd
    rw [hout] at hsplit
    rcases eq_nil_or_concat l₂ with rfl | ⟨l, z, rfl⟩
    · -- the node that has just come out
      obtain ⟨rfl, hlast⟩ := append_inj' hsplit rfl
      obtain rfl : n = m := singleton_inj.mp hlast
      have hnil := (hs.ready n hn).mp hmem
      by_contra hnot
      have hin : d ∈ owed deps s.out n := mem_filter.mpr ⟨hd, decide_eq_true hnot⟩
      rw [hnil] at hin
      exact not_mem_nil hin
    · rw [concat_eq_append, ← cons_append, ← append_assoc] at hsplit
      exact hs.before l₁ m l (append_inj' hsplit rfl).1 d hd

theorem loop_counting {fuel : Nat} {s : State N}
    (hs : Counting ids deps s) (hfuel : ids.length ≤ fuel + s.out.length) :
    Counting ids deps (loop dependents fuel s) ∧ (loop dependents fuel s).queue = [] := by
  induction fuel generalizing s with
  | zero =>
    refine ⟨hs, length_eq_zero_iff.mp ?_⟩
    -- everything has come out
    have hle := (subperm_of_subset hs.nodup hs.subset).length_le
    rw [length_append] at hle
    show s.queue.length = 0
    omega
  | succ fuel ih =>
    rw [loop]
    split
    · rename_i hnil
      exact ⟨hs, hnil⟩
    · rename_i n queue hqueue
      refine ih (hs.pop h hqueue) ?_
      rw [foldl_arrive_out]
      show _ ≤ fuel + (s.out ++ [n]).length
      rw [length_append, length_singleton]
      omega

def order (deps dependents : N → List N) (ids : List N) (queue : List N) : List N :=
  (loop dependents ids.length
    { indegree := fun n => ((deps n).length : Int), queue := queue }).out

/-- **The loop sorts the nodes**: each comes out once, after what it waits for; one that
    never comes out waits for another that never does. -/
theorem order_topological {queue : List N}
    (hnodup : queue.Nodup) (hqueue : ∀ n, n ∈ queue ↔ n ∈ ids ∧ deps n = []) :
    Topological ids deps (order deps dependents ids queue) := by
  have howed : ∀ n, owed deps [] n = deps n := fun n => by
    rw [owed, filter_eq_self]
    exact fun d _ => decide_eq_true not_mem_nil
  have hstart : Counting ids deps
      { indegree := fun n => ((deps n).length : Int), queue := queue } := by
    constructor
    · rw [append_nil]
      exact hnodup
    · intro n hn
      rw [append_nil] at hn
      exact ((hqueue n).mp hn).1
    · exact fun n _ => by rw [howed]
    · intro n hn
      rw [append_nil, howed, hqueue]
      exact and_iff_right hn
    · intro l₁ n l₂ hsplit
      cases l₁ <;> cases hsplit
  obtain ⟨hend, hempty⟩ := loop_counting h hstart (Nat.le_add_right _ _)
  have hnodup := hend.nodup
  have hsubset := hend.subset
  have hready := hend.ready
  rw [hempty, nil_append] at hnodup hsubset hready
  refine ⟨hnodup, hsubset, hend.before, fun n hn hnot => ?_⟩
  have howes := mt (hready n hn).mpr hnot
  obtain ⟨d, hd⟩ := exists_mem_of_ne_nil _ howes
  obtain ⟨hdeps, hdout⟩ := mem_filter.mp hd
  exact ⟨d, hdeps, of_decide_eq_true hdout⟩

end

end Loregarden.Kahn
