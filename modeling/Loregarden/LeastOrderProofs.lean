import Mathlib.Data.Fintype.EquivFin
import Mathlib.Data.List.Lex
import Mathlib.Order.WellFounded

/-! # The least order in which nothing comes before what it waits for

Of the elements that wait for none of those still to be listed, the next is always the one with the
least key. Such a listing exists where nothing waits for itself in the end (`exists_free`), and no
other listing that puts what is waited for first has a smaller sequence of keys (`Greedy.le`). -/

namespace Loregarden.LeastOrder

open List

variable {α κ : Type*} [LinearOrder κ] {key : α → κ} {waits : α → α → Prop} {a : α}
  {l l' : List α}

/-- What an element waits for stands before it, as far as it is listed. -/
def PutFirst (waits : α → α → Prop) (l : List α) : Prop :=
  ∀ before a after, l = before ++ a :: after → ∀ b ∈ l, waits a b → b ∈ before

def Free (waits : α → α → Prop) (l : List α) (a : α) : Prop := ∀ b ∈ l, ¬ waits a b

/-- Nothing of a listing waits for itself, over others of the listing or at once. -/
def Acyclic (waits : α → α → Prop) (l : List α) : Prop :=
  ∀ a ∈ l, ¬ Relation.TransGen (fun a b => a ∈ l ∧ b ∈ l ∧ waits a b) a a

theorem Acyclic.subset (h : Acyclic waits l) (hsub : ∀ a ∈ l', a ∈ l) : Acyclic waits l' := by
  intro a ha hcycle
  refine h a (hsub a ha) (Relation.TransGen.mono ?_ _ _ hcycle)
  rintro x y ⟨hx, hy, hwaits⟩
  exact ⟨hsub x hx, hsub y hy, hwaits⟩

theorem acyclic_of_rank (rank : α → ℕ) (h : ∀ a ∈ l, ∀ b ∈ l, waits a b → rank b < rank a) :
    Acyclic waits l := by
  have hbelow : ∀ {a b}, Relation.TransGen (fun a b => a ∈ l ∧ b ∈ l ∧ waits a b) a b →
      rank b < rank a := by
    intro a b hab
    induction hab with
    | single hstep => exact h _ hstep.1 _ hstep.2.1 hstep.2.2
    | tail _ hstep ih => exact (h _ hstep.1 _ hstep.2.1 hstep.2.2).trans ih
  intro a _ hcycle
  exact Nat.lt_irrefl _ (hbelow hcycle)

/-- **Something waits for nothing**, where nothing waits for itself. -/
theorem exists_free (h : Acyclic waits l) (hne : l ≠ []) : ∃ a ∈ l, Free waits l a := by
  let below : {a // a ∈ l} → {a // a ∈ l} → Prop := fun x y =>
    Relation.TransGen (fun a b => a ∈ l ∧ b ∈ l ∧ waits a b) y.1 x.1
  have hfinite : Finite {a // a ∈ l} := by
    refine Finite.of_surjective (fun i : Fin l.length => ⟨l[i], l.getElem_mem i.2⟩) fun x => ?_
    obtain ⟨i, hi, hx⟩ := getElem_of_mem x.2
    exact ⟨⟨i, hi⟩, Subtype.ext hx⟩
  have hirrefl : Std.Irrefl below := ⟨fun x hx => h x.1 x.2 hx⟩
  have hwf : WellFounded below := Finite.wellFounded_of_trans_of_irrefl below
  obtain ⟨head, hhead⟩ := exists_mem_of_ne_nil l hne
  obtain ⟨least, -, hleast⟩ := hwf.has_min Set.univ ⟨⟨head, hhead⟩, trivial⟩
  refine ⟨least.1, least.2, ?_⟩
  intro b hb hwaits
  exact hleast ⟨b, hb⟩ trivial (.single ⟨least.2, hb, hwaits⟩)

/-- Each element is the least of those that wait for none of what is left. -/
inductive Greedy (key : α → κ) (waits : α → α → Prop) : List α → Prop
  | nil : Greedy key waits []
  | cons {a : α} {l : List α} (hfree : Free waits (a :: l) a)
      (hleast : ∀ b ∈ a :: l, Free waits (a :: l) b → key a ≤ key b)
      (h : Greedy key waits l) : Greedy key waits (a :: l)

theorem Greedy.putFirst (h : Greedy key waits l) : PutFirst waits l := by
  induction h with
  | nil =>
    intro before a after hsplit
    exact absurd hsplit (by simp)
  | @cons a l hfree _ _ ih =>
    intro before c after hsplit b hb hwaits
    cases before with
    | nil =>
      obtain ⟨rfl, -⟩ := List.cons.inj hsplit
      exact absurd hwaits (hfree b hb)
    | cons d before =>
      obtain ⟨rfl, hrest⟩ := List.cons.inj hsplit
      rcases mem_cons.mp hb with rfl | hb
      · exact mem_cons_self
      · exact mem_cons_of_mem _ (ih before c after hrest b hb hwaits)

theorem PutFirst.tail (h : PutFirst waits (a :: l)) (hnodup : (a :: l).Nodup) :
    PutFirst waits l := by
  intro before c after hsplit b hb hwaits
  have hmem := h (a :: before) c after (by rw [hsplit]; rfl) b (mem_cons_of_mem _ hb) hwaits
  rcases mem_cons.mp hmem with rfl | hmem
  · exact absurd hb (nodup_cons.mp hnodup).1
  · exact hmem

/-- **No listing that puts first what is waited for has smaller keys.** -/
theorem Greedy.le (h : Greedy key waits l) (hinj : ∀ a ∈ l, ∀ b ∈ l, key a = key b → a = b)
    (hnodup : l.Nodup) (hperm : l.Perm l') (hfirst : PutFirst waits l') :
    l.map key ≤ l'.map key := by
  induction h generalizing l' with
  | nil =>
    rw [nil_perm.mp hperm]
  | @cons a l hfree hleast _ ih =>
    cases l' with
    | nil => exact absurd hperm.length_eq (by simp)
    | cons b t =>
      have hb : b ∈ a :: l := hperm.mem_iff.mpr mem_cons_self
      have hbfree : Free waits (a :: l) b := by
        intro c hc hwaits
        exact absurd (hfirst [] b t rfl c (hperm.mem_iff.mp hc) hwaits) not_mem_nil
      rcases lt_or_eq_of_le (hleast b hb hbfree) with hlt | heq
      · exact le_of_lt (List.Lex.rel hlt)
      · obtain rfl := hinj a mem_cons_self b hb heq
        refine cons_le_cons _ ?_
        refine ih (fun x hx y hy => hinj x (mem_cons_of_mem _ hx) y
          (mem_cons_of_mem _ hy)) (nodup_cons.mp hnodup).2
          (perm_cons a |>.mp hperm) ?_
        exact hfirst.tail (hperm.nodup_iff.mp hnodup)

end Loregarden.LeastOrder
