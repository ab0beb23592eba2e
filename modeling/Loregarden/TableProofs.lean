import Mathlib.Algebra.Order.BigOperators.Group.List
import Mathlib.Tactic.Abel

/-! # Append-only tables and the totals kept over them

    A table is a list of rows; a row's key is its place, so a key never moves
    and a new row takes the next one. A write is `List.modify` at a key, an
    insert is an append.

    * `Rows P rows`: `P` holds of every row under its key; what one write or
      one insert must show to keep it.
    * `total f rows`: the sum of `f` over the rows, and how one write or one
      insert moves it. A running total kept beside a table is right exactly
      when it is moved by the same amount. -/

namespace Loregarden.Tables

open List Option Nat

variable {R : Type*}
variable {P Q : Nat → R → Prop} {rows : List R} {i j : Nat} {g : R → R} {r x : R}

/-- `P` holds of every row under its key. -/
def Rows (P : Nat → R → Prop) (rows : List R) : Prop := ∀ i r, rows[i]? = some r → P i r

theorem Rows.nil (P : Nat → R → Prop) : Rows P [] := by
  intro i r h
  cases h

theorem Rows.modify (h : Rows P rows) (hother : ∀ j r, rows[j]? = some r → j ≠ i → P j r → Q j r)
    (hi : ∀ r, rows[i]? = some r → P i r → Q i (g r)) : Rows Q (rows.modify i g) := by
  intro j r hj
  rw [List.getElem?_modify] at hj
  obtain ⟨r₀, hr₀, hr⟩ := map_eq_some_iff.mp hj
  by_cases hij : i = j
  · rw [if_pos hij] at hr
    subst hij hr
    exact hi r₀ hr₀ (h i r₀ hr₀)
  · rw [if_neg hij] at hr
    subst hr
    exact hother j _ hr₀ (Ne.symm hij) (h j _ hr₀)

theorem Rows.append (h : Rows P rows)
    (hold : ∀ j x, rows[j]? = some x → P j x → Q j x) (hnew : Q rows.length r) :
    Rows Q (rows ++ [r]) := by
  intro j x hj
  rcases lt_trichotomy j rows.length with hlt | heq | hgt
  · rw [List.getElem?_append_left hlt] at hj
    exact hold j x hj (h j x hj)
  · subst heq
    rw [List.getElem?_append_right (Nat.le_refl _), Nat.sub_self] at hj
    obtain rfl : r = x := some.inj hj
    exact hnew
  · rw [List.getElem?_eq_none (by simp; omega)] at hj
    cases hj

theorem Rows.mono (h : Rows P rows)
    (hPQ : ∀ i r, rows[i]? = some r → P i r → Q i r) : Rows Q rows :=
  fun i r hr => hPQ i r hr (h i r hr)

theorem getElem?_modify_of_ne (h : i ≠ j) : (rows.modify i g)[j]? = rows[j]? := by
  simp [h]

theorem getElem?_modify_self : (rows.modify i g)[i]? = rows[i]?.map g := by
  simp

theorem modify_congr {f : R → R}
    (h : ∀ r, rows[i]? = some r → f r = g r) : rows.modify i f = rows.modify i g := by
  apply ext_getElem?
  intro j
  rw [List.getElem?_modify, List.getElem?_modify]
  by_cases hij : i = j
  · subst hij
    cases hr : rows[i]? with
    | none => rfl
    | some r => simp [h r hr]
  · simp [hij]

theorem exists_of_getElem?_modify (h : (rows.modify i g)[j]? = some r) :
    ∃ r₀, rows[j]? = some r₀ ∧ (j = i ∧ r = g r₀ ∨ j ≠ i ∧ r = r₀) := by
  rw [List.getElem?_modify] at h
  obtain ⟨r₀, hr₀, hr⟩ := map_eq_some_iff.mp h
  by_cases hij : i = j
  · rw [if_pos hij] at hr
    exact ⟨r₀, hr₀, .inl ⟨hij.symm, hr.symm⟩⟩
  · rw [if_neg hij] at hr
    exact ⟨r₀, hr₀, .inr ⟨Ne.symm hij, hr.symm⟩⟩

theorem of_getElem?_append {more : List R}
    (h : (rows ++ more)[j]? = some x) : rows[j]? = some x ∨ x ∈ more := by
  by_cases hlt : j < rows.length
  · rw [List.getElem?_append_left hlt] at h
    exact .inl h
  · rw [List.getElem?_append_right (Nat.le_of_not_lt hlt)] at h
    exact .inr (mem_of_getElem? h)

/-- Every row after an insert is an old one under its old key, or the new one under the next key. -/
theorem of_getElem?_append_singleton
    (h : (rows ++ [r])[j]? = some x) : rows[j]? = some x ∨ (j = rows.length ∧ x = r) := by
  rcases lt_trichotomy j rows.length with hlt | heq | hgt
  · rw [List.getElem?_append_left hlt] at h
    exact .inl h
  · subst heq
    rw [List.getElem?_append_right (Nat.le_refl _), Nat.sub_self] at h
    exact .inr ⟨rfl, (some.inj h).symm⟩
  · rw [List.getElem?_eq_none (by simp; omega)] at h
    cases h

theorem getElem?_append_of_some (h : rows[j]? = some x) : (rows ++ [r])[j]? = some x := by
  obtain ⟨hlt, -⟩ := List.getElem?_eq_some_iff.mp h
  rw [List.getElem?_append_left hlt]
  exact h

theorem getElem?_append_length : (rows ++ [r])[rows.length]? = some r := by
  rw [List.getElem?_append_right (Nat.le_refl _), Nat.sub_self]
  rfl

/-- A query over the rows and their keys, after a write that takes its row out of
    it, is the query before without that key. -/
theorem filter_zipIdx_modify {q : R → Bool}
    (hg : ∀ r, rows[i]? = some r → q (g r) = false) (k : Nat) :
    ((rows.modify i g).zipIdx k).filter (fun row => q row.1)
      = ((rows.zipIdx k).filter (fun row => q row.1)).filter (fun row => row.2 ≠ i + k) := by
  induction rows generalizing i k with
  | nil => cases i <;> rfl
  | cons a rows ih =>
    cases i with
    | zero =>
      rw [modify_zero_cons, zipIdx_cons, zipIdx_cons, filter_cons_of_neg (by simp [hg a rfl])]
      -- the keys behind the first are all above it
      have hrest : ((rows.zipIdx (k + 1)).filter (fun row => q row.1)).filter
          (fun row => row.2 ≠ 0 + k) = (rows.zipIdx (k + 1)).filter (fun row => q row.1) := by
        refine filter_eq_self.mpr fun row hrow => ?_
        have hk := (mem_zipIdx (mem_filter.mp hrow).1).1
        exact decide_eq_true (by omega)
      by_cases hqa : q a = true
      · rw [filter_cons_of_pos (by simpa using hqa), filter_cons_of_neg (by simp), hrest]
      · rw [filter_cons_of_neg (by simpa using hqa), hrest]
    | succ i =>
      rw [modify_succ_cons, zipIdx_cons, zipIdx_cons]
      have hi : i + 1 + k = i + (k + 1) := by omega
      have hrest := ih (i := i) (fun r hr => hg r hr) (k + 1)
      by_cases hqa : q a = true
      · rw [filter_cons_of_pos (by simpa using hqa), filter_cons_of_pos (by simpa using hqa),
          filter_cons_of_pos (by simp), hrest, hi]
      · rw [filter_cons_of_neg (by simpa using hqa),
          filter_cons_of_neg (by simpa using hqa), hrest, hi]

theorem countP_modify_add (test : R → Bool) (hr : rows[i]? = some r) :
    (rows.modify i g).countP test + (if test r then 1 else 0) =
      rows.countP test + if test (g r) then 1 else 0 := by
  induction rows generalizing i with
  | nil => cases hr
  | cons a rows ih =>
    cases i with
    | zero =>
      obtain rfl : a = r := some.inj hr
      rw [modify_zero_cons, countP_cons, countP_cons]
      omega
    | succ i =>
      have hrest := ih (i := i) hr
      rw [modify_succ_cons, countP_cons, countP_cons]
      omega

theorem countP_modify_same (test : R → Bool)
    (hsame : ∀ r, test (g r) = test r) : (rows.modify i g).countP test = rows.countP test := by
  cases hr : rows[i]? with
  | none =>
    rw [modify_eq_self]
    exact List.getElem?_eq_none_iff.mp hr
  | some r =>
    have hcount := countP_modify_add (g := g) test hr
    rw [hsame] at hcount
    omega

theorem countP_modify {q : R → Bool}
    (hr : rows[i]? = some r) (hq : q r = true) (hg : q (g r) = false) :
    (rows.modify i g).countP q + 1 = rows.countP q := by
  have hcount := countP_modify_add (g := g) q hr
  rw [if_pos hq, if_neg (Bool.eq_false_iff.mp hg)] at hcount
  exact hcount

theorem sum_map_modify_lt {f : R → Nat} (hr : rows[i]? = some r) (h : f (g r) < f r) :
    ((rows.modify i g).map f).sum < (rows.map f).sum := by
  induction rows generalizing i with
  | nil => cases hr
  | cons a rows ih =>
    cases i with
    | zero =>
      obtain rfl : a = r := some.inj hr
      rw [modify_zero_cons, map_cons, map_cons, sum_cons, sum_cons]
      omega
    | succ i =>
      have hrest := ih (i := i) hr
      rw [modify_succ_cons, map_cons, map_cons, sum_cons, sum_cons]
      omega

/-! ## Totals -/

section Totals

variable {M : Type*} [AddCommGroup M]

/-- The sum of `f` over the rows. -/
def total (f : R → M) (rows : List R) : M := (rows.map f).sum

@[simp] theorem total_cons (f : R → M) (r : R) (rows : List R) :
    total f (r :: rows) = f r + total f rows := by
  simp [total]

@[simp] theorem total_append_singleton (f : R → M) (rows : List R) (r : R) :
    total f (rows ++ [r]) = total f rows + f r := by
  simp [total]

theorem total_eq_zero {f : R → M} (h : ∀ r ∈ rows, f r = 0) : total f rows = 0 := by
  induction rows with
  | nil => rfl
  | cons r rows ih =>
    rw [total_cons, h r mem_cons_self, ih fun x hx => h x (mem_cons_of_mem _ hx), add_zero]

/-- **One write moves a total by what it changes in its row.** -/
theorem total_modify (f : R → M) (h : rows[i]? = some r)
    (g : R → R) : total f (rows.modify i g) = total f rows - f r + f (g r) := by
  induction rows generalizing i with
  | nil => cases h
  | cons a rows ih =>
    cases i with
    | zero =>
      obtain rfl : a = r := some.inj h
      rw [modify_zero_cons, total_cons, total_cons]
      abel
    | succ i =>
      rw [modify_succ_cons, total_cons, total_cons, ih h]
      abel

theorem total_modify_of_eq (f : R → M) (h : ∀ r, rows[i]? = some r → f (g r) = f r) :
    total f (rows.modify i g) = total f rows := by
  cases hr : rows[i]? with
  | none =>
    have hlen : rows.length ≤ i := List.getElem?_eq_none_iff.mp hr
    rw [modify_eq_self hlen]
  | some r =>
    rw [total_modify f hr, h r hr]
    abel

variable [PartialOrder M] [IsOrderedAddMonoid M]

theorem total_nonneg {f : R → M} (h : ∀ r ∈ rows, 0 ≤ f r) : 0 ≤ total f rows := by
  refine sum_nonneg fun x hx => ?_
  obtain ⟨r, hr, rfl⟩ := mem_map.mp hx
  exact h r hr

theorem le_total {f : R → M} (h : ∀ r ∈ rows, 0 ≤ f r) (hr : r ∈ rows) : f r ≤ total f rows := by
  refine single_le_sum (fun x hx => ?_) (f r) (mem_map_of_mem hr)
  obtain ⟨r', hr', rfl⟩ := mem_map.mp hx
  exact h r' hr'

end Totals

end Loregarden.Tables
