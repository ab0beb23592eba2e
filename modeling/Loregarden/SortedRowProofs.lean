import Mathlib.Data.List.Sort
import Mathlib.Data.Prod.Lex

/-! # Rows in the order of a key, and keyed tables

    A query `ORDER BY key` over rows whose keys all differ has one answer:
    `ranked_eq` says any list that has the rows and is strictly sorted is that
    answer. How a write, a delete or an insert moves the answer is read off it.

    * `ranked key rows`: the rows in the order of their keys.
    * `Keyed R key`: a table whose rows can be deleted; a key is handed out
      once, by counting.
    * `Precedes a c l`: `a` comes before `c` in `l`; a list that loses elements
      keeps the order of those it has left.
    * `Counted pos k l`: the positions of `l` count up from `k`. -/

namespace Loregarden.Ranked

open List List.Sublist

variable {R : Type*} {κ : Type*} [LinearOrder κ] {key : R → κ}
variable {rows l : List R} {r : R} {i : Nat}

/-! ## Sorting by a key -/

def ranked (key : R → κ) (rows : List R) : List R := rows.insertionSort fun a b => key a ≤ key b

/-- The times of rows written one after the other, by their places. -/
def Increasing (times : Nat → Int) : Prop := ∀ m n, m < n → times m < times n

def Ascending (key : R → κ) (rows : List R) : Prop := rows.Pairwise fun a b => key a < key b

theorem ranked_perm (key : R → κ) (rows : List R) : (ranked key rows).Perm rows :=
  perm_insertionSort _ _

@[simp] theorem mem_ranked : r ∈ ranked key rows ↔ r ∈ rows := (ranked_perm key rows).mem_iff

@[simp] theorem length_ranked : (ranked key rows).length = rows.length :=
  (ranked_perm key rows).length_eq

theorem ranked_pairwise (rows : List R) : (ranked key rows).Pairwise fun a b => key a ≤ key b := by
  have : Std.Total fun a b : R => key a ≤ key b := ⟨fun a b => le_total (key a) (key b)⟩
  exact pairwise_insertionSort _ rows

/-- **A query has one answer**: a strictly sorted list of the rows. -/
theorem ranked_eq {xs : List R} (hp : xs.Perm rows) (hs : Ascending key xs) :
    ranked key rows = xs := by
  have hle : xs.Pairwise fun a b => key a ≤ key b := hs.imp fun h => h.le
  have hkeys : (xs.map key).Nodup := by
    rw [List.Nodup, pairwise_map]
    exact hs.imp fun h => h.ne
  refine List.Perm.eq_of_pairwise (fun a b ha hb hab hba => ?_) (ranked_pairwise rows) hle
    ((ranked_perm key rows).trans hp.symm)
  have ha' : a ∈ xs := hp.mem_iff.mpr (mem_ranked.mp ha)
  exact inj_on_of_nodup_map hkeys ha' hb (le_antisymm hab hba)

section

variable (hk : (rows.map key).Nodup)
include hk

theorem ranked_ascending : Ascending key (ranked key rows) := by
  have hnodup : ((ranked key rows).map key).Nodup :=
    ((ranked_perm key rows).map key).nodup_iff.mpr hk
  rw [List.Nodup, pairwise_map] at hnodup
  exact ((ranked_pairwise rows).and hnodup).imp fun h => lt_of_le_of_ne h.1 h.2

theorem ranked_filter (q : R → Bool) : ranked key (rows.filter q) = (ranked key rows).filter q :=
  ranked_eq ((ranked_perm key rows).filter q) ((ranked_ascending hk).filter q)

theorem ranked_map {f : R → R} (hf : ∀ r ∈ rows, key (f r) = key r) :
    ranked key (rows.map f) = (ranked key rows).map f := by
  refine ranked_eq ((ranked_perm key rows).map f) ?_
  rw [Ascending, pairwise_map]
  refine (ranked_ascending hk).imp_of_mem fun ha hb h => ?_
  rw [hf _ (mem_ranked.mp ha), hf _ (mem_ranked.mp hb)]
  exact h

end

theorem ranked_append_cons {before after : List R} (hbefore : ∀ x ∈ before, key x ≤ key r)
    (hafter : ∀ x ∈ after, key x < key r) :
    ranked key (before ++ r :: after) = ranked key (before ++ after) ++ [r] := by
  have hput : ∀ (x : R) (sorted : List R), key x ≤ key r →
      (sorted ++ [r]).orderedInsert (fun a b => key a ≤ key b) x =
        sorted.orderedInsert (fun a b => key a ≤ key b) x ++ [r] := by
    intro x sorted hx
    induction sorted with
    | nil => simp [hx]
    | cons y sorted ih =>
      rw [cons_append, orderedInsert_cons, orderedInsert_cons, ih]
      split <;> rfl
  have hlast : ∀ sorted : List R, (∀ x ∈ sorted, key x < key r) →
      sorted.orderedInsert (fun a b => key a ≤ key b) r = sorted ++ [r] := by
    intro sorted hsorted
    induction sorted with
    | nil => rfl
    | cons y sorted ih =>
      rw [orderedInsert_cons, if_neg (hsorted y mem_cons_self).not_ge,
        ih fun x hx => hsorted x (mem_cons_of_mem y hx)]
      rfl
  induction before with
  | nil => exact hlast _ fun x hx => hafter x (mem_ranked.mp hx)
  | cons x before ih =>
    have htail := ih fun y hy => hbefore y (mem_cons_of_mem x hy)
    show (ranked key (before ++ r :: after)).orderedInsert _ x = _
    rw [htail]
    exact hput x _ (hbefore x mem_cons_self)

theorem ranked_snoc (hr : ∀ x ∈ rows, key x ≤ key r) :
    ranked key (rows ++ [r]) = ranked key rows ++ [r] := by
  rw [ranked_append_cons hr (forall_mem_nil _), append_nil]

/-- The last of the rows in their order: the last of those with the greatest key. -/
theorem ranked_eq_concat_iff {front : List R} : ranked key rows = front ++ [r] ↔
    ∃ before after, rows = before ++ r :: after ∧ (∀ x ∈ before, key x ≤ key r) ∧
      (∀ x ∈ after, key x < key r) ∧ ranked key (before ++ after) = front := by
  have hlast : ∀ rows : List R, rows ≠ [] → ∃ before r after, rows = before ++ r :: after ∧
      (∀ x ∈ before, key x ≤ key r) ∧ ∀ x ∈ after, key x < key r := by
    intro rows hrows
    induction rows with
    | nil => exact absurd rfl hrows
    | cons x rows ih =>
      by_cases hnil : rows = []
      · exact ⟨[], x, [], by rw [hnil]; rfl, forall_mem_nil _, forall_mem_nil _⟩
      · obtain ⟨before, r, after, rfl, hbefore, hafter⟩ := ih hnil
        rcases le_or_gt (key x) (key r) with hle | hlt
        · exact ⟨x :: before, r, after, rfl, forall_mem_cons.mpr ⟨hle, hbefore⟩, hafter⟩
        · refine ⟨[], x, before ++ r :: after, rfl, forall_mem_nil _, ?_⟩
          simp only [forall_mem_append, forall_mem_cons]
          exact ⟨fun y hy => (hbefore y hy).trans_lt hlt, hlt,
            fun y hy => (hafter y hy).trans hlt⟩
  constructor
  · intro hranked
    have hrows : rows ≠ [] := by
      rintro rfl
      exact absurd (congrArg length hranked) (by simp [ranked])
    obtain ⟨before, last, after, rfl, hbefore, hafter⟩ := hlast rows hrows
    rw [ranked_append_cons hbefore hafter] at hranked
    obtain ⟨hfront, hr⟩ := append_inj' hranked rfl
    obtain rfl := (cons_eq_cons.mp hr).1
    exact ⟨before, after, rfl, hbefore, hafter, hfront⟩
  · rintro ⟨before, after, rfl, hbefore, hafter, rfl⟩
    exact ranked_append_cons hbefore hafter

/-- The first of the rows in their order: the first of those with the least key. -/
theorem head?_ranked_iff : (ranked key rows).head? = some r ↔
    ∃ before after, rows = before ++ r :: after ∧ (∀ x ∈ before, key r < key x) ∧
      ∀ x ∈ after, key r ≤ key x := by
  have hcons : ∀ (x : R) (rows : List R), (ranked key (x :: rows)).head? =
      (ranked key rows).head?.elim (some x) fun y => if key x ≤ key y then some x else some y := by
    intro x rows
    show ((ranked key rows).orderedInsert _ x).head? = _
    cases ranked key rows with
    | nil => rfl
    | cons y sorted =>
      rw [orderedInsert_cons]
      dsimp only [head?_cons, Option.elim_some]
      split <;> rfl
  induction rows generalizing r with
  | nil => simp [ranked]
  | cons x rows ih =>
    rw [hcons]
    cases hhead : (ranked key rows).head? with
    | none =>
      have hnil : rows = [] := by
        rw [head?_eq_none_iff] at hhead
        exact (hhead ▸ ranked_perm key rows).nil_eq.symm
      subst hnil
      constructor
      · intro hx
        obtain rfl := Option.some.inj hx
        exact ⟨[], [], rfl, forall_mem_nil _, forall_mem_nil _⟩
      · rintro ⟨before, after, hrows, -⟩
        cases before with
        | nil => exact congrArg some (cons_eq_cons.mp hrows).1
        | cons y before => simp at hrows
    | some y =>
      obtain ⟨front, back, rfl, hfront, hback⟩ := ih.mp hhead
      dsimp only [Option.elim_some]
      constructor
      · intro hr
        split at hr
        · rename_i hle
          obtain rfl := Option.some.inj hr
          refine ⟨[], _, rfl, forall_mem_nil _, ?_⟩
          simp only [forall_mem_append, forall_mem_cons]
          exact ⟨fun z hz => hle.trans (hfront z hz).le, hle, fun z hz => hle.trans (hback z hz)⟩
        · rename_i hlt
          obtain rfl := Option.some.inj hr
          exact ⟨x :: front, back, rfl, forall_mem_cons.mpr ⟨not_le.mp hlt, hfront⟩, hback⟩
      · rintro ⟨before, after, hrows, hbefore, hafter⟩
        cases before with
        | nil =>
          obtain ⟨rfl, rfl⟩ := cons_eq_cons.mp hrows
          rw [if_pos (hafter y (mem_append_right _ mem_cons_self))]
        | cons z before =>
          obtain ⟨rfl, htail⟩ := cons_eq_cons.mp hrows
          have hsame : (ranked key (front ++ y :: back)).head? = some r :=
            ih.mpr ⟨before, after, htail, fun w hw => hbefore w (mem_cons_of_mem _ hw), hafter⟩
          obtain rfl := Option.some.inj (hhead.symm.trans hsame)
          rw [if_neg (hbefore x mem_cons_self).not_ge]

/-! ## Keyed tables -/

/-- A table whose rows are found by a number, each number handed out once. -/
@[ext] structure Keyed (R : Type*) (key : R → Nat) where
  rows : List R
  /-- The next number to hand out. -/
  next : Nat
  nodup : (rows.map key).Nodup
  fresh : ∀ r ∈ rows, key r < next

namespace Keyed

variable {id : R → Nat}

def empty : Keyed R id where
  rows := []
  next := 0
  nodup := nodup_nil
  fresh := fun _ h => absurd h not_mem_nil

def get (t : Keyed R id) (i : Nat) : Option R := t.rows.find? fun r => id r = i

/-- Write every row; a write leaves the numbers alone. -/
def write (t : Keyed R id) (f : R → R) (hf : ∀ r, id (f r) = id r) : Keyed R id where
  rows := t.rows.map f
  next := t.next
  nodup := by
    have hsame : id ∘ f = id := funext hf
    rw [map_map, hsame]
    exact t.nodup
  fresh := fun r h => by
    obtain ⟨x, hx, rfl⟩ := mem_map.mp h
    rw [hf]
    exact t.fresh x hx

def update (t : Keyed R id) (i : Nat) (g : R → R) (hg : ∀ r, id (g r) = id r) : Keyed R id :=
  t.write (fun r => if id r = i then g r else r) fun r => by
    split
    · exact hg r
    · rfl

def delete (t : Keyed R id) (i : Nat) : Keyed R id where
  rows := t.rows.filter fun r => id r ≠ i
  next := t.next
  nodup := (filter_sublist.map id).nodup t.nodup
  fresh := fun r h => t.fresh r (mem_filter.mp h).1

def insert (t : Keyed R id) (r : R) (hr : id r = t.next) : Keyed R id where
  rows := t.rows ++ [r]
  next := t.next + 1
  nodup := by
    rw [map_append, map_singleton]
    refine nodup_append'.mpr ⟨t.nodup, nodup_singleton _, fun x hx hx' => ?_⟩
    obtain ⟨y, hy, rfl⟩ := mem_map.mp hx
    have hlt := t.fresh y hy
    rw [mem_singleton.mp hx', hr] at hlt
    exact Nat.lt_irrefl _ hlt
  fresh := fun x hx => by
    rcases mem_append.mp hx with h | h
    · exact Nat.lt_succ_of_lt (t.fresh x h)
    · rw [mem_singleton.mp h, hr]
      exact Nat.lt_succ_self _

theorem eq_of_id {t : Keyed R id} {x : R} (hr : r ∈ t.rows) (hx : x ∈ t.rows)
    (h : id r = id x) : r = x :=
  inj_on_of_nodup_map t.nodup hr hx h

theorem get_eq_some {t : Keyed R id} (h : t.get i = some r) : r ∈ t.rows ∧ id r = i :=
  ⟨mem_of_find?_eq_some h, by simpa using List.find?_some h⟩

theorem get_of_mem {t : Keyed R id} (h : r ∈ t.rows) : t.get (id r) = some r := by
  cases hg : t.get (id r) with
  | none => exact absurd (List.find?_eq_none.mp hg r h) (by simp)
  | some x =>
    obtain ⟨hx, hid⟩ := get_eq_some hg
    rw [eq_of_id hx h hid]

theorem mem_update {t : Keyed R id} {g : R → R} (hg : ∀ r, id (g r) = id r) {x : R} :
    x ∈ (t.update i g hg).rows ↔ x ∈ t.rows ∧ id x ≠ i ∨ ∃ r ∈ t.rows, id r = i ∧ x = g r := by
  constructor
  · intro h
    obtain ⟨r, hr, rfl⟩ := mem_map.mp h
    by_cases hid : id r = i
    · exact .inr ⟨r, hr, hid, if_pos hid⟩
    · rw [if_neg hid]
      exact .inl ⟨hr, hid⟩
  · rintro (⟨hx, hid⟩ | ⟨r, hr, hid, rfl⟩)
    · exact mem_map.mpr ⟨x, hx, if_neg hid⟩
    · exact mem_map.mpr ⟨r, hr, if_pos hid⟩

theorem get_update {t : Keyed R id} {j : Nat} {g : R → R} (hg : ∀ r, id (g r) = id r) :
    (t.update i g hg).get j = if j = i then (t.get i).map g else t.get j := by
  cases hj : (t.update i g hg).get j with
  | some x =>
    obtain ⟨hx, rfl⟩ := get_eq_some hj
    rcases (mem_update hg).mp hx with ⟨hmem, hne⟩ | ⟨r, hr, hid, rfl⟩
    · rw [if_neg hne, get_of_mem hmem]
    · have hsame : id (g r) = i := (hg r).trans hid
      rw [if_pos hsame, ← hid, get_of_mem hr, Option.map_some]
  | none =>
    have hnot : ∀ x ∈ (t.update i g hg).rows, id x ≠ j := fun x hx hid => by
      rw [← hid, get_of_mem hx] at hj
      cases hj
    split
    · rename_i hji
      subst hji
      cases hi : t.get j with
      | none => rfl
      | some r =>
        obtain ⟨hr, hid⟩ := get_eq_some hi
        exact absurd ((hg r).trans hid) (hnot _ ((mem_update hg).mpr (.inr ⟨r, hr, hid, rfl⟩)))
    · rename_i hji
      cases hi : t.get j with
      | none => rfl
      | some r =>
        obtain ⟨hr, hid⟩ := get_eq_some hi
        refine absurd hid (hnot r ((mem_update hg).mpr (.inl ⟨hr, ?_⟩)))
        exact fun hri => hji (hid.symm.trans hri)

theorem mem_insert {t : Keyed R id} {x : R} (hr : id r = t.next) :
    x ∈ (t.insert r hr).rows ↔ x ∈ t.rows ∨ x = r :=
  mem_append.trans (or_congr_right mem_singleton)

end Keyed

variable {α : Type*}

/-- `a` comes before `c` in `l`. -/
def Precedes (a c : α) (l : List α) : Prop := [a, c].Sublist l

section

variable {a c : α} {l : List α} (h : Precedes a c l)
include h

theorem Precedes.mem_left : a ∈ l := h.subset mem_cons_self

theorem Precedes.mem_right : c ∈ l := h.subset (mem_cons_of_mem _ mem_cons_self)

theorem Precedes.mono {l' : List α} (hl : l.Sublist l') : Precedes a c l' := List.Sublist.trans h hl

theorem Precedes.of_sublist {l' : List α} (hn : l.Nodup)
    (hl : l'.Sublist l) (ha : a ∈ l') (hc : c ∈ l') : Precedes a c l' := by
  induction hl with
  | slnil => exact absurd ha not_mem_nil
  | cons x hsub ih =>
    obtain ⟨hx, hn'⟩ := nodup_cons.mp hn
    cases h with
    | cons _ h => exact ih h hn' ha hc
    | cons_cons _ _ => exact absurd (hsub.subset ha) hx
  | cons_cons x hsub ih =>
    obtain ⟨hx, hn'⟩ := nodup_cons.mp hn
    cases h with
    | cons _ h =>
      have hax : a ≠ x := fun e => hx (e ▸ Precedes.mem_left h)
      have hcx : c ≠ x := fun e => hx (e ▸ Precedes.mem_right h)
      exact (ih h hn' ((mem_cons.mp ha).resolve_left hax)
        ((mem_cons.mp hc).resolve_left hcx)).cons x
    | cons_cons _ h =>
      have hcx : c ≠ a := fun e => hx (e ▸ singleton_sublist.mp h)
      exact (singleton_sublist.mpr ((mem_cons.mp hc).resolve_left hcx)).cons_cons a

end

theorem Precedes.append_last {a c : α} {l : List α} (ha : a ∈ l) : Precedes a c (l ++ [c]) := by
  show ([a] ++ [c]).Sublist (l ++ [c])
  exact (singleton_sublist.mpr ha).append (refl [c])

theorem precedes_or {a c : α} {l : List α} (ha : a ∈ l) (hc : c ∈ l) (hne : a ≠ c) :
    Precedes a c l ∨ Precedes c a l := by
  induction l with
  | nil => exact absurd ha not_mem_nil
  | cons x l ih =>
    rcases mem_cons.mp ha with rfl | ha'
    · have hc' : c ∈ l := (mem_cons.mp hc).resolve_left (Ne.symm hne)
      exact .inl (cons_cons a (singleton_sublist.mpr hc'))
    · rcases mem_cons.mp hc with rfl | hc'
      · exact .inr (cons_cons c (singleton_sublist.mpr ha'))
      · exact (ih ha' hc').imp (cons x) (cons x)

/-! ## Positions that count up -/

/-- The positions of a list count up from `k`, with no hole and no duplicate. -/
def Counted (pos : R → Nat) (k : Nat) (l : List R) : Prop := l.map pos = List.range' k l.length

variable {pos : R → Nat} {k : Nat}

theorem counted_cons {x : R} : Counted pos k (x :: l) ↔ pos x = k ∧ Counted pos (k + 1) l := by
  rw [Counted, map_cons, length_cons, List.range'_succ, List.cons.injEq]
  rfl

theorem counted_append {l' : List R} :
    Counted pos k (l ++ l') ↔ Counted pos k l ∧ Counted pos (k + l.length) l' := by
  induction l generalizing k with
  | nil => simp [Counted]
  | cons x l ih =>
    rw [cons_append, counted_cons, counted_cons, ih, and_assoc, length_cons,
      Nat.add_assoc, Nat.add_comm 1]

theorem counted_map {f : R → R} (h : ∀ x ∈ l, pos (f x) = pos x) :
    Counted pos k (l.map f) ↔ Counted pos k l := by
  have hsame : (l.map f).map pos = l.map pos := by
    rw [map_map]
    exact map_congr_left h
  rw [Counted, Counted, hsame, length_map]

theorem Counted.lt (h : Counted pos k l) {x : R} (hx : x ∈ l) :
    k ≤ pos x ∧ pos x < k + l.length := by
  have hmem : pos x ∈ List.range' k l.length := h ▸ mem_map_of_mem hx
  exact mem_range'_1.mp hmem

theorem Counted.ascending (h : Counted pos k l) : Ascending pos l := by
  have hp : (l.map pos).Pairwise (· < ·) := h ▸ pairwise_lt_range'
  exact pairwise_map.mp hp

/-- What is left of a counted list still counts up from the same number exactly
    when what was taken was its end: behind a taken element all are taken. -/
theorem counted_filter_iff {p : R → Bool} (h : Counted pos k l) :
    Counted pos k (l.filter fun x => !p x) ↔ l.Pairwise fun x y => p x = true → p y = true := by
  induction l generalizing k with
  | nil => simp [Counted]
  | cons x l ih =>
    obtain ⟨hx, hl⟩ := counted_cons.mp h
    rw [pairwise_cons]
    cases hp : p x with
    | false =>
      rw [filter_cons_of_pos (by simp [hp]), counted_cons, ih hl]
      simp [hx]
    | true =>
      rw [filter_cons_of_neg (by simp [hp])]
      constructor
      · intro hrest
        -- the first one left would stand at `k`, and all behind `x` stand above
        have hnone : l.filter (fun x => !p x) = [] := by
          cases hf : l.filter (fun x => !p x) with
          | nil => rfl
          | cons y ys =>
            rw [hf] at hrest
            have hy : y ∈ l := (mem_filter.mp (hf ▸ mem_cons_self)).1
            have hk := (counted_cons.mp hrest).1
            have hlt := (hl.lt hy).1
            omega
        have hall : ∀ y ∈ l, p y = true := by
          intro y hy
          simpa using filter_eq_nil_iff.mp hnone y hy
        exact ⟨fun y hy _ => hall y hy, pairwise_of_forall_mem_list fun _ _ y hy _ => hall y hy⟩
      · rintro ⟨hall, -⟩
        have hnone : l.filter (fun x => !p x) = [] :=
          filter_eq_nil_iff.mpr fun y hy => by simp [hall y hy rfl]
        rw [hnone]
        rfl

theorem map_idxOf_eq [DecidableEq α] {l : List α} (hn : l.Nodup) :
    l.map (fun x => l.idxOf x + 1) = List.range' 1 l.length := by
  refine ext_getElem (by simp) fun i h1 h2 => ?_
  rw [length_map] at h1
  rw [getElem_map, hn.idxOf_getElem i h1, getElem_range']
  omega

end Loregarden.Ranked
