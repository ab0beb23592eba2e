import Loregarden.SidebarModel

/-! # The sidebar stays a total order

A flush of ranks writes exactly the rows it names (`setRanks_spec`), so a reorder seats its entries
in the order it names (`reorder_seats`), and closing the gaps keeps the order there is
(`closeGaps_keeps`). What a pass has read may be old when it commits: an old rank is past the others
or refused by the index, and an entry that was found is still what it was (`Remembers`). So every
commit leaves a total order, and none but a reorder moves two entries past each other
(`sidebar_ordered`). -/

namespace Loregarden.Sidebars

open Ranked (Keyed ranked)
open Ranked.Keyed Option Function Nat
open List hiding get_of_mem
open Runs

variable {t t' : Keyed Entry Entry.id} {s s' : Sidebar} {w : World} {pass : Pass}
variable {ranks : List (Nat × Int)} {order : List Nat} {rank : Nat → Int} {id k i : Nat}

def rankOf (ranks : List (Nat × Int)) (e : Entry) : Entry :=
  { e with position := (ranks.lookup e.id).getD e.position }

def Spread (t : Keyed Entry Entry.id) : Prop :=
  ∀ a ∈ t.rows, ∀ b ∈ t.rows, a.position = b.position → a = b

theorem setRank_spec {position : Int} (h : setRank t id position = some t') :
    (∃ e ∈ t.rows, e.id = id) ∧ (∀ e ∈ t.rows, e.position = position → e.id = id) ∧
      t' = t.update id (fun e => { e with position := position }) fun _ => rfl := by
  unfold setRank at h
  split at h
  · exact nomatch h
  · rename_i hget
    split at h
    · exact nomatch h
    · rename_i hfree
      injection h with h
      obtain ⟨e, he⟩ := ne_none_iff_exists'.mp hget
      refine ⟨⟨e, get_eq_some he⟩, ?_, h.symm⟩
      intro e he hposition
      by_contra hne
      exact hfree (any_eq_true.mpr ⟨e, he, by simp [hne, hposition]⟩)

theorem spread_setRank {position : Int} (hspread : Spread t)
    (h : setRank t id position = some t') : Spread t' := by
  obtain ⟨-, hfree, rfl⟩ := setRank_spec h
  intro a ha b hb hsame
  rcases (mem_update _).mp ha with ⟨ha, hane⟩ | ⟨x, hx, hxid, rfl⟩
  · rcases (mem_update _).mp hb with ⟨hb, -⟩ | ⟨y, hy, hyid, rfl⟩
    · exact hspread a ha b hb hsame
    · exact absurd (hfree a ha hsame) hane
  · rcases (mem_update _).mp hb with ⟨hb, hbne⟩ | ⟨y, hy, hyid, rfl⟩
    · exact absurd (hfree b hb hsame.symm) hbne
    · rw [eq_of_id hx hy (hxid.trans hyid.symm)]

/-- **A flush writes the rows it names, and no others.** -/
theorem setRanks_spec (hkeys : (ranks.map Prod.fst).Nodup) (h : setRanks t ranks = some t') :
    t'.rows = t.rows.map (rankOf ranks) ∧ t'.next = t.next ∧
      (∀ p ∈ ranks, ∃ e ∈ t.rows, e.id = p.1) ∧ (Spread t → Spread t') := by
  induction ranks generalizing t with
  | nil =>
    injection h with h
    subst h
    refine ⟨?_, rfl, nofun, fun hspread => hspread⟩
    show t.rows = t.rows.map fun e => e
    rw [List.map_id']
  | cons p rest ih =>
    obtain ⟨id, position⟩ := p
    obtain ⟨hnot, hrest⟩ := nodup_cons.mp hkeys
    obtain ⟨m, hm, h⟩ := bind_eq_some_iff.mp h
    obtain ⟨hrows, hnext, hpresent, hspread⟩ := ih hrest h
    have hfirst := spread_setRank (h := hm)
    obtain ⟨⟨e, he, heid⟩, -, rfl⟩ := setRank_spec hm
    refine ⟨?_, hnext, ?_, fun hs => hspread (hfirst hs)⟩
    · rw [hrows]
      show (t.rows.map _).map _ = _
      rw [List.map_map]
      refine List.map_congr_left ?_
      intro e _
      by_cases heid : e.id = id
      · have hnone : rest.lookup id = none := by
          refine lookup_eq_none_iff.mpr ?_
          intro p hp
          have hne : p.1 ≠ id := by
            intro heq
            exact hnot (mem_map.mpr ⟨p, hp, heq⟩)
          simpa using Ne.symm hne
        simp [rankOf, heid, hnone]
      · have hbeq : (e.id == id) = false := by simpa using heid
        simp [rankOf, heid, lookup_cons, hbeq]
    · intro p hp
      rcases mem_cons.mp hp with rfl | hp
      · exact ⟨e, he, heid⟩
      · obtain ⟨x, hx, hxid⟩ := hpresent p hp
        rcases (mem_update _).mp hx with ⟨hx, -⟩ | ⟨y, hy, hyid, rfl⟩
        · exact ⟨x, hx, hxid⟩
        · exact ⟨y, hy, hxid⟩

theorem setRanks_isSome (hkeys : ∀ p ∈ ranks, ∃ e ∈ t.rows, e.id = p.1)
    (hranks : (ranks.map Prod.snd).Nodup)
    (hfree : ∀ e ∈ t.rows, ∀ p ∈ ranks, e.position ≠ p.2) : (setRanks t ranks).isSome := by
  induction ranks generalizing t with
  | nil => rfl
  | cons p rest ih =>
    obtain ⟨id, position⟩ := p
    obtain ⟨hnot, hrest⟩ := nodup_cons.mp hranks
    obtain ⟨e, he, heid⟩ := hkeys _ mem_cons_self
    have hget : t.get id ≠ none := by
      have heid : e.id = id := heid
      rw [← heid, get_of_mem he]
      exact nofun
    have hany : ¬ (t.rows.any fun e => e.id ≠ id ∧ e.position = position) = true := by
      intro hany
      obtain ⟨x, hx, hheld⟩ := any_eq_true.mp hany
      have hheld : x.id ≠ id ∧ x.position = position := by simpa using hheld
      exact hfree x hx _ mem_cons_self hheld.2
    have hset : setRank t id position =
        some (t.update id (fun e => { e with position := position }) fun _ => rfl) := by
      rw [setRank, if_neg hget, if_neg hany]
    show ((setRank t id position).bind fun entries => setRanks entries rest).isSome = true
    rw [hset]
    refine ih ?_ hrest ?_
    · intro p hp
      obtain ⟨x, hx, hxid⟩ := hkeys p (mem_cons_of_mem _ hp)
      by_cases hid : x.id = id
      · exact ⟨_, (mem_update _).mpr (.inr ⟨x, hx, hid, rfl⟩), hxid⟩
      · exact ⟨x, (mem_update _).mpr (.inl ⟨hx, hid⟩), hxid⟩
    · intro x hx p hp
      rcases (mem_update _).mp hx with ⟨hx, -⟩ | ⟨y, hy, -, rfl⟩
      · exact hfree x hx p (mem_cons_of_mem _ hp)
      · show position ≠ p.2
        intro heq
        exact hnot (mem_map.mpr ⟨p, hp, heq.symm⟩)

/-! ## The ranks of a list -/

theorem ranksFrom_keys (rank : Nat → Int) (k : Nat) (order : List Nat) :
    (ranksFrom rank k order).map Prod.fst = order := by
  induction order generalizing k with
  | nil => rfl
  | cons id rest ih =>
    show id :: (ranksFrom rank (k + 1) rest).map Prod.fst = id :: rest
    rw [ih]

theorem ranksFrom_snd {p : Nat × Int} (hp : p ∈ ranksFrom rank k order) :
    ∃ i, k ≤ i ∧ p.2 = rank i := by
  induction order generalizing k with
  | nil => exact nomatch hp
  | cons id rest ih =>
    rcases mem_cons.mp hp with rfl | hp
    · exact ⟨k, le_rfl, rfl⟩
    · obtain ⟨i, hi, heq⟩ := ih hp
      exact ⟨i, by omega, heq⟩

theorem ranksFrom_snd_nodup (hrank : ∀ i j, rank i = rank j → i = j) (k : Nat)
    (order : List Nat) : ((ranksFrom rank k order).map Prod.snd).Nodup := by
  induction order generalizing k with
  | nil => exact nodup_nil
  | cons id rest ih =>
    refine nodup_cons.mpr ⟨?_, ih (k + 1)⟩
    intro hmem
    obtain ⟨p, hp, heq⟩ := mem_map.mp hmem
    obtain ⟨i, hi, hpi⟩ := ranksFrom_snd hp
    have hki : i = k := hrank i k (hpi.symm.trans heq)
    omega

theorem lookup_ranksFrom_none (hid : id ∉ order) : (ranksFrom rank k order).lookup id = none := by
  refine lookup_eq_none_iff.mpr ?_
  intro p hp
  have hne : id ≠ p.1 := by
    rintro rfl
    rw [← ranksFrom_keys rank k order] at hid
    exact hid (mem_map_of_mem hp)
  simpa using hne

section

variable (horder : order.Nodup)
include horder

theorem lookup_ranksFrom (hi : order[i]? = some id) :
    (ranksFrom rank k order).lookup id = some (rank (k + i)) := by
  induction order generalizing k i with
  | nil => exact nomatch hi
  | cons x rest ih =>
    obtain ⟨hnot, hrest⟩ := nodup_cons.mp horder
    cases i with
    | zero =>
      injection hi with hi
      subst hi
      exact lookup_cons_self
    | succ i =>
      have hne : (id == x) = false := by
        have : id ≠ x := by
          rintro rfl
          exact hnot (mem_of_getElem? hi)
        simpa using this
      show lookup id ((x, rank k) :: ranksFrom rank (k + 1) rest) = _
      rw [lookup_cons, hne]
      show lookup id (ranksFrom rank (k + 1) rest) = _
      rw [ih hrest hi]
      congr 2
      omega

section

variable (h : renumber t order = some t')
include h

/-- **A renumbering seats the entries it names by their places in the list, and leaves the
    others where they are.** -/
theorem renumber_spec :
    t'.rows = t.rows.map (rankOf (ranksFrom (fun index => index) 0 order)) ∧ t'.next = t.next ∧
      (∀ id ∈ order, ∃ e ∈ t.rows, e.id = id) ∧ (Spread t → Spread t') := by
  obtain ⟨m, hm, h⟩ := bind_eq_some_iff.mp h
  obtain ⟨hmrows, hmnext, hpresent, hmspread⟩ :=
    setRanks_spec (by rw [ranksFrom_keys]; exact horder) hm
  obtain ⟨hrows, hnext, -, hspread⟩ := setRanks_spec (by rw [ranksFrom_keys]; exact horder) h
  refine ⟨?_, hnext.trans hmnext, ?_, fun hs => hspread (hmspread hs)⟩
  · rw [hrows, hmrows, List.map_map]
    refine List.map_congr_left ?_
    intro e _
    by_cases hmem : e.id ∈ order
    · obtain ⟨i, hi⟩ := getElem?_of_mem hmem
      simp only [Function.comp, rankOf, lookup_ranksFrom horder hi, getD_some]
    · simp only [Function.comp, rankOf, lookup_ranksFrom_none hmem, getD_none]
  · intro id hid
    rw [← ranksFrom_keys (fun index => -(index + 1)) 0 order] at hid
    obtain ⟨p, hp, rfl⟩ := mem_map.mp hid
    exact hpresent p hp

theorem mem_renumber {e' : Entry}
    (he' : e' ∈ t'.rows) : ∃ e ∈ t.rows, e'.id = e.id ∧ e'.place = e.place ∧
      ((∃ i : Nat, order[i]? = some e.id ∧ e'.position = i) ∨
        e.id ∉ order ∧ e'.position = e.position) := by
  obtain ⟨hrows, -⟩ := renumber_spec horder h
  rw [hrows] at he'
  obtain ⟨e, he, rfl⟩ := mem_map.mp he'
  refine ⟨e, he, rfl, rfl, ?_⟩
  by_cases hmem : e.id ∈ order
  · obtain ⟨i, hi⟩ := getElem?_of_mem hmem
    refine .inl ⟨i, hi, ?_⟩
    show ((ranksFrom _ 0 order).lookup e.id).getD e.position = i
    rw [lookup_ranksFrom horder hi, Option.getD_some, Nat.zero_add]
  · refine .inr ⟨hmem, ?_⟩
    show ((ranksFrom _ 0 order).lookup e.id).getD e.position = e.position
    rw [lookup_ranksFrom_none hmem, getD_none]

theorem exists_renumber {e : Entry}
    (he : e ∈ t.rows) : ∃ e' ∈ t'.rows, e'.id = e.id ∧ e'.place = e.place := by
  obtain ⟨hrows, -⟩ := renumber_spec horder h
  refine ⟨rankOf (ranksFrom (fun index => index) 0 order) e, ?_, rfl, rfl⟩
  rw [hrows]
  exact mem_map_of_mem he

/-- The entries that are named stand in the order they are named in, from the first rank on. -/
def Seated (ids : List Nat) (t : Keyed Entry Entry.id) : Prop :=
  ∀ (i : Nat) (id : Nat), ids[i]? = some id → ∃ e ∈ t.rows, e.id = id ∧ e.position = i

/-- **A reorder seats the entries it names in the order it names.** -/
theorem reorder_seats : Seated order t' := by
  intro i id hi
  obtain ⟨hrows, -, hpresent, -⟩ := renumber_spec horder h
  obtain ⟨e, he, rfl⟩ := hpresent id (mem_of_getElem? hi)
  refine ⟨rankOf (ranksFrom (fun index => index) 0 order) e, ?_, rfl, ?_⟩
  · rw [hrows]
    exact mem_map_of_mem he
  · show ((ranksFrom _ 0 order).lookup e.id).getD e.position = i
    rw [lookup_ranksFrom horder hi, Option.getD_some, Nat.zero_add]

theorem renumber_natural
    (hnatural : ∀ e ∈ t.rows, 0 ≤ e.position) : ∀ e ∈ t'.rows, 0 ≤ e.position := by
  intro e' he'
  obtain ⟨e, he, -, -, ⟨i, -, hposition⟩ | ⟨-, hposition⟩⟩ := mem_renumber horder h he'
  · omega
  · exact hposition ▸ hnatural e he

end

end

theorem ranking_nodup (t : Keyed Entry Entry.id) : ((listEntries t).map Entry.id).Nodup :=
  ((Ranked.ranked_perm _ _).map Entry.id).nodup_iff.mpr t.nodup

theorem mem_ranking {e : Entry} (he : e ∈ t.rows) : e.id ∈ (listEntries t).map Entry.id :=
  mem_map_of_mem (Ranked.mem_ranked.mpr he)

theorem ranking_lt (hspread : Spread t) {a b : Entry} {i j : Nat} (ha : a ∈ t.rows)
    (hb : b ∈ t.rows) (hi : ((listEntries t).map Entry.id)[i]? = some a.id)
    (hj : ((listEntries t).map Entry.id)[j]? = some b.id) :
    i < j ↔ a.position < b.position := by
  have hentry : ∀ {e : Entry} {k : Nat}, e ∈ t.rows →
      ((listEntries t).map Entry.id)[k]? = some e.id → (listEntries t)[k]? = some e := by
    intro e k he hk
    rw [getElem?_map, map_eq_some_iff] at hk
    obtain ⟨x, hx, hxid⟩ := hk
    have hmem : x ∈ t.rows := Ranked.mem_ranked.mp (mem_of_getElem? hx)
    rw [hx, eq_of_id hmem he hxid]
  have hpositions : (t.rows.map Entry.position).Nodup := by
    rw [List.Nodup, pairwise_map]
    refine (List.Nodup.of_map _ t.nodup).imp_of_mem ?_
    intro a b ha hb hne hsame
    exact hne (hspread a ha b hb hsame)
  have hsorted := Ranked.ranked_ascending hpositions
  have hforth : ∀ {a b : Entry} {i j : Nat}, (listEntries t)[i]? = some a →
      (listEntries t)[j]? = some b → i < j → a.position < b.position := by
    intro a b i j ha hb hlt
    obtain ⟨hi, rfl⟩ := List.getElem?_eq_some_iff.mp ha
    obtain ⟨hj, rfl⟩ := List.getElem?_eq_some_iff.mp hb
    exact List.pairwise_iff_getElem.mp hsorted i j hi hj hlt
  have ha' := hentry ha hi
  have hb' := hentry hb hj
  constructor
  · exact hforth ha' hb'
  · intro hlt
    by_contra hnot
    rcases Nat.lt_or_eq_of_le (Nat.le_of_not_lt hnot) with hji | rfl
    · exact absurd (hforth hb' ha' hji) (by omega)
    · rw [ha'] at hb'
      injection hb' with hsame
      rw [hsame] at hlt
      exact lt_irrefl _ hlt

def SameOrder (t t' : Keyed Entry Entry.id) : Prop :=
  ∀ a ∈ t.rows, ∀ b ∈ t.rows, ∀ a' ∈ t'.rows, ∀ b' ∈ t'.rows, a'.id = a.id → b'.id = b.id →
    (a'.position < b'.position ↔ a.position < b.position)

/-- **Closing the gaps keeps the order.** -/
theorem closeGaps_keeps (hspread : Spread t) (h : closeGaps t = some t') : SameOrder t t' := by
  intro a ha b hb a' ha' b' hb' haid hbid
  have hnodup := ranking_nodup t
  have hseat : ∀ {e e' : Entry}, e ∈ t.rows → e' ∈ t'.rows → e'.id = e.id →
      ∃ i : Nat, ((listEntries t).map Entry.id)[i]? = some e.id ∧ e'.position = i := by
    intro e e' he he' hid
    obtain ⟨x, hx, hxid, -, ⟨i, hi, hposition⟩ | ⟨hnot, -⟩⟩ := mem_renumber hnodup h he'
    · exact ⟨i, by rw [hi, ← hxid, hid], hposition⟩
    · exact absurd (mem_ranking hx) hnot
  obtain ⟨i, hi, hapos⟩ := hseat ha ha' haid
  obtain ⟨j, hj, hbpos⟩ := hseat hb hb' hbid
  rw [← ranking_lt hspread ha hb hi hj, hapos, hbpos]
  omega

theorem closeGaps_isSome (hnatural : ∀ e ∈ t.rows, 0 ≤ e.position) : (closeGaps t).isSome := by
  have hnodup := ranking_nodup t
  have hpresent : ∀ (u : Keyed Entry Entry.id) (rank : Nat → Int),
      (∀ e ∈ t.rows, ∃ e' ∈ u.rows, e'.id = e.id) →
        ∀ p ∈ ranksFrom rank 0 ((listEntries t).map Entry.id), ∃ e ∈ u.rows, e.id = p.1 := by
    intro u rank hall p hp
    have hmem := mem_map_of_mem (f := Prod.fst) hp
    rw [ranksFrom_keys] at hmem
    obtain ⟨e, he, heid⟩ := mem_map.mp hmem
    obtain ⟨e', he', hid⟩ := hall e (Ranked.mem_ranked.mp he)
    exact ⟨e', he', hid.trans heid⟩
  have hpark : (setRanks t (ranksFrom (fun index => -(index + 1)) 0
      ((listEntries t).map Entry.id))).isSome := by
    refine setRanks_isSome (hpresent t _ fun e he => ⟨e, he, rfl⟩) ?_ ?_
    · exact ranksFrom_snd_nodup (fun i j hij => by omega) _ _
    · intro e he p hp hheld
      obtain ⟨i, -, hpi⟩ := ranksFrom_snd hp
      have := hnatural e he
      omega
  obtain ⟨parked, hparked⟩ := isSome_iff_exists.mp hpark
  obtain ⟨hrows, -⟩ := setRanks_spec (by rw [ranksFrom_keys]; exact hnodup) hparked
  have hseat : (setRanks parked (ranksFrom (fun index => index) 0
      ((listEntries t).map Entry.id))).isSome := by
    refine setRanks_isSome (hpresent parked _ fun e he => ?_) ?_ ?_
    · refine ⟨rankOf (ranksFrom (fun index => -(index + 1)) 0 ((listEntries t).map Entry.id)) e,
        ?_, rfl⟩
      rw [hrows]
      exact mem_map_of_mem he
    · exact ranksFrom_snd_nodup (fun i j hij => by omega) _ _
    · -- every row is parked
      intro e' he' p hp hheld
      obtain ⟨j, -, hpj⟩ := ranksFrom_snd hp
      rw [hrows] at he'
      obtain ⟨e, he, rfl⟩ := mem_map.mp he'
      obtain ⟨i, hi⟩ := getElem?_of_mem (mem_ranking he)
      have hpos : (rankOf (ranksFrom (fun index => -(index + 1)) 0
          ((listEntries t).map Entry.id)) e).position = -((0 + i : Nat) + 1) := by
        show ((ranksFrom _ 0 _).lookup e.id).getD e.position = _
        rw [lookup_ranksFrom hnodup hi, getD_some]
      omega
  show (renumber t _).isSome = true
  rw [renumber, hparked]
  exact hseat

/-! ## What a commit leaves -/

/-- Every view has an entry and no place has two, no two entries share a rank, none is negative,
    and an entry's view is stored. -/
structure Sound (s : Sidebar) : Prop where
  one : ∀ view ∈ s.views.rows, ∃ e ∈ s.entries.rows, e.place = .view view.id
  alone : ∀ a ∈ s.entries.rows, ∀ b ∈ s.entries.rows, a.place = b.place → a = b
  spread : Spread s.entries
  natural : ∀ e ∈ s.entries.rows, 0 ≤ e.position
  stored : ∀ e ∈ s.entries.rows, ∀ view, e.place = .view view → ∃ v ∈ s.views.rows, v.id = view

structure Moved (t t' : Keyed Entry Entry.id) : Prop where
  back : ∀ e' ∈ t'.rows, ∃ e ∈ t.rows, e.id = e'.id ∧ e.place = e'.place
  forth : ∀ e ∈ t.rows, ∃ e' ∈ t'.rows, e'.id = e.id ∧ e'.place = e.place
  next : t'.next = t.next

theorem moved_renumber (horder : order.Nodup) (h : renumber t order = some t') : Moved t t' where
  back := by
    intro e' he'
    obtain ⟨e, he, hid, hplace, -⟩ := mem_renumber horder h he'
    exact ⟨e, he, hid.symm, hplace.symm⟩
  forth := fun e he => exists_renumber horder h he
  next := (renumber_spec horder h).2.1

theorem Sound.moved {views : Keyed View View.id} (h : Sound { views := views, entries := t })
    (hmoved : Moved t t') (hspread : Spread t') (hnatural : ∀ e ∈ t'.rows, 0 ≤ e.position) :
    Sound { views := views, entries := t' } where
  one := by
    intro view hview
    obtain ⟨e, he, hplace⟩ := h.one view hview
    obtain ⟨e', he', -, hsame⟩ := hmoved.forth e he
    exact ⟨e', he', hsame.trans hplace⟩
  alone := by
    intro a' ha' b' hb' hplace
    obtain ⟨a, ha, haid, haplace⟩ := hmoved.back a' ha'
    obtain ⟨b, hb, hbid, hbplace⟩ := hmoved.back b' hb'
    have hsame : a = b := h.alone a ha b hb (haplace.trans (hplace.trans hbplace.symm))
    exact eq_of_id ha' hb' (haid.symm.trans ((congrArg Entry.id hsame).trans hbid))
  spread := hspread
  natural := hnatural
  stored := by
    intro e' he' view hplace
    obtain ⟨e, he, -, hsame⟩ := hmoved.back e' he'
    exact h.stored e he view (hsame.trans hplace)

/-- An entry is old, or newer than what any pass has read. -/
structure Grows (s s' : Sidebar) : Prop where
  entries : s.entries.next ≤ s'.entries.next
  views : s.views.next ≤ s'.views.next
  old : ∀ e' ∈ s'.entries.rows, (∃ e ∈ s.entries.rows, e.id = e'.id ∧ e.place = e'.place) ∨
    s.entries.next ≤ e'.id ∧ ∀ view, e'.place = .view view → s.views.next ≤ view

theorem grows_of_back (hentries : s'.entries.next = s.entries.next)
    (hviews : s'.views.next = s.views.next)
    (hback : ∀ e' ∈ s'.entries.rows, ∃ e ∈ s.entries.rows, e.id = e'.id ∧ e.place = e'.place) :
    Grows s s' where
  entries := hentries.ge
  views := hviews.ge
  old := fun e' he' => .inl (hback e' he')

/-- What holds of a pass's reads, however old they are. -/
def Remembers (s : Sidebar) : Pass → Prop
  | .createView position | .pinPage _ position => 0 ≤ position
  | .viewLoaded view => view < s.views.next
  | .deleteView view staged =>
    view < s.views.next ∧ (∀ id ∈ staged, id < s.entries.next) ∧
      ∀ e ∈ s.entries.rows, e.id ∈ staged ↔ e.place = .view view
  | .deleteEntry id =>
    id < s.entries.next ∧ ∀ e ∈ s.entries.rows, e.id = id → ∃ key, e.place = .page key
  | .reorderChecked ids | .reorderEntries ids => ids.Nodup
  | .pinChecked _ | .setEntryPinned _ _ => True

/-- **What a pass has read outlives a peer's commit.** -/
theorem Remembers.grow (h : Remembers s pass) (hgrows : Grows s s') : Remembers s' pass := by
  cases pass with
  | createView position | pinChecked key | pinPage key position | reorderChecked ids
  | reorderEntries ids => exact h
  | viewLoaded view => exact lt_of_lt_of_le h hgrows.views
  | deleteView view staged =>
    obtain ⟨hview, hstaged, hfound⟩ := h
    refine ⟨hview.trans_le hgrows.views, fun id hid => (hstaged id hid).trans_le hgrows.entries, ?_⟩
    intro e' he'
    rcases hgrows.old e' he' with ⟨e, he, hid, hplace⟩ | ⟨hnew, hnewView⟩
    · rw [← hid, ← hplace]
      exact hfound e he
    · constructor
      · intro hmem
        exact absurd (hstaged _ hmem) (not_lt.mpr hnew)
      · intro hplace
        exact absurd hview (not_lt.mpr (hnewView view hplace))
  | deleteEntry id =>
    obtain ⟨hid, hpage⟩ := h
    refine ⟨hid.trans_le hgrows.entries, ?_⟩
    intro e' he' hsame
    rcases hgrows.old e' he' with ⟨e, he, heid, hplace⟩ | ⟨hnew, -⟩
    · obtain ⟨key, hkey⟩ := hpage e he (heid.trans hsame)
      exact ⟨key, hplace.symm.trans hkey⟩
    · rw [hsame] at hnew
      exact absurd hid (not_lt.mpr hnew)
  | setEntryPinned id pinned => trivial

theorem nextPosition_natural (hnatural : ∀ e ∈ t.rows, 0 ≤ e.position) : 0 ≤ nextPosition t := by
  unfold nextPosition
  split
  · exact le_rfl
  · rename_i highest hmax
    obtain ⟨e, he, rfl⟩ := mem_map.mp (max?_eq_some_iff.mp hmax).1
    have := hnatural e he
    omega

theorem insertEntry_spec {place : Place} {position : Int}
    (h : insertEntry t place position = some t') :
    (∀ e ∈ t.rows, e.position ≠ position ∧ e.place ≠ place) ∧
      t' = t.insert { id := t.next, position := position, place := place } rfl := by
  unfold insertEntry at h
  split at h
  · exact nomatch h
  · rename_i hfree
    injection h with h
    refine ⟨?_, h.symm⟩
    intro e he
    constructor
    · intro hposition
      exact hfree (any_eq_true.mpr ⟨e, he, by simp [hposition]⟩)
    · intro hplace
      exact hfree (any_eq_true.mpr ⟨e, he, by simp [hplace]⟩)

theorem insert_leaves {place : Place} {position : Int} (hspread : Spread t)
    (halone : ∀ a ∈ t.rows, ∀ b ∈ t.rows, a.place = b.place → a = b)
    (h : insertEntry t place position = some t') :
    Spread t' ∧ (∀ a ∈ t'.rows, ∀ b ∈ t'.rows, a.place = b.place → a = b) ∧ SameOrder t t' := by
  obtain ⟨hfree, rfl⟩ := insertEntry_spec h
  refine ⟨?_, ?_, ?_⟩
  · intro a ha b hb hsame
    rcases (mem_insert rfl).mp ha with ha | rfl
    · rcases (mem_insert rfl).mp hb with hb | rfl
      · exact hspread a ha b hb hsame
      · exact absurd hsame (hfree a ha).1
    · rcases (mem_insert rfl).mp hb with hb | rfl
      · exact absurd hsame.symm (hfree b hb).1
      · rfl
  · intro a ha b hb hsame
    rcases (mem_insert rfl).mp ha with ha | rfl
    · rcases (mem_insert rfl).mp hb with hb | rfl
      · exact halone a ha b hb hsame
      · exact absurd hsame (hfree a ha).2
    · rcases (mem_insert rfl).mp hb with hb | rfl
      · exact absurd hsame.symm (hfree b hb).2
      · rfl
  · intro a ha b hb a' ha' b' hb' haid hbid
    have hold : ∀ {e e' : Entry}, e ∈ t.rows →
        e' ∈ (t.insert { id := t.next, position := position, place := place } rfl).rows →
        e'.id = e.id → e' = e := by
      intro e e' he he' hid
      exact eq_of_id he' ((mem_insert rfl).mpr (.inl he)) hid
    rw [hold ha ha' haid, hold hb hb' hbid]

theorem mem_foldl_delete {staged : List Nat} {e : Entry} :
    e ∈ (staged.foldl Keyed.delete t).rows ↔ e ∈ t.rows ∧ e.id ∉ staged := by
  induction staged generalizing t with
  | nil => simp
  | cons id rest ih =>
    show e ∈ (rest.foldl Keyed.delete (t.delete id)).rows ↔ _
    rw [ih]
    simp [Keyed.delete, and_assoc]

theorem next_foldl_delete (staged : List Nat) : (staged.foldl Keyed.delete t).next = t.next := by
  induction staged generalizing t with
  | nil => rfl
  | cons id rest ih => exact ih

/-- **A deletion keeps the order of the entries it leaves.** -/
theorem deletion_keeps {rest : Keyed Entry Entry.id} (hspread : Spread t)
    (hrest : ∀ e ∈ rest.rows, e ∈ t.rows) (h : closeGaps rest = some t') :
    SameOrder t t' := by
  intro a ha b hb a' ha' b' hb' haid hbid
  have hmoved := moved_renumber (ranking_nodup rest) h
  have hleft : ∀ {e e' : Entry}, e ∈ t.rows → e' ∈ t'.rows → e'.id = e.id → e ∈ rest.rows := by
    intro e e' he he' hid
    obtain ⟨x, hx, hxid, -⟩ := hmoved.back e' he'
    rw [← eq_of_id (hrest x hx) he (hxid.trans hid)]
    exact hx
  have hspread' : Spread rest := fun a ha b hb => hspread a (hrest a ha) b (hrest b hb)
  exact closeGaps_keeps hspread' h a (hleft ha ha' haid) b (hleft hb hb' hbid) a' ha' b' hb' haid
    hbid

theorem remembers_open {request : Request} (hsound : Sound s)
    (h : openPass s request = some pass) : Remembers s pass := by
  cases request with
  | createView =>
    injection h with h
    exact h ▸ nextPosition_natural hsound.natural
  | pinPage key =>
    rw [openPass] at h
    split at h
    · exact nomatch h
    · split at h
      · exact nomatch h
      · injection h with h
        exact h ▸ trivial
  | deleteView view =>
    obtain ⟨v, hv, rfl⟩ := map_eq_some_iff.mp h
    exact s.views.fresh v (get_eq_some hv).1
  | deleteEntry id =>
    obtain ⟨e, he, h⟩ := bind_eq_some_iff.mp h
    obtain ⟨hmem, hid⟩ := get_eq_some he
    split at h
    · rename_i key hplace
      injection h with h
      subst h
      refine ⟨hid ▸ s.entries.fresh e hmem, ?_⟩
      intro x hx hxid
      rw [eq_of_id hx hmem (hxid.trans hid.symm)]
      exact ⟨key, hplace⟩
    · exact nomatch h
  | setEntryPinned id pinned =>
    obtain ⟨e, he, h⟩ := bind_eq_some_iff.mp h
    split at h
    · exact nomatch h
    · split at h
      · exact nomatch h
      · injection h with h
        exact h ▸ trivial
  | reorderEntries ids =>
    rw [openPass] at h
    split at h
    · rename_i hnamed
      injection h with h
      exact h ▸ hnamed.1
    · exact nomatch h

theorem remembers_read {pass' : Pass} (hsound : Sound s) (hpass : Remembers s pass)
    (h : readOn s pass = some pass') : Remembers s pass' := by
  cases pass with
  | pinChecked key =>
    injection h with h
    exact h ▸ nextPosition_natural hsound.natural
  | viewLoaded view =>
    injection h with h
    subst h
    have hfound : ∀ e, e ∈ (listEntries s.entries).filter (fun e => e.place = .view view) ↔
        e ∈ s.entries.rows ∧ e.place = .view view := by
      simp [listEntries, mem_filter]
    refine ⟨hpass, ?_, ?_⟩
    · intro id hid
      obtain ⟨e, he, rfl⟩ := mem_map.mp hid
      exact s.entries.fresh e ((hfound e).mp he).1
    · intro e he
      constructor
      · intro hid
        obtain ⟨x, hx, hxid⟩ := mem_map.mp hid
        obtain ⟨hxmem, hplace⟩ := (hfound x).mp hx
        rw [← eq_of_id hxmem he hxid]
        exact hplace
      · intro hplace
        exact mem_map_of_mem ((hfound e).mpr ⟨he, hplace⟩)
  | reorderChecked ids =>
    rw [readOn] at h
    split at h
    · injection h with h
      exact h ▸ hpass
    · exact nomatch h
  | createView position | pinPage key position | deleteView view staged | deleteEntry id
  | setEntryPinned id pinned | reorderEntries ids =>
    injection h with h
    exact h ▸ hpass

/-! ## Commits -/

section

variable (h : Sound s)
include h

theorem Sound.createView {position : Int} (hposition : 0 ≤ position)
    (hcommit : commit s (.createView position) = some s') :
    Sound s' ∧ Grows s s' ∧ SameOrder s.entries s'.entries := by
  obtain ⟨t', hinsert, rfl⟩ := map_eq_some_iff.mp hcommit
  obtain ⟨hspread, halone, hsame⟩ := insert_leaves h.spread h.alone hinsert
  obtain ⟨-, rfl⟩ := insertEntry_spec hinsert
  refine ⟨⟨?_, halone, hspread, ?_, ?_⟩, ⟨le_succ _, le_succ _, ?_⟩, hsame⟩
  · intro view hview
    rcases (mem_insert rfl).mp hview with hview | rfl
    · obtain ⟨e, he, hplace⟩ := h.one view hview
      exact ⟨e, (mem_insert rfl).mpr (.inl he), hplace⟩
    · exact ⟨_, (mem_insert rfl).mpr (.inr rfl), rfl⟩
  · intro e he
    rcases (mem_insert rfl).mp he with he | rfl
    · exact h.natural e he
    · exact hposition
  · intro e he view hplace
    rcases (mem_insert rfl).mp he with he | rfl
    · obtain ⟨v, hv, hid⟩ := h.stored e he view hplace
      exact ⟨v, (mem_insert rfl).mpr (.inl hv), hid⟩
    · injection hplace with hview
      exact ⟨_, (mem_insert rfl).mpr (.inr rfl), hview⟩
  · intro e' he'
    rcases (mem_insert rfl).mp he' with he' | rfl
    · exact .inl ⟨e', he', rfl, rfl⟩
    · refine .inr ⟨le_rfl, ?_⟩
      intro view hplace
      injection hplace with hview
      exact hview.le

theorem Sound.pinPage {key : String} {position : Int} (hposition : 0 ≤ position)
    (hcommit : commit s (.pinPage key position) = some s') :
    Sound s' ∧ Grows s s' ∧ SameOrder s.entries s'.entries := by
  obtain ⟨t', hinsert, rfl⟩ := map_eq_some_iff.mp hcommit
  obtain ⟨hspread, halone, hsame⟩ := insert_leaves h.spread h.alone hinsert
  obtain ⟨-, rfl⟩ := insertEntry_spec hinsert
  refine ⟨⟨?_, halone, hspread, ?_, ?_⟩, ⟨le_succ _, le_rfl, ?_⟩, hsame⟩
  · intro view hview
    obtain ⟨e, he, hplace⟩ := h.one view hview
    exact ⟨e, (mem_insert rfl).mpr (.inl he), hplace⟩
  · intro e he
    rcases (mem_insert rfl).mp he with he | rfl
    · exact h.natural e he
    · exact hposition
  · intro e he view hplace
    rcases (mem_insert rfl).mp he with he | rfl
    · exact h.stored e he view hplace
    · exact nomatch hplace
  · intro e' he'
    rcases (mem_insert rfl).mp he' with he' | rfl
    · exact .inl ⟨e', he', rfl, rfl⟩
    · exact .inr ⟨le_rfl, nofun⟩

theorem Sound.closeGaps {views : Keyed View View.id} {rest : Keyed Entry Entry.id}
    (hrest : ∀ e ∈ rest.rows, e ∈ s.entries.rows) (hnext : rest.next = s.entries.next)
    (hviews : views.next = s.views.next)
    (hone : ∀ view ∈ views.rows, ∃ e ∈ rest.rows, e.place = .view view.id)
    (hstored : ∀ e ∈ rest.rows, ∀ view, e.place = .view view → ∃ v ∈ views.rows, v.id = view)
    (hclose : closeGaps rest = some t') :
    Sound { views := views, entries := t' } ∧ Grows s { views := views, entries := t' } ∧
      SameOrder s.entries t' := by
  have hnodup := ranking_nodup rest
  have hmoved := moved_renumber hnodup hclose
  have hsound : Sound { views := views, entries := rest } :=
    ⟨hone, fun a ha b hb => h.alone a (hrest a ha) b (hrest b hb),
      fun a ha b hb => h.spread a (hrest a ha) b (hrest b hb),
      fun e he => h.natural e (hrest e he), hstored⟩
  refine ⟨hsound.moved hmoved ((renumber_spec hnodup hclose).2.2.2 hsound.spread)
    (renumber_natural hnodup hclose hsound.natural), ?_, deletion_keeps h.spread hrest hclose⟩
  refine grows_of_back (hmoved.next.trans hnext) hviews ?_
  intro e' he'
  obtain ⟨e, he, hid, hplace⟩ := hmoved.back e' he'
  exact ⟨e, hrest e he, hid, hplace⟩

theorem Sound.deleteView {view : Nat} {staged : List Nat}
    (hfound : ∀ e ∈ s.entries.rows, e.id ∈ staged ↔ e.place = .view view)
    (hcommit : commit s (.deleteView view staged) = some s') :
    Sound s' ∧ Grows s s' ∧ SameOrder s.entries s'.entries := by
  unfold commit at hcommit
  dsimp only at hcommit
  split at hcommit
  · exact nomatch hcommit
  · obtain ⟨t', hclose, rfl⟩ := map_eq_some_iff.mp hcommit
    have hviews : ∀ v, v ∈ (s.views.delete view).rows ↔ v ∈ s.views.rows ∧ v.id ≠ view := by
      simp [Keyed.delete, mem_filter]
    refine h.closeGaps (fun e he => (mem_foldl_delete.mp he).1) (next_foldl_delete staged) rfl ?_ ?_
      hclose
    · intro v hv
      obtain ⟨hv, hne⟩ := (hviews v).mp hv
      obtain ⟨e, he, hplace⟩ := h.one v hv
      refine ⟨e, mem_foldl_delete.mpr ⟨he, ?_⟩, hplace⟩
      intro hmem
      have hsame := (hfound e he).mp hmem
      rw [hplace] at hsame
      injection hsame with hsame
      exact hne hsame
    · intro e he v hplace
      obtain ⟨he, hnot⟩ := mem_foldl_delete.mp he
      obtain ⟨x, hx, hxid⟩ := h.stored e he v hplace
      refine ⟨x, (hviews x).mpr ⟨hx, ?_⟩, hxid⟩
      rintro hsame
      exact hnot ((hfound e he).mpr (by rw [hplace, ← hxid, hsame]))

theorem Sound.deleteEntry (hpage : ∀ e ∈ s.entries.rows, e.id = id → ∃ key, e.place = .page key)
    (hcommit : commit s (.deleteEntry id) = some s') :
    Sound s' ∧ Grows s s' ∧ SameOrder s.entries s'.entries := by
  obtain ⟨t', hclose, rfl⟩ := map_eq_some_iff.mp hcommit
  have hmem : ∀ e, e ∈ (s.entries.delete id).rows ↔ e ∈ s.entries.rows ∧ e.id ≠ id := by
    simp [Keyed.delete, mem_filter]
  refine h.closeGaps (fun e he => ((hmem e).mp he).1) rfl rfl ?_ ?_ hclose
  · intro view hview
    obtain ⟨e, he, hplace⟩ := h.one view hview
    refine ⟨e, (hmem e).mpr ⟨he, ?_⟩, hplace⟩
    intro hid
    obtain ⟨key, hkey⟩ := hpage e he hid
    rw [hplace] at hkey
    exact nomatch hkey
  · intro e he view hplace
    exact h.stored e ((hmem e).mp he).1 view hplace

theorem Sound.setEntryPinned {pinned : Bool}
    (hcommit : commit s (.setEntryPinned id pinned) = some s') :
    Sound s' ∧ Grows s s' ∧ SameOrder s.entries s'.entries := by
  obtain ⟨-, -, rfl⟩ := map_eq_some_iff.mp hcommit
  have hback : ∀ e' ∈ (s.entries.update id (fun e => { e with pinned := pinned })
      fun _ => rfl).rows, ∃ e ∈ s.entries.rows, e.id = e'.id ∧ e.place = e'.place ∧
        e.position = e'.position := by
    intro e' he'
    rcases (mem_update _).mp he' with ⟨he', -⟩ | ⟨e, he, -, rfl⟩
    · exact ⟨e', he', rfl, rfl, rfl⟩
    · exact ⟨e, he, rfl, rfl, rfl⟩
  have hmoved : Moved s.entries (s.entries.update id (fun e => { e with pinned := pinned })
      fun _ => rfl) := by
    refine ⟨?_, ?_, rfl⟩
    · intro e' he'
      obtain ⟨e, he, hid, hplace, -⟩ := hback e' he'
      exact ⟨e, he, hid, hplace⟩
    · intro e he
      by_cases hid : e.id = id
      · exact ⟨_, (mem_update _).mpr (.inr ⟨e, he, hid, rfl⟩), rfl, rfl⟩
      · exact ⟨e, (mem_update _).mpr (.inl ⟨he, hid⟩), rfl, rfl⟩
  refine ⟨h.moved hmoved ?_ ?_, grows_of_back rfl rfl hmoved.back, ?_⟩
  · intro a' ha' b' hb' hsame
    obtain ⟨a, ha, haid, -, hapos⟩ := hback a' ha'
    obtain ⟨b, hb, hbid, -, hbpos⟩ := hback b' hb'
    have heq : a = b := h.spread a ha b hb (hapos.trans (hsame.trans hbpos.symm))
    exact eq_of_id ha' hb' (haid.symm.trans ((congrArg Entry.id heq).trans hbid))
  · intro e' he'
    obtain ⟨e, he, -, -, hposition⟩ := hback e' he'
    exact hposition ▸ h.natural e he
  · intro a ha b hb a' ha' b' hb' haid hbid
    obtain ⟨x, hx, hxid, -, hxpos⟩ := hback a' ha'
    obtain ⟨y, hy, hyid, -, hypos⟩ := hback b' hb'
    rw [← hxpos, ← hypos, eq_of_id hx ha (hxid.trans haid), eq_of_id hy hb (hyid.trans hbid)]

theorem Sound.reorderEntries {ids : List Nat} (hids : ids.Nodup)
    (hcommit : commit s (.reorderEntries ids) = some s') :
    Sound s' ∧ Grows s s' ∧ Seated ids s'.entries := by
  obtain ⟨t', hrenumber, rfl⟩ := map_eq_some_iff.mp hcommit
  have hmoved := moved_renumber hids hrenumber
  refine ⟨h.moved hmoved ((renumber_spec hids hrenumber).2.2.2 h.spread)
    (renumber_natural hids hrenumber h.natural), grows_of_back hmoved.next rfl hmoved.back,
    reorder_seats hids hrenumber⟩

/-- **What a commit leaves**: a sound sidebar, with the order there was, or the order a reorder
    names. -/
theorem commit_leaves (hpass : Remembers s pass) (hcommit : commit s pass = some s') :
    Sound s' ∧ Grows s s' ∧ ((∀ ids, pass ≠ .reorderEntries ids) → SameOrder s.entries s'.entries) ∧
      ∀ ids, pass = .reorderEntries ids → Seated ids s'.entries := by
  cases pass with
  | createView position =>
    obtain ⟨hsound, hgrows, hsame⟩ := h.createView hpass hcommit
    exact ⟨hsound, hgrows, fun _ => hsame, nofun⟩
  | pinPage key position =>
    obtain ⟨hsound, hgrows, hsame⟩ := h.pinPage hpass hcommit
    exact ⟨hsound, hgrows, fun _ => hsame, nofun⟩
  | deleteView view staged =>
    obtain ⟨hsound, hgrows, hsame⟩ := h.deleteView hpass.2.2 hcommit
    exact ⟨hsound, hgrows, fun _ => hsame, nofun⟩
  | deleteEntry id =>
    obtain ⟨hsound, hgrows, hsame⟩ := h.deleteEntry hpass.2 hcommit
    exact ⟨hsound, hgrows, fun _ => hsame, nofun⟩
  | setEntryPinned id pinned =>
    obtain ⟨hsound, hgrows, hsame⟩ := h.setEntryPinned hcommit
    exact ⟨hsound, hgrows, fun _ => hsame, nofun⟩
  | reorderEntries ids =>
    obtain ⟨hsound, hgrows, hseated⟩ := h.reorderEntries hpass hcommit
    refine ⟨hsound, hgrows, fun hnot => absurd rfl (hnot ids), ?_⟩
    intro ids' hids
    injection hids with hids
    exact hids ▸ hseated
  | pinChecked key | viewLoaded view | reorderChecked ids => exact nomatch hcommit

theorem deletion_commits (hpass : Remembers s pass)
    (hdeletion : (∃ id, pass = .deleteEntry id) ∨ ∃ view staged, pass = .deleteView view staged) :
    (commit s pass).isSome := by
  rcases hdeletion with ⟨id, rfl⟩ | ⟨view, staged, rfl⟩
  · have hclose : (Sidebars.closeGaps (s.entries.delete id)).isSome := by
      refine closeGaps_isSome fun e he => h.natural e ?_
      exact (mem_filter.mp he).1
    simpa [commit] using hclose
  · have hclose : (Sidebars.closeGaps (staged.foldl Keyed.delete s.entries)).isSome :=
      closeGaps_isSome fun e he => h.natural e (mem_foldl_delete.mp he).1
    have hkey : ¬ ((staged.foldl Keyed.delete s.entries).rows.any fun e =>
        e.place = .view view) = true := by
      intro hany
      obtain ⟨e, he, hplace⟩ := any_eq_true.mp hany
      obtain ⟨he, hnot⟩ := mem_foldl_delete.mp he
      exact hnot ((hpass.2.2 e he).mpr (by simpa using hplace))
    unfold commit
    dsimp only
    rw [if_neg hkey]
    simpa using hclose

end

structure Good (w : World) : Prop where
  sound : Sound w.sidebar
  remembered : ∀ session pass, w.passes session = some pass → Remembers w.sidebar pass

theorem Good.step (h : Good w) (e : Event) : Good (step w e) := by
  cases e with
  | start session request =>
    refine ⟨h.sound, ?_⟩
    intro other pass hpass
    by_cases hother : other = session
    · subst hother
      rw [show (Sidebars.step w (.start other request)).passes other = openPass w.sidebar request
        from update_self _ _ _] at hpass
      exact remembers_open h.sound hpass
    · rw [show (Sidebars.step w (.start session request)).passes other = w.passes other
        from update_of_ne hother _ _] at hpass
      exact h.remembered other pass hpass
  | read session =>
    refine ⟨h.sound, ?_⟩
    intro other pass hpass
    by_cases hother : other = session
    · subst hother
      rw [show (Sidebars.step w (.read other)).passes other =
        (w.passes other).bind (readOn w.sidebar) from update_self _ _ _] at hpass
      obtain ⟨before, hbefore, hread⟩ := bind_eq_some_iff.mp hpass
      exact remembers_read h.sound (h.remembered other before hbefore) hread
    · rw [show (Sidebars.step w (.read session)).passes other = w.passes other
        from update_of_ne hother _ _] at hpass
      exact h.remembered other pass hpass
  | write session =>
    have hleft : Sound (Sidebars.step w (.write session)).sidebar ∧
        Grows w.sidebar (Sidebars.step w (.write session)).sidebar := by
      show Sound (((w.passes session).bind (commit w.sidebar)).getD w.sidebar) ∧
        Grows w.sidebar (((w.passes session).bind (commit w.sidebar)).getD w.sidebar)
      cases hresult : (w.passes session).bind (commit w.sidebar) with
      | none => exact ⟨h.sound, ⟨le_rfl, le_rfl, fun e he => .inl ⟨e, he, rfl, rfl⟩⟩⟩
      | some after =>
        obtain ⟨pass, hpass, hcommit⟩ := bind_eq_some_iff.mp hresult
        have hleaves := commit_leaves h.sound (h.remembered session pass hpass) hcommit
        exact ⟨hleaves.1, hleaves.2.1⟩
    refine ⟨hleft.1, ?_⟩
    intro other pass hpass
    by_cases hother : other = session
    · subst hother
      rw [show (Sidebars.step w (.write other)).passes other = none
        from update_self _ _ _] at hpass
      exact nomatch hpass
    · rw [show (Sidebars.step w (.write session)).passes other = w.passes other
        from update_of_ne hother _ _] at hpass
      exact (h.remembered other pass hpass).grow hleft.2

/-- **The sidebar stays a total order.** In every interleaving each view has one entry, each page at
    most one, no two entries share a rank and none is negative; a reorder that commits leaves its
    entries in the order it names, and every other commit leaves the order there was. -/
theorem sidebar_ordered (start : Sidebar) (hstart : Sound start) (tr : List Event) (w : World)
    (hrun : Run Step { sidebar := start } tr w) :
    Sound w.sidebar ∧ ∀ session pass after, w.passes session = some pass →
      commit w.sidebar pass = some after →
        ((∀ ids, pass ≠ .reorderEntries ids) → SameOrder w.sidebar.entries after.entries) ∧
        ∀ ids, pass = .reorderEntries ids → Seated ids after.entries := by
  have h : Good w := by
    have hfirst : Good { sidebar := start } := by
      refine ⟨hstart, ?_⟩
      intro session pass hpass
      exact nomatch hpass
    refine hrun.invariant ?_ hfirst
    rintro w e w' h rfl
    exact h.step e
  refine ⟨h.sound, ?_⟩
  intro session pass after hpass hcommit
  exact (commit_leaves h.sound (h.remembered session pass hpass) hcommit).2.2

def bare : Sidebar := { views := Keyed.empty, entries := Keyed.empty }

/-- Two views, and a page that is pinned between the reads and the write of a reorder. -/
def overtaken : List Event :=
  [.start 0 .createView, .write 0, .start 0 .createView, .write 0,
    .start 1 (.reorderEntries [1, 0]), .read 1, .start 2 (.pinPage "queue"), .read 2, .write 2]

theorem sidebar_ordered_overtaken : ∃ after,
    commit (overtaken.foldl step { sidebar := bare }).sidebar (.reorderEntries [1, 0]) =
      some after ∧ Seated [1, 0] after.entries := by
  have hcommits : (commit (overtaken.foldl step { sidebar := bare }).sidebar
      (.reorderEntries [1, 0])).isSome := by
    decide +kernel
  have hpass : (overtaken.foldl step { sidebar := bare }).passes 1 =
      some (.reorderEntries [1, 0]) := by
    decide +kernel
  obtain ⟨after, hafter⟩ := isSome_iff_exists.mp hcommits
  have hbare : Sound bare := ⟨nofun, nofun, nofun, nofun, nofun⟩
  exact ⟨after, hafter, ((sidebar_ordered bare hbare overtaken _
    (Run.of_foldl (fun _ _ => rfl) _ _)).2 1 _ after hpass hafter).2 [1, 0] rfl⟩

/-- **A deletion is never refused.** In every interleaving one that is under way commits, and
    leaves the entries that stay in the order they had. -/
theorem deletions_commit (start : Sidebar) (hstart : Sound start) (tr : List Event) (w : World)
    (hrun : Run Step { sidebar := start } tr w) (session : Nat) (pass : Pass)
    (hpass : w.passes session = some pass)
    (hdeletion : (∃ id, pass = .deleteEntry id) ∨ ∃ view staged, pass = .deleteView view staged) :
    ∃ after, commit w.sidebar pass = some after ∧ Sound after ∧
      SameOrder w.sidebar.entries after.entries := by
  have h : Good w := by
    refine hrun.invariant ?_ (show Good { sidebar := start } from ⟨hstart, fun _ _ => nofun⟩)
    rintro w e w' h rfl
    exact h.step e
  have hknown := h.remembered session pass hpass
  obtain ⟨after, hafter⟩ := isSome_iff_exists.mp (deletion_commits h.sound hknown hdeletion)
  obtain ⟨hsound, -, hsame, -⟩ := commit_leaves h.sound hknown hafter
  refine ⟨after, hafter, hsound, hsame fun ids hids => ?_⟩
  rcases hdeletion with ⟨id, rfl⟩ | ⟨view, staged, rfl⟩ <;> exact nomatch hids

/-- A page is pinned between the reads of a deletion and its write. -/
def crowded : List Event :=
  [.start 0 .createView, .write 0, .start 1 (.deleteView 0), .read 1, .start 2 (.pinPage "queue"),
    .read 2, .write 2]

theorem deletions_commit_crowded : ∃ after,
    commit (crowded.foldl step { sidebar := bare }).sidebar (.deleteView 0 [0]) = some after :=
  have hbare : Sound bare := ⟨nofun, nofun, nofun, nofun, nofun⟩
  (deletions_commit bare hbare crowded _ (Run.of_foldl (fun _ _ => rfl) _ _) 1 _
    (by decide +kernel) (.inr ⟨0, [0], rfl⟩)).imp fun _ h => h.1

end Loregarden.Sidebars
