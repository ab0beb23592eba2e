import Mathlib.Data.List.InsertIdx
import Loregarden.LaneCalls

/-! # What a write does to the line of a lane

    The line of a lane is the answer to one query over the entries, so a write
    moves it by what it does to the rows that query selects. `Numbered` is the
    bookkeeping the lanes promise: the positions of a line read 1..N.

    A change of the entries is one of a few kinds.
    * `Shrinks`: entries only leave, and a numbered lane stays numbered.
    * `KeepsOrder moved`: two entries that were in one lane and are in one lane
      now come in the order they came in, unless one of them is in `moved`. -/

namespace Loregarden.Lanes

open Ranked
open List hiding beq_eq_decide

variable {L : LaneService} {t t' t'' : EntryTable} {n m : Nat} {f : QueuedRun → QueuedRun}

/-! ## Reading a line -/

theorem inLane_iff {e : QueuedRun} :
    e.inLane n = true ↔ e.status.waiting = true ∧ e.slotNumber = n := by
  simp [QueuedRun.inLane]

theorem place_lt_of_position {x y : QueuedRun} (h : x.position < y.position) :
    L.place x < L.place y :=
  Prod.Lex.toLex_lt_toLex.mpr (Or.inl h)

theorem position_le_of_place {x y : QueuedRun} (h : L.place x < L.place y) :
    x.position ≤ y.position := by
  rcases Prod.Lex.toLex_lt_toLex.mp h with h | h
  · exact h.le
  · exact h.1.le

theorem places_nodup (L : LaneService) (t : EntryTable) (q : QueuedRun → Bool) :
    ((t.rows.filter q).map L.place).Nodup := by
  have hids : ((t.rows.filter q).map (·.id)).Nodup := (filter_sublist.map _).nodup t.nodup
  refine List.Nodup.of_map (fun p => (ofLex (ofLex p).2).2) ?_
  rw [map_map]
  exact hids

theorem mem_waitingInLane {e : QueuedRun} :
    e ∈ waitingInLane L t n ↔ e ∈ t.rows ∧ e.inLane n = true := by
  rw [waitingInLane, mem_ranked, mem_filter]

theorem waitingInLane_ascending (L : LaneService) (t : EntryTable) (n : Nat) :
    Ascending L.place (waitingInLane L t n) :=
  ranked_ascending (places_nodup L t _)

theorem mem_line {i : EntryId} : i ∈ line L t n ↔ ∃ e ∈ t.rows, e.inLane n = true ∧ e.id = i := by
  simp only [line, mem_map, mem_waitingInLane, and_assoc]

theorem line_nodup (L : LaneService) (t : EntryTable) (n : Nat) : (line L t n).Nodup := by
  have hsub : ((t.rows.filter (·.inLane n)).map (·.id)).Nodup :=
    (filter_sublist.map _).nodup t.nodup
  exact ((ranked_perm _ _).map _).nodup_iff.mpr hsub

theorem line_unique {i : EntryId} (hn : i ∈ line L t n) (hm : i ∈ line L t m) : n = m := by
  obtain ⟨x, hx, hxn, rfl⟩ := mem_line.mp hn
  obtain ⟨y, hy, hym, hid⟩ := mem_line.mp hm
  obtain rfl := Keyed.eq_of_id hy hx hid
  exact (inLane_iff.mp hxn).2.symm.trans (inLane_iff.mp hym).2

theorem precedes_line_iff {a c : EntryId} : Precedes a c (line L t n) ↔
      ∃ x ∈ t.rows, ∃ y ∈ t.rows, x.inLane n = true ∧ y.inLane n = true ∧
        x.id = a ∧ y.id = c ∧ L.place x < L.place y := by
  constructor
  · intro h
    obtain ⟨xs, hxs, hmap⟩ := sublist_map_iff.mp h
    obtain ⟨x, y, rfl⟩ : ∃ x y, xs = [x, y] := by
      have hlen : xs.length = 2 := by
        have := congrArg length hmap
        simpa using this.symm
      exact length_eq_two.mp hlen
    obtain ⟨hx, hxn⟩ := mem_waitingInLane.mp (hxs.subset mem_cons_self)
    obtain ⟨hy, hyn⟩ := mem_waitingInLane.mp
      (hxs.subset (mem_cons_of_mem _ mem_cons_self))
    have hlt := pairwise_iff_forall_sublist.mp (waitingInLane_ascending L t n) hxs
    simp only [map_cons, map_nil, cons.injEq, and_true] at hmap
    exact ⟨x, hx, y, hy, hxn, hyn, hmap.1.symm, hmap.2.symm, hlt⟩
  · rintro ⟨x, hx, y, hy, hxn, hyn, rfl, rfl, hlt⟩
    have hxw : x ∈ waitingInLane L t n := mem_waitingInLane.mpr ⟨hx, hxn⟩
    have hyw : y ∈ waitingInLane L t n := mem_waitingInLane.mpr ⟨hy, hyn⟩
    have hne : x ≠ y := fun e => lt_irrefl _ (e ▸ hlt)
    rcases precedes_or hxw hyw hne with h | h
    · exact h.map (·.id)
    · exact absurd (pairwise_iff_forall_sublist.mp (waitingInLane_ascending L t n) h)
        (lt_asymm hlt)

/-! ## Writes -/

section

variable (hrows : t'.rows = t.rows.map f)
include hrows

/-- **A write that puts nothing into a lane** leaves it the rows that stay, written in place. -/
theorem waitingInLane_write
    (h : ∀ e ∈ t.rows, (f e).inLane n = true → e.inLane n = true ∧ L.place (f e) = L.place e) :
    waitingInLane L t' n
      = ((waitingInLane L t n).filter fun e => (f e).inLane n).map f := by
  have hsel : t'.rows.filter (·.inLane n)
      = ((t.rows.filter (·.inLane n)).filter fun e => (f e).inLane n).map f := by
    rw [hrows, filter_map, filter_filter]
    congr 1
    refine filter_congr fun e he => ?_
    cases hfe : (f e).inLane n with
    | false => simp [hfe]
    | true => simp [hfe, (h e he hfe).1]
  rw [waitingInLane, waitingInLane, hsel, ← ranked_filter (places_nodup L t _), filter_filter]
  refine ranked_map (places_nodup L t _) fun e he => ?_
  obtain ⟨he, hq⟩ := mem_filter.mp he
  exact (h e he (Bool.and_eq_true_iff.mp hq).1).2

theorem waitingInLane_frame
    (h : ∀ e ∈ t.rows, e.inLane n = true ∨ (f e).inLane n = true → f e = e) :
    waitingInLane L t' n = waitingInLane L t n := by
  have hstay : ∀ e ∈ waitingInLane L t n, f e = e := by
    intro e he
    obtain ⟨he, hn⟩ := mem_waitingInLane.mp he
    exact h e he (Or.inl hn)
  have hback : ∀ e ∈ t.rows, (f e).inLane n = true →
      e.inLane n = true ∧ L.place (f e) = L.place e := by
    intro e he hfe
    have hsame := h e he (Or.inr hfe)
    rw [hsame] at hfe ⊢
    exact ⟨hfe, rfl⟩
  rw [waitingInLane_write hrows hback, filter_eq_self.mpr, map_congr_left hstay,
    map_id']
  intro e he
  rw [hstay e he]
  exact (mem_waitingInLane.mp he).2

theorem waitingInLane_touch
    (h : ∀ e ∈ t.rows, (f e).inLane n = e.inLane n ∧ L.place (f e) = L.place e) :
    waitingInLane L t' n = (waitingInLane L t n).map f := by
  rw [waitingInLane_write hrows fun e he hfe => ⟨(h e he).1 ▸ hfe, (h e he).2⟩,
    filter_eq_self.mpr]
  intro e he
  obtain ⟨he, hn⟩ := mem_waitingInLane.mp he
  rw [(h e he).1]
  exact hn

end

theorem waitingInLane_delete (i : EntryId) :
    waitingInLane L (t.delete i) n = (waitingInLane L t n).filter fun e => e.id ≠ i := by
  rw [waitingInLane, waitingInLane, ← ranked_filter (places_nodup L t _)]
  show ranked L.place ((t.rows.filter _).filter _) = _
  rw [filter_filter, filter_filter]
  refine congrArg _ (filter_congr fun e _ => Bool.and_comm _ _)

theorem waitingInLane_insert_last {e : QueuedRun} (he : e.id = t.next)
    (hn : e.inLane n = true) (h : ∀ x ∈ waitingInLane L t n, x.position < e.position) :
    waitingInLane L (t.insert e he) n = waitingInLane L t n ++ [e] := by
  show ranked L.place ((t.rows ++ [e]).filter _) = _
  rw [filter_append, filter_singleton, hn]
  refine ranked_snoc fun x hx => ?_
  exact (place_lt_of_position (h x (mem_ranked.mpr hx))).le

theorem waitingInLane_insert_frame {e : QueuedRun} (he : e.id = t.next)
    (hn : e.inLane n = false) : waitingInLane L (t.insert e he) n = waitingInLane L t n := by
  show ranked L.place ((t.rows ++ [e]).filter _) = _
  rw [filter_append, filter_singleton, hn]
  simp [waitingInLane]

/-- **Several entries put behind a line**: the rows `q` selects join it, all above
    the ones there. -/
theorem waitingInLane_join {q : QueuedRun → Bool} (hrows : t'.rows = t.rows.map f)
    (hin : ∀ e ∈ t.rows, (f e).inLane n = (e.inLane n || q e))
    (hout : ∀ e ∈ t.rows, q e = true → e.inLane n = false)
    (hplace : ∀ e ∈ t.rows, L.place (f e) = L.place e)
    (hstay : ∀ e ∈ t.rows, e.inLane n = true → f e = e)
    (habove : ∀ x ∈ waitingInLane L t n, ∀ y ∈ t.rows, q y = true → x.position < y.position) :
    waitingInLane L t' n = waitingInLane L t n ++ (ranked L.place (t.rows.filter q)).map f := by
  have hnodup := List.Nodup.of_map _ t.nodup
  have hwait : (waitingInLane L t n).map f = waitingInLane L t n := by
    rw [map_congr_left (g := fun e => e) fun e he => ?_, map_id']
    obtain ⟨he, hn⟩ := mem_waitingInLane.mp he
    exact hstay e he hn
  refine ranked_eq ?_ ?_
  · -- the rows now in the lane are those that were and those that join
    rw [hrows, filter_map]
    nth_rewrite 1 [← hwait]
    rw [← map_append]
    refine List.Perm.map f ?_
    refine (((ranked_perm _ _).append (ranked_perm _ _)).trans ?_)
    refine (perm_ext_iff_of_nodup ?_ (hnodup.filter _)).mpr fun e => ?_
    · refine nodup_append'.mpr ⟨hnodup.filter _, hnodup.filter _, fun e h1 h2 => ?_⟩
      obtain ⟨he, hn⟩ := mem_filter.mp h1
      rw [hout e he (mem_filter.mp h2).2] at hn
      cases hn
    · simp only [mem_append, mem_filter, Function.comp_apply, ← and_or_left]
      refine and_congr_right fun he => ?_
      rw [hin e he, Bool.or_eq_true]
  · refine pairwise_append.mpr ⟨waitingInLane_ascending L t n, ?_, fun x hx y hy => ?_⟩
    · rw [pairwise_map]
      refine (ranked_ascending (places_nodup L t q)).imp_of_mem fun ha hb h => ?_
      rw [hplace _ (mem_filter.mp (mem_ranked.mp ha)).1,
        hplace _ (mem_filter.mp (mem_ranked.mp hb)).1]
      exact h
    · obtain ⟨z, hz, rfl⟩ := mem_map.mp hy
      obtain ⟨hz, hq⟩ := mem_filter.mp (mem_ranked.mp hz)
      rw [hplace z hz]
      exact place_lt_of_position (habove x hx z hz hq)

section OneEntry

variable {i : EntryId} {g : QueuedRun → QueuedRun}

section

variable {e : QueuedRun} (hrows : t'.rows = t.rows.map fun e => if e.id = i then g e else e)
include hrows

theorem waitingInLane_take
    (h : ∀ e ∈ t.rows, e.id = i → (g e).inLane n = false) :
    waitingInLane L t' n = (waitingInLane L t n).filter fun e => e.id ≠ i := by
  rw [waitingInLane_write hrows fun e he hfe => ?_]
  · have hfilter : (waitingInLane L t n).filter (fun e => (if e.id = i then g e else e).inLane n)
        = (waitingInLane L t n).filter fun e => e.id ≠ i := by
      refine filter_congr fun e he => ?_
      obtain ⟨he, hn⟩ := mem_waitingInLane.mp he
      by_cases hi : e.id = i
      · simp [hi, h e he hi]
      · simp [hi, hn]
    rw [hfilter, map_congr_left (g := fun e => e) fun e he => ?_, map_id']
    have hi := (mem_filter.mp he).2
    rw [if_neg (by simpa using hi)]
  · by_cases hi : e.id = i
    · rw [if_pos hi, h e he hi] at hfe
      cases hfe
    · rw [if_neg hi] at hfe ⊢
      exact ⟨hfe, rfl⟩

theorem waitingInLane_put (he : e ∈ t.rows)
    (hi : e.id = i) (hg : (g e).id = i) (hn : (g e).inLane n = true)
    (h : ∀ x ∈ waitingInLane L t n, x.id ≠ i → x.position < (g e).position) :
    waitingInLane L t' n = ((waitingInLane L t n).filter fun x => x.id ≠ i) ++ [g e] := by
  have hnodup := List.Nodup.of_map _ t.nodup
  have hnodup' := List.Nodup.of_map _ t'.nodup
  refine ranked_eq ?_ ?_
  · refine (((ranked_perm _ _).filter _).append_right _).trans ?_
    refine (perm_ext_iff_of_nodup ?_ (hnodup'.filter _)).mpr fun x => ?_
    · refine nodup_append'.mpr
        ⟨(hnodup.filter _).filter _, nodup_singleton _, fun x h1 h2 => ?_⟩
      rw [mem_singleton.mp h2] at h1
      exact of_decide_eq_true (mem_filter.mp h1).2 hg
    · simp only [mem_append, mem_filter, mem_singleton, decide_eq_true_eq]
      rw [hrows, mem_map]
      constructor
      · rintro (⟨⟨hx, hxn⟩, hxi⟩ | rfl)
        · exact ⟨⟨x, hx, if_neg hxi⟩, hxn⟩
        · exact ⟨⟨e, he, if_pos hi⟩, hn⟩
      · rintro ⟨⟨y, hy, rfl⟩, hxn⟩
        by_cases hyi : y.id = i
        · obtain rfl := Keyed.eq_of_id hy he (hyi.trans hi.symm)
          exact Or.inr (if_pos hyi)
        · rw [if_neg hyi] at hxn ⊢
          exact Or.inl ⟨⟨hy, hxn⟩, hyi⟩
  · refine pairwise_append.mpr
      ⟨(waitingInLane_ascending L t n).filter _, pairwise_singleton _ _, fun x hx y hy => ?_⟩
    obtain ⟨hx, hxi⟩ := mem_filter.mp hx
    rw [mem_singleton.mp hy]
    exact place_lt_of_position (h x hx (of_decide_eq_true hxi))

end

end OneEntry

/-! ## Renumbering -/

theorem newOrder_perm {waiting : List EntryId} (hn : waiting.Nodup)
    (insertAt : Option (EntryId × Int)) : (newOrder waiting insertAt).Perm waiting := by
  cases insertAt with
  | none => exact List.Perm.refl _
  | some ins =>
    obtain ⟨moved, target⟩ := ins
    rw [newOrder]
    by_cases hm : moved ∈ waiting
    · rw [if_pos hm]
      refine (perm_insertIdx _ _ ?_).trans ?_
      · omega
      · have herase : waiting.filter (fun x => decide (x ≠ moved)) = waiting.erase moved := by
          rw [hn.erase_eq_filter]
          exact filter_congr fun x _ => by simp [bne, beq_eq_decide]
        rw [herase]
        exact (perm_cons_erase hm).symm
    · rw [if_neg hm]

theorem filter_sublist_newOrder (waiting : List EntryId) (moved : EntryId) (target : Int) :
    (waiting.filter (· ≠ moved)).Sublist (newOrder waiting (some (moved, target))) := by
  rw [newOrder]
  split
  · exact sublist_insertIdx _ _ _
  · exact filter_sublist

@[simp] theorem numbered_inLane (order : List EntryId) (e : QueuedRun) :
    (numbered order e).inLane n = e.inLane n := by
  unfold numbered
  split <;> rfl

def Numbered (L : LaneService) (t : EntryTable) (n : Nat) : Prop :=
  Counted QueuedRun.position 1 (waitingInLane L t n)

theorem Numbered.position_le (h : Numbered L t n) {e : QueuedRun}
    (he : e ∈ waitingInLane L t n) : e.position ≤ (waitingInLane L t n).length := by
  have hlt := (h.lt he).2
  omega

theorem Numbered.position_lt (h : Numbered L t n) {x y : QueuedRun}
    (hx : x ∈ waitingInLane L t n) (hy : y ∈ waitingInLane L t n) (hlt : L.place x < L.place y) :
    x.position < y.position := by
  have hnodup : ((waitingInLane L t n).map (·.position)).Nodup := h ▸ nodup_range'
  refine lt_of_le_of_ne (position_le_of_place hlt) fun heq => ?_
  rw [inj_on_of_nodup_map hnodup hx hy heq] at hlt
  exact lt_irrefl _ hlt

private theorem filterMap_get {l : List QueuedRun} (h : ∀ e ∈ l, e ∈ t.rows) :
    (l.map (·.id)).filterMap t.get = l := by
  rw [filterMap_map]
  have hget : ∀ e ∈ l, (t.get ∘ fun e => e.id) e = some e := fun e he => Keyed.get_of_mem (h e he)
  rw [filterMap_congr hget, filterMap_some]

private theorem numbered_filterMap_get {order : List EntryId}
    (h : ∀ i ∈ order, ∃ e ∈ t.rows, e.id = i) :
    ((order.filterMap t.get).map (numbered order)).map (fun e => (e.id, e.position))
      = order.map fun i => (i, order.idxOf i + 1) := by
  have hrow : ∀ l : List EntryId, l ⊆ order →
      ((l.filterMap t.get).map (numbered order)).map (fun e => (e.id, e.position))
        = l.map fun i => (i, order.idxOf i + 1) := by
    intro l hl
    induction l with
    | nil => rfl
    | cons i l ih =>
      obtain ⟨hi, hrest⟩ := cons_subset.mp hl
      obtain ⟨e, he, rfl⟩ := h i hi
      rw [filterMap_cons_some (Keyed.get_of_mem he), map_cons, map_cons, ih hrest,
        map_cons, numbered, if_pos hi]
  exact hrow order (List.Subset.refl _)

/-- **Renumbering** gives a lane the order asked for, and positions 1..N. -/
theorem renumber_spec (L : LaneService) (t : EntryTable) (n : Nat)
    (insertAt : Option (EntryId × Int)) :
    line L (renumber L n insertAt t) n = newOrder (line L t n) insertAt ∧
      Numbered L (renumber L n insertAt t) n := by
  have hperm := newOrder_perm (line_nodup L t n) insertAt
  have hnodup : (newOrder (line L t n) insertAt).Nodup := hperm.nodup_iff.mpr (line_nodup L t n)
  have hmem : ∀ i ∈ newOrder (line L t n) insertAt, ∃ e ∈ t.rows, e.id = i := by
    intro i hi
    obtain ⟨e, he, -, hid⟩ := mem_line.mp (hperm.mem_iff.mp hi)
    exact ⟨e, he, hid⟩
  have hpairs := numbered_filterMap_get hmem
  have hids := congrArg (map Prod.fst) hpairs
  have hpos := congrArg (map Prod.snd) hpairs
  simp only [map_map, Function.comp_def, map_id'] at hids hpos
  rw [map_idxOf_eq hnodup] at hpos
  have hcount : Counted QueuedRun.position 1
      (((newOrder (line L t n) insertAt).filterMap t.get).map
        (numbered (newOrder (line L t n) insertAt))) := by
    rw [Counted, map_map]
    have hlen := congrArg length hids
    rw [length_map] at hlen
    rw [length_map, hlen]
    exact hpos
  -- the rows in the order asked for, renumbered, are the lane as it now reads
  have hread : waitingInLane L (renumber L n insertAt t) n
      = ((newOrder (line L t n) insertAt).filterMap t.get).map
          (numbered (newOrder (line L t n) insertAt)) := by
    refine ranked_eq ?_ (hcount.ascending.imp fun h => place_lt_of_position h)
    show List.Perm _ ((t.rows.map _).filter _)
    rw [filter_map]
    have hsame : ((fun e : QueuedRun => e.inLane n) ∘ numbered (newOrder (line L t n) insertAt))
        = fun e => e.inLane n := funext fun e => numbered_inLane _ e
    rw [hsame]
    refine List.Perm.map _ ((hperm.filterMap _).trans ?_)
    rw [line, filterMap_get fun e he => (mem_waitingInLane.mp he).1]
    exact ranked_perm _ _
  constructor
  · rw [line, hread, map_map]
    exact hids
  · rw [Numbered, hread]
    exact hcount

theorem renumber_frame (insertAt : Option (EntryId × Int)) (h : m ≠ n) :
    waitingInLane L (renumber L n insertAt t) m = waitingInLane L t m := by
  refine waitingInLane_frame rfl fun e he hin => ?_
  rw [numbered_inLane, or_self] at hin
  rw [numbered, if_neg]
  intro hmem
  have hmem := (newOrder_perm (line_nodup L t n) insertAt).mem_iff.mp hmem
  exact h (line_unique (mem_line.mpr ⟨e, he, hin, rfl⟩) hmem)

theorem renumber_line (L : LaneService) (t : EntryTable) (n m : Nat) :
    line L (renumber L n none t) m = line L t m := by
  by_cases h : m = n
  · subst h
    exact (renumber_spec L t m none).1
  · rw [line, renumber_frame none h, line]

theorem renumber_numbered (h : m = n ∨ Numbered L t m) (insertAt : Option (EntryId × Int)) :
    Numbered L (renumber L n insertAt t) m := by
  by_cases hmn : m = n
  · subst hmn
    exact (renumber_spec L t m insertAt).2
  · rw [Numbered, renumber_frame insertAt hmn]
    exact h.resolve_left hmn

theorem renumberLanes_spec (L : LaneService) (lanes : List Nat) (t : EntryTable) :
    (∀ m, line L (renumberLanes L lanes t) m = line L t m) ∧
      ∀ m, m ∈ lanes ∨ Numbered L t m → Numbered L (renumberLanes L lanes t) m := by
  induction lanes generalizing t with
  | nil =>
    refine ⟨fun m => rfl, fun m h => ?_⟩
    exact h.resolve_left not_mem_nil
  | cons n lanes ih =>
    obtain ⟨hline, hnum⟩ := ih (renumber L n none t)
    refine ⟨fun m => (hline m).trans (renumber_line L t n m), fun m h => hnum m ?_⟩
    rcases h with h | h
    · rcases mem_cons.mp h with rfl | h
      · exact Or.inr (renumber_numbered (Or.inl rfl) none)
      · exact Or.inl h
    · exact Or.inr (renumber_numbered (Or.inr h) none)

end Loregarden.Lanes
