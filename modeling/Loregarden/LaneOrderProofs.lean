import Loregarden.RunProofs
import Loregarden.LaneDrainProofs

/-! # The order of the lanes

    What each call on the lanes does to the order of the waiting entries, and
    what a run of calls keeps.

    * `InOrder`: the waiting positions of every live lane read 1..N.
    * `KeepsOrder moved`: two entries that were in one lane, and are in one lane
      now, come in the order they came in, unless one of them is in `moved`.
    * `Behind joined`: an entry of `joined` that waits now comes behind every
      other that was already waiting in its lane.
    * `PutAll`: entries put one after the other behind a line. -/

namespace Loregarden.Lanes

open Ranked Runs List Nat

variable {L : LaneService} {t t' t'' : EntryTable} {n m : Nat} {i : EntryId}
variable {moved ids : List EntryId} {lane : Nat} {a c : EntryId} {e : QueuedRun}

/-! ## What is kept -/

/-- The waiting positions of every live lane read 1..N. -/
def InOrder (L : LaneService) (t : EntryTable) : Prop := ∀ n, L.Live n → Numbered L t n

/-- Entries of one lane that are in one lane now come in the order they came in. -/
def KeepsOrder (L : LaneService) (moved : List EntryId) (t t' : EntryTable) : Prop :=
  ∀ m n a c, a ∉ moved → c ∉ moved → Precedes a c (line L t m) →
    a ∈ line L t' n → c ∈ line L t' n → Precedes a c (line L t' n)

/-- Entries that join a lane come behind all that waited in it. -/
def Behind (L : LaneService) (joined : List EntryId) (t t' : EntryTable) : Prop :=
  ∀ n i a, i ∈ joined → i ∈ line L t' n → a ∉ joined → a ∈ line L t n → Precedes a i (line L t' n)

theorem Shrinks.inOrder (h : Shrinks L t t') (ho : InOrder L t) : InOrder L t' :=
  fun n hn => h.numbered n (ho n hn)

theorem Behind.none : Behind L [] t t' := fun _ _ _ hi => absurd hi not_mem_nil

theorem KeepsOrder.sublist (h : KeepsOrder L moved t t')
    (hs : ∀ n, (line L t'' n).Sublist (line L t' n)) : KeepsOrder L moved t t'' := by
  intro m n a c ha hc hac ha' hc'
  have hsub := hs n
  exact (h m n a c ha hc hac (hsub.subset ha') (hsub.subset hc')).of_sublist
    (line_nodup L t' n) hsub ha' hc'

theorem KeepsOrder.grow (h : KeepsOrder L moved t t')
    (hin : ∀ n i, i ∈ line L t n → i ∈ line L t' n) (h' : KeepsOrder L moved t' t'') :
    KeepsOrder L moved t t'' := by
  intro m n a c ha hc hac ha' hc'
  have hmid := h m m a c ha hc hac (hin m a hac.mem_left) (hin m c hac.mem_right)
  exact h' m n a c ha hc hmid ha' hc'

theorem KeepsOrder.of_filter
    (h : ∀ n, (line L t' n).filter (· ∉ moved) = (line L t n).filter (· ∉ moved)) :
    KeepsOrder L moved t t' := by
  intro m n a c ha hc hac ha' hc'
  have hback : ∀ x, x ∉ moved → x ∈ line L t' n → x ∈ (line L t n).filter (· ∉ moved) := by
    intro x hx hx'
    rw [← h n]
    exact mem_filter.mpr ⟨hx', decide_eq_true hx⟩
  have hleft := hback a ha ha'
  obtain rfl := line_unique hac.mem_left (mem_filter.mp hleft).1
  have hkept : Precedes a c ((line L t m).filter (· ∉ moved)) :=
    hac.of_sublist (line_nodup L t m) filter_sublist hleft (hback c hc hc')
  exact (h m ▸ hkept).mono filter_sublist

theorem KeepsOrder.of_shrinks (hs : Shrinks L t t') (moved : List EntryId) :
    KeepsOrder L moved t t' :=
  KeepsOrder.sublist (KeepsOrder.of_filter fun _ => rfl) hs.sublist

theorem KeepsOrder.of_places
    (h : ∀ x ∈ t.rows, ∀ x' ∈ t'.rows, x'.id = x.id → x.status.waiting = true →
      x'.status.waiting = true → x'.slotNumber = x.slotNumber ∧ L.place x' = L.place x) :
    KeepsOrder L moved t t' := by
  intro m n a c _ _ hac ha hc
  obtain ⟨x, hx, y, hy, hxm, hym, rfl, rfl, hlt⟩ := precedes_line_iff.mp hac
  obtain ⟨x', hx', hxn, hxid⟩ := mem_line.mp ha
  obtain ⟨y', hy', hyn, hyid⟩ := mem_line.mp hc
  have hxs := h x hx x' hx' hxid (inLane_iff.mp hxm).1 (inLane_iff.mp hxn).1
  have hys := h y hy y' hy' hyid (inLane_iff.mp hym).1 (inLane_iff.mp hyn).1
  refine precedes_line_iff.mpr ⟨x', hx', y', hy', hxn, hyn, hxid, hyid, ?_⟩
  rw [hxs.2, hys.2]
  exact hlt

/-! ## Entries put behind a line -/

/-- One entry is put behind the line of a lane, out of whatever lane it was in. -/
def PutLast (L : LaneService) (i : EntryId) (lane : Nat) (t t' : EntryTable) : Prop :=
  ∀ n, line L t' n = (line L t n).filter (· ≠ i) ++ if n = lane then [i] else []

section

variable (h : PutLast L i lane t t')
include h

theorem PutLast.mem_of_ne (ha : a ≠ i) : a ∈ line L t' n ↔ a ∈ line L t n := by
  rw [h n, mem_append, mem_filter]
  constructor
  · rintro (hmem | hmem)
    · exact hmem.1
    · split at hmem
      · exact absurd (mem_singleton.mp hmem) ha
      · exact absurd hmem not_mem_nil
  · exact fun hmem => .inl ⟨hmem, decide_eq_true ha⟩

theorem PutLast.mem_self : i ∈ line L t' n ↔ n = lane := by
  rw [h n, mem_append]
  constructor
  · rintro (hmem | hmem)
    · exact absurd rfl (of_decide_eq_true (mem_filter.mp hmem).2)
    · by_contra hne
      rw [if_neg hne] at hmem
      exact absurd hmem not_mem_nil
  · intro hn
    rw [if_pos hn]
    exact .inr mem_cons_self

theorem PutLast.filter (n : Nat) :
    (line L t' n).filter (· ∉ [i]) = (line L t n).filter (· ∉ [i]) := by
  rw [h n, filter_append, filter_filter]
  have hlast : (if n = lane then [i] else []).filter (· ∉ [i]) = [] := by
    split <;> simp
  rw [hlast, append_nil]
  exact filter_congr fun x _ => by simp

theorem PutLast.keepsOrder : KeepsOrder L [i] t t' := KeepsOrder.of_filter h.filter

theorem PutLast.behind : Behind L [i] t t' := by
  intro n j a hj hmem ha hin
  obtain rfl := mem_singleton.mp hj
  have hne : a ≠ j := fun e => ha (mem_singleton.mpr e)
  have hn := h.mem_self.mp hmem
  rw [h n, if_pos hn]
  exact Precedes.append_last (mem_filter.mpr ⟨hin, decide_eq_true hne⟩)

end

/-- Entries put behind a line of some live lane, one after the other. -/
inductive PutAll (L : LaneService) : List EntryId → EntryTable → EntryTable → Prop where
  | nil (t : EntryTable) : PutAll L [] t t
  | cons {i : EntryId} {ids : List EntryId} {lane : Nat} {t t' t'' : EntryTable} :
      L.Live lane → PutLast L i lane t t' → PutAll L ids t' t'' → PutAll L (i :: ids) t t''

section

variable (h : PutAll L ids t t')
include h

theorem PutAll.mem_of_not_mem (ha : a ∉ ids) : a ∈ line L t' n ↔ a ∈ line L t n := by
  induction h with
  | nil => exact Iff.rfl
  | cons _ hput _ ih =>
    obtain ⟨hne, hrest⟩ := ne_and_not_mem_of_not_mem_cons ha
    exact (ih hrest).trans (hput.mem_of_ne hne)

theorem PutAll.precedes_others (ha : a ∉ ids) (hc : c ∉ ids) (hac : Precedes a c (line L t n)) :
    Precedes a c (line L t' n) := by
  induction h with
  | nil => exact hac
  | cons _ hput _ ih =>
    obtain ⟨hane, harest⟩ := ne_and_not_mem_of_not_mem_cons ha
    obtain ⟨hcne, hcrest⟩ := ne_and_not_mem_of_not_mem_cons hc
    refine ih harest hcrest (hput.keepsOrder n n a c ?_ ?_ hac ?_ ?_)
    · exact fun hmem => hane (mem_singleton.mp hmem)
    · exact fun hmem => hcne (mem_singleton.mp hmem)
    · exact (hput.mem_of_ne hane).mpr hac.mem_left
    · exact (hput.mem_of_ne hcne).mpr hac.mem_right

section

variable (hn : ids.Nodup)
include hn

theorem PutAll.precedes_joined (ha : a ∉ ids)
    (hc : c ∈ ids) (hin : a ∈ line L t n) (hc' : c ∈ line L t' n) : Precedes a c (line L t' n) := by
  induction h with
  | nil => exact absurd hc not_mem_nil
  | @cons i ids lane t t₁ t' _ hput hrest ih =>
    obtain ⟨hane, harest⟩ := ne_and_not_mem_of_not_mem_cons ha
    obtain ⟨hi, hn'⟩ := nodup_cons.mp hn
    rcases mem_cons.mp hc with rfl | hcrest
    · -- `c` is put behind `a` now, and neither is moved after
      have hc₁ := (hrest.mem_of_not_mem hi).mp hc'
      have hlane := hput.mem_self.mp hc₁
      refine hrest.precedes_others harest hi ?_
      rw [hput n, if_pos hlane]
      exact Precedes.append_last (mem_filter.mpr ⟨hin, decide_eq_true hane⟩)
    · exact ih hn' harest hcrest ((hput.mem_of_ne hane).mpr hin) hc'

theorem PutAll.precedes_both (hac : Precedes a c ids)
    (ha' : a ∈ line L t' n) (hc' : c ∈ line L t' n) :
    Precedes a c (line L t' n) := by
  induction h with
  | nil => exact absurd hac.mem_left not_mem_nil
  | @cons i ids lane t t₁ t' _ hput hrest ih =>
    obtain ⟨hi, hn'⟩ := nodup_cons.mp hn
    cases hac with
    | cons _ hac => exact ih hn' hac ha' hc'
    | cons_cons _ hc =>
      have hcmem : c ∈ ids := singleton_sublist.mp hc
      have ha₁ := (hrest.mem_of_not_mem hi).mp ha'
      exact hrest.precedes_joined hn' hi hcmem ha₁ hc'

theorem PutAll.mem_joined (hi : i ∈ ids) : ∃ n, i ∈ line L t' n := by
  induction h with
  | nil => exact absurd hi not_mem_nil
  | @cons j ids lane t t₁ t' _ hput hrest ih =>
    obtain ⟨hj, hn'⟩ := nodup_cons.mp hn
    rcases mem_cons.mp hi with rfl | hi
    · exact ⟨lane, (hrest.mem_of_not_mem hj).mpr (hput.mem_self.mpr rfl)⟩
    · exact ih hn' hi

theorem PutAll.keepsOrder
    (hids : ∀ m a c, Precedes a c (line L t m) → (a ∉ ids ∧ c ∉ ids) ∨ Precedes a c ids) :
    KeepsOrder L [] t t' := by
  intro m n a c _ _ hac ha' hc'
  rcases hids m a c hac with ⟨ha, hc⟩ | hboth
  · have hin := (h.mem_of_not_mem ha).mp ha'
    obtain rfl := line_unique hac.mem_left hin
    exact h.precedes_others ha hc hac
  · exact h.precedes_both hn hboth ha' hc'

theorem PutAll.behind : Behind L ids t t' :=
  fun _ _ _ hi hmem ha hin => h.precedes_joined hn ha hi hin hmem

end

end

/-! ## Placing at a tail -/

theorem shortestLane_live (L : LaneService) (t : EntryTable) : L.Live (shortestLane L t) := by
  rw [shortestLane]
  cases h : (List.range' 1 L.maxConcurrent).argmin fun n => (waitingInLane L t n).length with
  | none => exact L.one_le
  | some lane =>
    have hmem := mem_range'_1.mp (argmin_mem h)
    show lane ≤ L.maxConcurrent
    omega

theorem putLast_of_update {u : EntryTable} {g : QueuedRun → QueuedRun}
    (hrows : u.rows = t.rows.map fun x => if x.id = e.id then g x else x) (he : e ∈ t.rows)
    (hg : (g e).id = e.id) (hn : (g e).status.waiting = true)
    (h : ∀ x ∈ waitingInLane L t (g e).slotNumber, x.id ≠ e.id → x.position < (g e).position) :
    (∀ n, n ≠ (g e).slotNumber →
        waitingInLane L u n = (waitingInLane L t n).filter fun x => x.id ≠ e.id) ∧
      waitingInLane L u (g e).slotNumber
        = ((waitingInLane L t (g e).slotNumber).filter fun x => x.id ≠ e.id) ++ [g e] := by
  constructor
  · intro n hne
    refine waitingInLane_take hrows fun x hx hid => ?_
    obtain rfl := Keyed.eq_of_id hx he hid
    rw [QueuedRun.inLane, beq_eq_false_iff_ne.mpr (Ne.symm hne), Bool.and_false]
  · exact waitingInLane_put hrows he rfl hg (inLane_iff.mpr ⟨hn, rfl⟩) h

theorem PutLast.of_waiting (hother : ∀ n, n ≠ lane →
      waitingInLane L t' n = (waitingInLane L t n).filter fun x => x.id ≠ i)
    (hlane : waitingInLane L t' lane
      = ((waitingInLane L t lane).filter fun x => x.id ≠ i) ++ [e]) (hid : e.id = i) :
    PutLast L i lane t t' := by
  have hmap : ∀ n, ((waitingInLane L t n).filter fun x => x.id ≠ i).map (·.id)
      = (line L t n).filter (· ≠ i) := fun n => by
    rw [line, filter_map]
    rfl
  intro n
  by_cases hn : n = lane
  · subst hn
    rw [line, hlane, map_append, hmap, if_pos rfl, map_singleton, hid]
  · rw [line, hother n hn, hmap, if_neg hn, append_nil]

theorem filter_eq_self_of_not_mem (h : i ∉ line L t n) :
    ((waitingInLane L t n).filter fun x => x.id ≠ i) = waitingInLane L t n := by
  refine filter_eq_self.mpr fun x hx => decide_eq_true ?_
  rintro rfl
  exact h (mem_map_of_mem hx)

theorem length_waitingInLane (L : LaneService) (t : EntryTable) (n : Nat) :
    (waitingInLane L t n).length = t.rows.countP (·.inLane n) := by
  rw [waitingInLane, length_ranked, countP_eq_length_filter]

theorem not_mem_line_of_ne (he : e ∈ t.rows) (h : e.slotNumber ≠ n) : e.id ∉ line L t n := by
  intro hmem
  obtain ⟨x, hx, hxn, hid⟩ := mem_line.mp hmem
  obtain rfl := Keyed.eq_of_id hx he hid
  exact h (inLane_iff.mp hxn).2

section

variable (ho : InOrder L t)
include ho

/-- **A retried entry goes to the tail of a live lane**, and every live lane is
    numbered after it. -/
theorem applyRetry_spec {entry : QueuedRun} (he : entry ∈ t.rows) :
    ∃ lane, L.Live lane ∧ PutLast L entry.id lane t (applyRetry L t entry).1 ∧
      InOrder L (applyRetry L t entry).1 := by
  rw [applyRetry, placeAtLaneTail]
  generalize htq : t.update entry.id QueuedRun.retried QueuedRun.retried_id = tq
  generalize hlane : (if entry.slotNumber > L.maxConcurrent then shortestLane L tq
    else entry.slotNumber) = lane
  have hlive : L.Live lane := by
    rw [← hlane]
    split
    · exact shortestLane_live L tq
    · exact not_lt.mp ‹_›
  -- the lane the entry left, if it waited, is the one it is placed in or a retired one
  have hstays : ∀ n, L.Live n → n ≠ lane → entry.id ∉ line L t n := by
    intro n hn hne
    refine not_mem_line_of_ne he ?_
    rintro rfl
    rw [if_neg (not_lt.mpr hn)] at hlane
    exact hne hlane
  have hlonger : (waitingInLane L t lane).length ≤ (waitingInLane L tq lane).length := by
    rw [length_waitingInLane, length_waitingInLane, ← htq]
    show _ ≤ (t.rows.map _).countP _
    rw [countP_map]
    refine countP_mono_left fun e _ hin => ?_
    rw [Function.comp_apply]
    split
    · exact inLane_iff.mpr ⟨rfl, (inLane_iff.mp hin).2⟩
    · exact hin
  have hput := putLast_of_update (L := L) (t := t) (e := entry)
    (u := tq.update entry.id
      (fun e => { e with slotNumber := lane, position := (waitingInLane L tq lane).length + 1 })
      fun _ => rfl)
    (g := fun e =>
      { e with status := .queued, retryCount := e.retryCount + 1, failureReason := ""
               slotNumber := lane, position := (waitingInLane L tq lane).length + 1 })
    (by
      rw [← htq]
      show (t.rows.map _).map _ = _
      rw [map_map]
      refine map_congr_left fun e _ => ?_
      by_cases hid : e.id = entry.id <;> simp [QueuedRun.retried, hid])
    he rfl rfl fun x hx _ => by
      have hle := (ho lane hlive).position_le hx
      show x.position < _ + 1
      omega
  have hlast := PutLast.of_waiting hput.1 hput.2 rfl
  refine ⟨lane, hlive, fun n => ?_, fun n hn => ?_⟩
  · rw [renumber_line]
    exact hlast n
  · by_cases hne : n = lane
    · exact renumber_numbered (.inl hne) none
    · refine renumber_numbered (.inr ?_) none
      rw [Numbered, hput.1 n hne, filter_eq_self_of_not_mem (hstays n hn hne)]
      exact ho n hn

/-- An entry of a retired lane goes to the tail of the shortest live one, which stays numbered. -/
theorem rehome_spec (hm : ¬ L.Live m) (hi : i ∈ line L t m) :
    PutLast L i (shortestLane L t) t (rehome L t i) ∧ InOrder L (rehome L t i) := by
  obtain ⟨e, he, hin, rfl⟩ := mem_line.mp hi
  have hlive := shortestLane_live L t
  have hout : ∀ n, L.Live n → e.id ∉ line L t n := by
    intro n hn hmem
    obtain rfl := line_unique hmem hi
    exact hm hn
  have hput := putLast_of_update (L := L) (t := t) (e := e) (u := rehome L t e.id)
    (g := fun e =>
      { e with slotNumber := shortestLane L t
               position := (waitingInLane L t (shortestLane L t)).length + 1 })
    rfl he rfl (inLane_iff.mp hin).1 fun x hx _ =>
      lt_succ_of_le ((ho _ hlive).position_le hx)
  refine ⟨PutLast.of_waiting hput.1 hput.2 rfl, fun n hn => ?_⟩
  by_cases hne : n = shortestLane L t
  · subst hne
    rw [Numbered, hput.2, filter_eq_self_of_not_mem (hout _ hn)]
    refine counted_append.mpr ⟨ho _ hn, counted_cons.mpr ⟨Nat.add_comm _ _, rfl⟩⟩
  · rw [Numbered, hput.1 n hne, filter_eq_self_of_not_mem (hout n hn)]
    exact ho n hn

theorem rehome_foldl (hn : ids.Nodup) (hids : ∀ i ∈ ids, ∃ m, ¬ L.Live m ∧ i ∈ line L t m) :
    PutAll L ids t (ids.foldl (rehome L) t) ∧ InOrder L (ids.foldl (rehome L) t) := by
  induction ids generalizing t with
  | nil => exact ⟨PutAll.nil t, ho⟩
  | cons i ids ih =>
    obtain ⟨hi, hn'⟩ := nodup_cons.mp hn
    obtain ⟨m, hm, hmem⟩ := hids i mem_cons_self
    obtain ⟨hput, ho'⟩ := rehome_spec ho hm hmem
    obtain ⟨hall, hfinal⟩ := ih ho' hn' fun j hj => by
      obtain ⟨k, hk, hjk⟩ := hids j (mem_cons_of_mem _ hj)
      have hne : j ≠ i := fun e => hi (e ▸ hj)
      exact ⟨k, hk, (hput.mem_of_ne hne).mpr hjk⟩
    exact ⟨PutAll.cons (shortestLane_live L t) hput hall, hfinal⟩

omit ho in
theorem line_sublist_retiredWaiting (hm : ¬ L.Live m) :
    (line L t m).Sublist ((retiredWaiting L t).map (·.id)) := by
  have hkeys : ((t.rows.filter fun e => L.maxConcurrent < e.slotNumber ∧ e.status.waiting).map
      fun e => (toLex (e.slotNumber, L.place e) : Nat ×ₗ Nat ×ₗ Nat ×ₗ Nat)).Nodup := by
    refine List.Nodup.of_map (fun p => (ofLex p).2) ?_
    rw [map_map]
    exact places_nodup L t _
  have hsel : (retiredWaiting L t).filter (fun e => e.slotNumber = m) = waitingInLane L t m := by
    rw [retiredWaiting, ← ranked_filter hkeys]
    refine ranked_eq ?_ ?_
    · rw [filter_filter]
      refine (ranked_perm _ _).trans (List.Perm.of_eq (filter_congr fun e _ => ?_))
      by_cases hs : e.slotNumber = m
      · have hlt : L.maxConcurrent < e.slotNumber := hs ▸ not_le.mp hm
        simp [QueuedRun.inLane, hs, hs ▸ hlt]
      · simp [QueuedRun.inLane, hs]
    · refine (waitingInLane_ascending L t m).imp_of_mem fun ha hb h => ?_
      have hsame := (inLane_iff.mp (mem_waitingInLane.mp ha).2).2.trans
        (inLane_iff.mp (mem_waitingInLane.mp hb).2).2.symm
      exact Prod.Lex.toLex_lt_toLex.mpr (.inr ⟨hsame, h⟩)
  rw [line, ← hsel]
  exact filter_sublist.map _

/-- **Rehoming** puts what waits in retired lanes behind live ones, in its order. -/
theorem rehomeRetiredLaneEntries_spec :
    KeepsOrder L [] t (rehomeRetiredLaneEntries L t) ∧ InOrder L (rehomeRetiredLaneEntries L t) ∧
      ∀ i n, i ∈ line L t n → ∃ m, i ∈ line L (rehomeRetiredLaneEntries L t) m := by
  have hmem : ∀ i ∈ (retiredWaiting L t).map (·.id), ∃ m, ¬ L.Live m ∧ i ∈ line L t m := by
    intro i hi
    obtain ⟨e, he, rfl⟩ := mem_map.mp hi
    obtain ⟨he, hq⟩ := mem_filter.mp (mem_ranked.mp he)
    obtain ⟨hlt, hw⟩ := of_decide_eq_true hq
    exact ⟨e.slotNumber, not_le.mpr hlt, mem_line.mpr ⟨e, he, inLane_iff.mpr ⟨hw, rfl⟩, rfl⟩⟩
  have hnodup : ((retiredWaiting L t).map (·.id)).Nodup := by
    refine ((ranked_perm _ _).map _).nodup_iff.mpr ?_
    exact (filter_sublist.map _).nodup t.nodup
  obtain ⟨hput, ho'⟩ := rehome_foldl ho hnodup hmem
  refine ⟨hput.keepsOrder hnodup fun m a c hac => ?_, ho', fun i n hi => ?_⟩
  · by_cases hm : L.Live m
    · have hout : ∀ x ∈ line L t m, x ∉ (retiredWaiting L t).map (·.id) := by
        intro x hx hmoved
        obtain ⟨k, hk, hxk⟩ := hmem x hmoved
        obtain rfl := line_unique hx hxk
        exact hk hm
      exact .inl ⟨hout a hac.mem_left, hout c hac.mem_right⟩
    · exact .inr (hac.mono (line_sublist_retiredWaiting hm))
  · by_cases hmoved : i ∈ (retiredWaiting L t).map (·.id)
    · exact hput.mem_joined hnodup hmoved
    · exact ⟨n, (hput.mem_of_not_mem hmoved).mpr hi⟩

/-- Requeueing puts stranded entries back among those that wait, and moves none of these. -/
theorem requeueStrandedEntries_spec :
    KeepsOrder L [] t (requeueStrandedEntries L t) ∧ InOrder L (requeueStrandedEntries L t) ∧
      ∀ n i, i ∈ line L t n → i ∈ line L (requeueStrandedEntries L t) n := by
  rw [requeueStrandedEntries]
  generalize hlanes : ((t.rows.filter (·.stranded)).map (·.slotNumber)).dedup = lanes
  generalize ht' : t.write
    (fun e => if e.stranded then { e with status := .queued, promotedAt := none } else e)
    (fun e => by split <;> rfl) = t'
  obtain ⟨hline, hnum⟩ := renumberLanes_spec L lanes t'
  have hrow : ∀ x ∈ t.rows, ∃ x' ∈ t'.rows, x'.id = x.id ∧ x'.slotNumber = x.slotNumber ∧
      L.place x' = L.place x ∧ (x.status.waiting = true → x'.status.waiting = true) := by
    intro x hx
    rw [← ht']
    refine ⟨_, mem_map_of_mem hx, ?_⟩
    by_cases hs : x.stranded = true
    · rw [if_pos hs]
      exact ⟨rfl, rfl, rfl, fun _ => rfl⟩
    · rw [if_neg hs]
      exact ⟨rfl, rfl, rfl, fun h => h⟩
  have hkeep : KeepsOrder L [] t t' := by
    refine KeepsOrder.of_places fun x hx x' hx' hid _ _ => ?_
    obtain ⟨y, hy, hyid, hslot, hplace, -⟩ := hrow x hx
    obtain rfl := Keyed.eq_of_id hy hx' (hyid.trans hid.symm)
    exact ⟨hslot, hplace⟩
  refine ⟨hkeep.sublist fun n => by rw [hline], fun n hn => hnum n ?_, fun n i hi => ?_⟩
  · by_cases hmem : n ∈ lanes
    · exact .inl hmem
    · refine .inr ?_
      rw [Numbered, ← ht', waitingInLane_frame rfl fun e he hin => ?_]
      · exact ho n hn
      · rw [if_neg]
        intro hs
        -- a stranded entry waits in no lane, and its own is renumbered
        refine hmem (hlanes ▸ mem_dedup.mpr (mem_map.mpr ⟨e, ?_, ?_⟩))
        · exact mem_filter.mpr ⟨he, hs⟩
        · rcases hin with hin | hin
          · exact (inLane_iff.mp hin).2
          · rw [if_pos hs] at hin
            exact (inLane_iff.mp hin).2
  · rw [hline]
    obtain ⟨x, hx, hxn, rfl⟩ := mem_line.mp hi
    obtain ⟨x', hx', hid, hslot, -, hwait⟩ := hrow x hx
    obtain ⟨hw, hn⟩ := inLane_iff.mp hxn
    exact mem_line.mpr ⟨x', hx', inLane_iff.mpr ⟨hwait hw, hslot.trans hn⟩, hid⟩

end

/-- **The sweep keeps every live lane in order**, and moves no entry it is not rehoming. -/
theorem reconcileLanes_spec {b : Board} (ho : InOrder L b.entries) :
    KeepsOrder L [] b.entries (reconcileLanes L b).1.entries ∧
      InOrder L (reconcileLanes L b).1.entries := by
  obtain ⟨hkeep₁, ho₁, hgrow₁⟩ := requeueStrandedEntries_spec ho
  obtain ⟨hkeep₂, ho₂, -⟩ := rehomeRetiredLaneEntries_spec ho₁
  have hdrain : Shrinks L (rehomeRetiredLaneEntries L (requeueStrandedEntries L b.entries))
      (reconcileEntries L b).entries :=
    (driveRepairingEntries_shrinks L
      { b with entries := rehomeRetiredLaneEntries L (requeueStrandedEntries L b.entries) }).trans
      ((cancelTerminalTicketEntries_shrinks L _ _).trans
        (settleFinishedEntries_sameLines _ _).shrinks)
  have hrest := hdrain.trans (reconcileLanesSlots_shrinks L (reconcileEntries L b))
  exact ⟨(hkeep₁.grow hgrow₁ hkeep₂).sublist hrest.sublist, hrest.inOrder ho₂⟩

theorem startAdded_shrinks (L : LaneService) (n : Nat) (idle : Bool) (i : EntryId) (b : Board) :
    Shrinks L b.entries (startAdded L n idle i b).1.entries := by
  cases idle with
  | false => exact Shrinks.refl L b.entries
  | true =>
    have hstart := startLaneHead_shrinks L b n
    rw [startAdded, if_pos rfl]
    dsimp only
    split <;> exact hstart

theorem insert_spec (ho : InOrder L t) (he : e.id = t.next)
    (hw : e.status.waiting = true)
    (hpos : e.position = (waitingInLane L t e.slotNumber).length + 1)
    (hlive : L.Live e.slotNumber) :
    KeepsOrder L [] t (t.insert e he) ∧ InOrder L (t.insert e he) := by
  constructor
  · refine KeepsOrder.of_places fun x hx x' hx' hid _ _ => ?_
    rcases mem_append.mp hx' with hold | hnew
    · obtain rfl := Keyed.eq_of_id hold hx hid
      exact ⟨rfl, rfl⟩
    · -- the new id is no one else's
      obtain rfl := mem_singleton.mp hnew
      have hlt := t.fresh x hx
      rw [← hid, he] at hlt
      exact absurd hlt (lt_irrefl _)
  · intro n hn
    by_cases hne : e.slotNumber = n
    · subst hne
      have hlast := waitingInLane_insert_last (L := L) he (inLane_iff.mpr ⟨hw, rfl⟩)
        fun x hx => hpos ▸ lt_succ_of_le ((ho _ hlive).position_le hx)
      rw [Numbered, hlast]
      exact counted_append.mpr ⟨ho _ hn, counted_cons.mpr ⟨hpos.trans (Nat.add_comm _ _), rfl⟩⟩
    · have hout : e.inLane n = false := by
        rw [QueuedRun.inLane, beq_eq_false_iff_ne.mpr hne, Bool.and_false]
      rw [Numbered, waitingInLane_insert_frame he hout]
      exact ho n hn

theorem addToLane_spec {b : Board} (ho : InOrder L b.entries) (ticketId : TicketId)
    (kind : QueueEntryKind) (stageKey : String) (ask : Ask) :
    KeepsOrder L [] b.entries (addToLane L b ticketId n kind stageKey ask).1.entries ∧
      InOrder L (addToLane L b ticketId n kind stageKey ask).1.entries := by
  have hsame : KeepsOrder L [] b.entries b.entries ∧ InOrder L b.entries :=
    ⟨KeepsOrder.of_filter fun _ => rfl, ho⟩
  rw [addToLane]
  cases b.outside.ticket ticketId with
  | none => exact hsame
  | some ticket =>
    dsimp only
    cases (initializeSlots L b).slot n with
    | none => exact hsame
    | some slot =>
      dsimp only
      split
      · exact hsame
      · next hle =>
          split
          · exact hsame
          · obtain ⟨hkeep, ho'⟩ := insert_spec (L := L)
              (e := newEntry L b.entries ticket n kind stageKey ask) ho rfl rfl rfl
              (not_lt.mp hle)
            have hstart := startAdded_shrinks L n slot.isAvailable b.entries.next
              { initializeSlots L b with
                entries := b.entries.insert
                  (newEntry L b.entries ticket n kind stageKey ask) rfl }
            exact ⟨hkeep.sublist hstart.sublist, hstart.inOrder ho'⟩

theorem waitingEntry_eq_some (h : waitingEntry t i = some e) :
    e ∈ t.rows ∧ e.id = i ∧ e.status.waiting = true := by
  obtain ⟨hget, hw⟩ := Option.filter_eq_some_iff.mp h
  obtain ⟨he, hid⟩ := Keyed.get_eq_some hget
  exact ⟨he, hid, hw⟩

theorem removeEntry_shrinks (L : LaneService) (b : Board) (i : EntryId) :
    Shrinks L b.entries (removeEntry L b i).1.entries := by
  rw [removeEntry]
  split
  · exact Shrinks.refl L b.entries
  · next entry hentry =>
      obtain ⟨he, rfl, hw⟩ := waitingEntry_eq_some hentry
      exact deleteHead_shrinks (mem_line.mpr ⟨entry, he, inLane_iff.mpr ⟨hw, rfl⟩, rfl⟩)

end Loregarden.Lanes
