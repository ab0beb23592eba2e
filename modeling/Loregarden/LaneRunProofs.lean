import Loregarden.LaneOrderProofs

/-! # Runs of calls on the lanes

The calls that change who waits without renumbering, when they leave a lane in order, and what a run
of calls keeps.

Cancelling and pausing take entries out of their lanes and close no gap; resuming puts them back at
the position they held; a completion settles the entry that names the orchestration even when that
entry was retried and waits again. `Careful` is when this leaves every live lane numbered 1..N with
the resumed entries last, and no more is asked of any other call. -/

namespace Loregarden.Lanes

open Ranked Runs List BulkChange QueuedRun KeepsOrder
open Bool hiding and_assoc or_false

variable {L : LaneService} {t t' : EntryTable} {n m : Nat} {i : EntryId}
  {g : QueuedRun → QueuedRun}
variable {b : Board} {ws : WorkspaceId} {ids : List EntryId} {e : QueuedRun}

theorem filter_line_update (hrows : t'.rows = t.rows.map fun e => if e.id = i then g e else e)
    (hg : ∀ e, (g e).id = e.id) (n : Nat) :
    (line L t' n).filter (· ≠ i) = (line L t n).filter (· ≠ i) := by
  have hread : ∀ t : EntryTable,
      (line L t n).filter (· ≠ i) = (waitingInLane L (t.delete i) n).map (·.id) := by
    intro t
    rw [waitingInLane_delete, line, filter_map]
    rfl
  have hrest : (t'.delete i).rows = (t.delete i).rows := by
    show t'.rows.filter _ = t.rows.filter _
    rw [hrows, filter_map]
    have hsel : (t.rows.filter ((fun e => decide (e.id ≠ i)) ∘
        fun e => if e.id = i then g e else e)) = t.rows.filter fun e => e.id ≠ i := by
      refine filter_congr fun e _ => ?_
      by_cases hid : e.id = i <;> simp [hid, hg]
    rw [hsel, map_congr_left (g := fun e => e) fun e he => ?_, map_id']
    exact if_neg (of_decide_eq_true (mem_filter.mp he).2)
  rw [hread, hread, waitingInLane, waitingInLane, hrest]

theorem newOrder_filter {waiting : List EntryId} {target : Int} (hn : waiting.Nodup) :
    (newOrder waiting (some (i, target))).filter (· ≠ i) = waiting.filter (· ≠ i) := by
  have hsub : (waiting.filter (· ≠ i)).Sublist
      ((newOrder waiting (some (i, target))).filter (· ≠ i)) := by
    have h := (filter_sublist_newOrder waiting i target).filter fun x => decide (x ≠ i)
    simpa using h
  have hperm := (newOrder_perm hn (some (i, target))).filter fun x => decide (x ≠ i)
  exact (hsub.eq_of_length hperm.length_eq.symm).symm

/-- **A move** disturbs no other entry, and leaves its lanes numbered. -/
theorem movedEntries_spec {entry : QueuedRun} (n : Nat) (position : Int) (ho : InOrder L t)
    (he : entry ∈ t.rows) :
    KeepsOrder L [entry.id] t (movedEntries L t entry n position) ∧
      InOrder L (movedEntries L t entry n position) := by
  rw [movedEntries]
  generalize ht₁ : t.update entry.id
    (fun e => { e with slotNumber := n, position := 10000 + position.toNat })
    (fun _ => rfl) = t₁
  have hrows : t₁.rows = t.rows.map fun e => if e.id = entry.id then
      { e with slotNumber := n, position := 10000 + position.toNat } else e := by
    rw [← ht₁]
    rfl
  have hothers := filter_line_update (L := L) hrows fun _ => rfl
  -- only the lane the entry leaves and the one it enters are touched
  have hframe : ∀ m, m ≠ n → m ≠ entry.slotNumber → waitingInLane L t₁ m = waitingInLane L t m := by
    intro m hmn hfrom
    rw [waitingInLane_take hrows fun e _ _ => ?_, filter_eq_self_of_not_mem]
    · exact not_mem_line_of_ne he (Ne.symm hfrom)
    · rw [inLane, beq_eq_false_iff_ne.mpr (Ne.symm hmn), Bool.and_false]
  have hmid : (∀ m, line L (if entry.slotNumber ≠ n then renumber L entry.slotNumber none t₁
        else t₁) m = line L t₁ m) ∧
      ∀ m, L.Live m → m ≠ n → Numbered L (if entry.slotNumber ≠ n then
        renumber L entry.slotNumber none t₁ else t₁) m := by
    by_cases hfrom : entry.slotNumber ≠ n
    · rw [if_pos hfrom]
      refine ⟨renumber_line L t₁ _, fun m hm hmn => ?_⟩
      by_cases hmf : m = entry.slotNumber
      · exact renumber_numbered (.inl hmf) none
      · refine renumber_numbered (.inr ?_) none
        rw [Numbered, hframe m hmn hmf]
        exact ho m hm
    · rw [if_neg hfrom]
      refine ⟨fun _ => rfl, fun m hm hmn => ?_⟩
      rw [Numbered, hframe m hmn (fun e => hmn (e.trans (not_not.mp hfrom)))]
      exact ho m hm
  obtain ⟨hline, hnum⟩ := hmid
  constructor
  · refine of_filter fun m => ?_
    have hsingle : ∀ l : List EntryId,
        l.filter (· ∉ [entry.id]) = l.filter (· ≠ entry.id) := fun l =>
      filter_congr fun x _ => by simp
    rw [hsingle, hsingle, ← hothers m]
    by_cases hmn : m = n
    · subst hmn
      rw [(renumber_spec L _ m _).1, hline, newOrder_filter (line_nodup L t₁ m)]
    · rw [line, renumber_frame _ hmn, ← line, hline]
  · intro m hm
    by_cases hmn : m = n
    · exact renumber_numbered (.inl hmn) _
    · exact renumber_numbered (.inr (hnum m hm hmn)) _

theorem moveEntry_spec (i : EntryId) (n : Nat) (position : Int) (ho : InOrder L b.entries) :
    KeepsOrder L [i] b.entries (moveEntry L b i n position).1.entries ∧
      InOrder L (moveEntry L b i n position).1.entries := by
  have hsame : KeepsOrder L [i] b.entries b.entries ∧ InOrder L b.entries :=
    ⟨of_filter fun _ => rfl, ho⟩
  rw [moveEntry]
  cases hentry : waitingEntry b.entries i with
  | none => exact hsame
  | some entry =>
    obtain ⟨he, rfl, -⟩ := waitingEntry_eq_some hentry
    obtain ⟨hkeep, ho'⟩ := movedEntries_spec n position ho he
    have hstart := startLaneHead_shrinks L
      { b with entries := movedEntries L b.entries entry n position } n
    dsimp only
    split
    · exact hsame
    · split
      · exact ⟨hkeep.sublist hstart.sublist, hstart.inOrder ho'⟩
      · exact ⟨hkeep, ho'⟩

/-! ## Leaving without renumbering -/

/-- What is left of a numbered lane that entries leave is numbered exactly when
    none is left behind one that leaves. -/
theorem numbered_leave_iff (takes : QueuedRun → Bool) (h : Numbered L t n)
    (hread : (waitingInLane L t' n).map (·.position)
      = ((waitingInLane L t n).filter fun e => !takes e).map (·.position)) :
    Numbered L t' n ↔
      (waitingInLane L t n).Pairwise fun x y => takes x = true → takes y = true := by
  rw [← counted_filter_iff h, Numbered, Counted, Counted, hread]
  have hlen := congrArg List.length hread
  rw [length_map, length_map] at hlen
  rw [hlen]

def NoneBehind (L : LaneService) (t : EntryTable) (i : EntryId) : Prop :=
  ∀ n, L.Live n → ∀ c ∈ line L t n, ¬ Precedes i c (line L t n)

theorem leave_spec (hrows : t'.rows = t.rows.map fun e => if e.id = i then g e else e)
    (hg : ∀ e, (g e).status.waiting = false) :
    (∀ n, (line L t' n).Sublist (line L t n)) ∧
      (InOrder L t → NoneBehind L t i → InOrder L t') := by
  have hread : ∀ n, waitingInLane L t' n = (waitingInLane L t n).filter fun e => e.id ≠ i :=
    fun n => waitingInLane_take hrows fun e _ _ => by
      rw [inLane, hg, Bool.false_and]
  constructor
  · intro n
    rw [line, hread]
    exact filter_sublist.map _
  · intro ho hnone n hn
    refine (numbered_leave_iff (fun e => e.id = i) (ho n hn) ?_).mpr ?_
    · rw [hread]
      exact congrArg _ (filter_congr fun e _ => by simp)
    · refine pairwise_iff_forall_sublist.mpr fun {x y} hsub hi => ?_
      obtain rfl := of_decide_eq_true hi
      have hprec : Precedes x.id y.id (line L t n) := hsub.map QueuedRun.id
      exact absurd hprec (hnone n hn y.id hprec.mem_right)

/-- The entry a completion settles has no entry of a live lane behind it. -/
def SettlesLast (L : LaneService) (t : EntryTable) (orch : Nat) : Prop :=
  ∀ entry ∈ entryOfOrchestration t orch, NoneBehind L t entry.id

/-- What a completion may do to the lines: take entries out, and leave the live
    lanes in order when the entry it settles is the last of its lane. -/
def Settles (L : LaneService) (i : EntryId) (t t' : EntryTable) : Prop :=
  (∀ n, (line L t' n).Sublist (line L t n)) ∧ (InOrder L t → NoneBehind L t i → InOrder L t')

theorem Settles.of_shrinks (h : Shrinks L t t') : Settles L i t t' :=
  ⟨h.sublist, fun ho _ => h.inOrder ho⟩

theorem Settles.shrink {t'' : EntryTable} (h : Settles L i t t') (hs : Shrinks L t' t'') :
    Settles L i t t'' :=
  ⟨fun n => List.Sublist.trans (hs.sublist n) (h.1 n), fun ho hn => hs.inOrder (h.2 ho hn)⟩

theorem settleAndFree_settles (entry : QueuedRun) (slot : Option AgentSlot) :
    Settles L entry.id b.entries (settleAndFree L b (some entry) slot).entries := by
  have hsettle : Settles L entry.id b.entries
      (if entry.status = .started then b else b.update entry.id settled fun _ => rfl).entries := by
    split
    · exact Settles.of_shrinks (Shrinks.refl L b.entries)
    · exact leave_spec rfl fun _ => rfl
  cases slot with
  | none => exact hsettle
  | some slot => exact hsettle.shrink (startReleased_shrinks L _ slot)

theorem holdForRepair_settles (entry : QueuedRun) :
    Settles L entry.id b.entries (holdForRepair L b entry).1.entries ∧
      ((holdForRepair L b entry).2 = false →
        SameLines L b.entries (holdForRepair L b entry).1.entries) := by
  have hsame : Settles L entry.id b.entries b.entries ∧
      (false = false → SameLines L b.entries b.entries) :=
    ⟨Settles.of_shrinks (Shrinks.refl L b.entries), fun _ => SameLines.refl L b.entries⟩
  rw [holdForRepair]
  split
  · dsimp only
    split
    · exact hsame
    · split
      · have htouch : SameLines L b.entries (b.update entry.id
            (fun e =>
              { e with failureReason := orReason (repairExhausted b.outside.now entry) e })
            fun _ => rfl).entries :=
          SameLines.update rfl fun _ _ _ => ⟨rfl, rfl, fun _ => rfl⟩
        exact ⟨Settles.of_shrinks htouch.shrinks, fun _ => htouch⟩
      · split
        · exact hsame
        · split
          · exact hsame
          · exact ⟨leave_spec rfl fun _ => rfl, fun h => by cases h⟩
  · exact hsame

theorem onOrchestrationComplete_spec (orch : Nat) :
    (∀ n, (line L (onOrchestrationComplete L b orch).entries n).Sublist (line L b.entries n)) ∧
      (InOrder L b.entries → SettlesLast L b.entries orch →
        InOrder L (onOrchestrationComplete L b orch).entries) := by
  have hspec : ∀ {t' : EntryTable} {entry : QueuedRun},
      entryOfOrchestration b.entries orch = some entry → Settles L entry.id b.entries t' →
      (∀ n, (line L t' n).Sublist (line L b.entries n)) ∧
        (InOrder L b.entries → SettlesLast L b.entries orch → InOrder L t') :=
    fun hentry h => ⟨h.1, fun ho hlast => h.2 ho (hlast _ hentry)⟩
  rw [onOrchestrationComplete]
  cases hentry : entryOfOrchestration b.entries orch with
  | none =>
    cases b.slots.find? (·.currentOrchestrationRunId = some orch) with
    | none => exact ⟨fun _ => List.Sublist.refl _, fun ho _ => ho⟩
    | some slot =>
      have hs := startReleased_shrinks L b slot
      exact ⟨hs.sublist, fun ho _ => hs.inOrder ho⟩
  | some entry =>
    cases b.slots.find? (·.currentOrchestrationRunId = some orch) with
    | none => exact hspec hentry (settleAndFree_settles entry _)
    | some slot =>
      obtain ⟨hsettles, hsame⟩ := holdForRepair_settles (L := L) (b := b) entry
      dsimp only
      split
      · next b' heq =>
          rw [heq] at hsettles
          exact hspec hentry hsettles
      · next b' heq =>
          rw [heq] at hsame
          have hlines := hsame rfl
          have hrest := settleAndFree_settles (L := L) (b := b') entry (some slot)
          refine hspec hentry ⟨fun n => hlines.lines n ▸ hrest.1 n, fun ho hnone => ?_⟩
          refine hrest.2 (hlines.shrinks.inOrder ho) fun n hn => ?_
          rw [hlines.lines n]
          exact hnone n hn

/-! ## Bulk changes -/

/-- Whether a bulk change of some ids changes this entry. -/
def BulkChange.takes (c : BulkChange) (ws : WorkspaceId) (ids : List EntryId)
    (e : QueuedRun) : Bool :=
  decide (e.id ∈ ids) && e.workspaceId == ws && c.allowedFrom e.status

def BulkChange.change (c : BulkChange) (ws : WorkspaceId) (ids : List EntryId)
    (e : QueuedRun) : QueuedRun :=
  if c.takes ws ids e then { e with status := c.target } else e

theorem bulkSetOne_rows (c : BulkChange) (ws : WorkspaceId) (t : EntryTable) (i : EntryId) :
    (bulkSetOne c ws t i).1.rows = t.rows.map (c.change ws [i]) := by
  have hone : ∀ e ∈ t.rows, c.takes ws [i] e = true ↔
      e.id = i ∧ e.workspaceId = ws ∧ c.allowedFrom e.status = true := by
    simp [takes, and_assoc]
  have hnone : (∀ e ∈ t.rows, c.takes ws [i] e = false) →
      t.rows = t.rows.map (c.change ws [i]) := by
    intro h
    rw [map_congr_left (g := fun e => e) fun e he => ?_, map_id']
    rw [change, h e he]
    rfl
  rw [bulkSetOne]
  cases hentry : workspaceEntry t ws i with
  | none =>
    refine hnone fun e he => eq_false_iff.mpr fun htake => ?_
    obtain ⟨rfl, hws, -⟩ := (hone e he).mp htake
    rw [workspaceEntry, Keyed.get_of_mem he] at hentry
    simp [hws] at hentry
  | some entry =>
    obtain ⟨hget, hws⟩ := Option.filter_eq_some_iff.mp hentry
    obtain ⟨he, rfl⟩ := Keyed.get_eq_some hget
    dsimp only
    by_cases hallow : c.allowedFrom entry.status = true
    · rw [if_pos hallow]
      refine map_congr_left fun e hmem => ?_
      rw [change]
      by_cases hid : e.id = entry.id
      · obtain rfl := Keyed.eq_of_id hmem he hid
        rw [if_pos rfl, if_pos ((hone e hmem).mpr ⟨rfl, of_decide_eq_true hws, hallow⟩)]
      · rw [if_neg hid, if_neg fun htake => hid ((hone e hmem).mp htake).1]
    · rw [if_neg hallow]
      refine hnone fun e hmem => eq_false_iff.mpr fun htake => ?_
      obtain ⟨hid, -, hyes⟩ := (hone e hmem).mp htake
      obtain rfl := Keyed.eq_of_id hmem he hid
      exact hallow hyes

/-- **A bulk change is one write**: an id given twice is refused or written the
    same the second time. -/
theorem bulkSetStatus_rows (c : BulkChange) (ws : WorkspaceId) (t : EntryTable)
    (ids : List EntryId) :
    (bulkSetStatus c t ws ids).1.rows = t.rows.map (c.change ws ids) := by
  show (bulkSetLoop c ws ids t).1.rows = _
  induction ids generalizing t with
  | nil =>
    show t.rows = _
    rw [map_congr_left (g := fun e => e) fun e _ => ?_, map_id']
    simp [change, takes]
  | cons i ids ih =>
    show (bulkSetLoop c ws ids (bulkSetOne c ws t i).1).1.rows = _
    rw [ih, bulkSetOne_rows, map_map]
    refine map_congr_left fun e _ => ?_
    have hcons : c.takes ws (i :: ids) e = (c.takes ws [i] e || c.takes ws ids e) := by
      simp only [takes, mem_cons, not_mem_nil, or_false,
        decide_or, ← and_or_distrib_right]
    rw [Function.comp_apply, change, change, change, hcons]
    cases c.takes ws [i] e with
    | false => simp
    | true =>
      rw [if_pos rfl, Bool.true_or, if_pos rfl]
      split <;> rfl

theorem bulkSetStatus_keepsOrder (c : BulkChange) (ws : WorkspaceId) (t : EntryTable)
    (ids : List EntryId) : KeepsOrder L [] t (bulkSetStatus c t ws ids).1 := by
  refine of_places fun x hx x' hx' hid _ _ => ?_
  rw [bulkSetStatus_rows] at hx'
  obtain ⟨y, hy, rfl⟩ := mem_map.mp hx'
  have hsame : (c.change ws ids y).id = y.id ∧ (c.change ws ids y).slotNumber = y.slotNumber ∧
      L.place (c.change ws ids y) = L.place y := by
    rw [change]
    split <;> exact ⟨rfl, rfl, rfl⟩
  obtain rfl := Keyed.eq_of_id hy hx (hsame.1.symm.trans hid)
  exact hsame.2

/-- Behind a waiting entry that is taken, all of its live lane are taken. -/
def TakesTail (L : LaneService) (t : EntryTable) (takes : QueuedRun → Bool) : Prop :=
  ∀ n, L.Live n → (waitingInLane L t n).Pairwise fun x y => takes x = true → takes y = true

/-- **Cancelling or pausing leaves every live lane in order exactly when it takes
    the ends of their lines.** -/
theorem bulkTake_inOrder_iff {c : BulkChange} (hc : c.target.waiting = false)
    (ws : WorkspaceId) (ids : List EntryId) (ho : InOrder L t) :
    InOrder L (bulkSetStatus c t ws ids).1 ↔ TakesTail L t (c.takes ws ids) := by
  have hread : ∀ n, waitingInLane L (bulkSetStatus c t ws ids).1 n
      = (waitingInLane L t n).filter fun e => !c.takes ws ids e := by
    intro n
    rw [waitingInLane_write (bulkSetStatus_rows c ws t ids) fun e _ hin => ?_]
    · have hsel : (waitingInLane L t n).filter (fun e => (c.change ws ids e).inLane n)
          = (waitingInLane L t n).filter fun e => !c.takes ws ids e := by
        refine filter_congr fun e he => ?_
        rw [change]
        cases c.takes ws ids e with
        | false => exact (mem_waitingInLane.mp he).2
        | true => rw [if_pos rfl, inLane, hc, Bool.false_and]; rfl
      rw [hsel, map_congr_left (g := fun e => e) fun e he => ?_, map_id']
      have hnot : c.takes ws ids e = false := by simpa using (mem_filter.mp he).2
      rw [change, hnot]
      rfl
    · rw [change] at hin ⊢
      split at hin
      · rw [inLane, hc, Bool.false_and] at hin
        cases hin
      · next hnot =>
          rw [if_neg hnot]
          exact ⟨hin, rfl⟩
  refine forall_congr' fun n => forall_congr' fun hn => ?_
  exact numbered_leave_iff _ (ho n hn) (by rw [hread])

/-- The entries a resume takes held positions behind all that wait in their lane;
    in a live lane, the very next ones. -/
structure JoinsTail (L : LaneService) (t : EntryTable) (takes : QueuedRun → Bool) : Prop where
  behind : ∀ y ∈ t.rows, takes y = true →
    ∀ x ∈ waitingInLane L t y.slotNumber, x.position < y.position
  next : ∀ n, L.Live n → Counted QueuedRun.position ((waitingInLane L t n).length + 1)
    (ranked L.place (t.rows.filter fun e => takes e && e.slotNumber == n))

theorem bulkResume_takes
    (h : bulkResume.takes ws ids e = true) : e.status = .paused ∧ e.id ∈ ids := by
  obtain ⟨h, hs⟩ := and_eq_true_iff.mp h
  exact ⟨eq_of_beq hs, of_decide_eq_true (and_eq_true_iff.mp h).1⟩

theorem bulkResume_read (ws : WorkspaceId) (ids : List EntryId)
    (h : ∀ y ∈ t.rows, bulkResume.takes ws ids y = true →
      ∀ x ∈ waitingInLane L t y.slotNumber, x.position < y.position) (n : Nat) :
    waitingInLane L (bulkSetStatus bulkResume t ws ids).1 n
      = waitingInLane L t n ++ (ranked L.place (t.rows.filter fun e =>
          bulkResume.takes ws ids e && e.slotNumber == n)).map (bulkResume.change ws ids) := by
  refine waitingInLane_join (bulkSetStatus_rows bulkResume ws t ids) (fun e _ => ?_)
    (fun e _ hq => ?_) (fun e _ => ?_) (fun e _ hin => ?_) fun x hx y hy hq => ?_
  · rw [change]
    cases htake : bulkResume.takes ws ids e with
    | false => simp
    | true =>
      have hs := (bulkResume_takes htake).1
      simp [inLane, hs, bulkResume, QueuePosition.waiting]
  · have hs := (bulkResume_takes (and_eq_true_iff.mp hq).1).1
    rw [inLane, hs]
    rfl
  · rw [change]
    split <;> rfl
  · rw [change, if_neg]
    intro htake
    have hw := (inLane_iff.mp hin).1
    rw [(bulkResume_takes htake).1] at hw
    cases hw
  · obtain ⟨htake, hn⟩ := and_eq_true_iff.mp hq
    obtain rfl := eq_of_beq hn
    exact h y hy htake x hx

def resumed (ws : WorkspaceId) (ids : List EntryId) (t : EntryTable) : List EntryId :=
  (t.rows.filter fun e => bulkResume.takes ws ids e).map (·.id)

theorem mem_resumed :
    i ∈ resumed ws ids t ↔ ∃ e ∈ t.rows, bulkResume.takes ws ids e = true ∧ e.id = i := by
  simp [resumed, and_assoc]

theorem change_place (c : BulkChange) (ws : WorkspaceId) (ids : List EntryId) (e : QueuedRun) :
    (c.change ws ids e).id = e.id ∧ (c.change ws ids e).position = e.position := by
  rw [change]
  split <;> exact ⟨rfl, rfl⟩

theorem not_mem_line_of_resumed (h : i ∈ resumed ws ids t) : i ∉ line L t n := by
  intro hmem
  obtain ⟨x, hx, hxn, rfl⟩ := mem_line.mp hmem
  obtain ⟨z, hz, htake, hid⟩ := mem_resumed.mp h
  obtain rfl := Keyed.eq_of_id hz hx hid
  have hw := (inLane_iff.mp hxn).1
  rw [(bulkResume_takes htake).1] at hw
  cases hw

/-- A live lane reads 1..N after a resume exactly when what joins it held the next positions. -/
theorem bulkResume_numbered_iff (ws : WorkspaceId) (ids : List EntryId) (hn : Numbered L t n)
    (h : ∀ y ∈ t.rows, bulkResume.takes ws ids y = true →
      ∀ x ∈ waitingInLane L t y.slotNumber, x.position < y.position) :
    Numbered L (bulkSetStatus bulkResume t ws ids).1 n ↔
      Counted position ((waitingInLane L t n).length + 1)
        (ranked L.place (t.rows.filter fun e =>
          bulkResume.takes ws ids e && e.slotNumber == n)) := by
  rw [Numbered, bulkResume_read ws ids h, counted_append,
    counted_map fun e _ => (change_place bulkResume ws ids e).2, Nat.add_comm 1]
  exact and_iff_right hn

theorem bulkResume_spec (ws : WorkspaceId) (ids : List EntryId) (ho : InOrder L t)
    (h : JoinsTail L t (bulkResume.takes ws ids)) :
    InOrder L (bulkSetStatus bulkResume t ws ids).1 ∧
      Behind L (resumed ws ids t) t (bulkSetStatus bulkResume t ws ids).1 := by
  refine ⟨fun n hn => (bulkResume_numbered_iff ws ids (ho n hn) h.behind).mpr (h.next n hn),
    fun n j a hj hmem ha hin => ?_⟩
  have hline : line L (bulkSetStatus bulkResume t ws ids).1 n = line L t n ++
      (ranked L.place (t.rows.filter fun e =>
        bulkResume.takes ws ids e && e.slotNumber == n)).map (·.id) := by
    rw [line, bulkResume_read ws ids h.behind, map_append, map_map]
    exact congrArg _ (map_congr_left fun e _ => (change_place bulkResume ws ids e).1)
  rw [hline] at hmem ⊢
  have hnew := (mem_append.mp hmem).resolve_left (not_mem_line_of_resumed hj)
  exact (singleton_sublist.mpr hin).append (singleton_sublist.mpr hnew)

/-- **Resuming entries of live lanes keeps these in order, with the resumed entries
    last, exactly when they held the next positions.** -/
theorem bulkResume_iff (ws : WorkspaceId) (ids : List EntryId) (ho : InOrder L t)
    (hlive : ∀ y ∈ t.rows, bulkResume.takes ws ids y = true → L.Live y.slotNumber) :
    (InOrder L (bulkSetStatus bulkResume t ws ids).1 ∧
        Behind L (resumed ws ids t) t (bulkSetStatus bulkResume t ws ids).1) ↔
      JoinsTail L t (bulkResume.takes ws ids) := by
  refine ⟨fun ⟨ho', hbehind⟩ => ?_, bulkResume_spec ws ids ho⟩
  have hrow : ∀ z ∈ t.rows,
      bulkResume.change ws ids z ∈ (bulkSetStatus bulkResume t ws ids).1.rows := by
    intro z hz
    rw [bulkSetStatus_rows]
    exact mem_map_of_mem hz
  have habove : ∀ y ∈ t.rows, bulkResume.takes ws ids y = true →
      ∀ x ∈ waitingInLane L t y.slotNumber, x.position < y.position := by
    intro y hy htake x hx
    obtain ⟨hx, hxn⟩ := mem_waitingInLane.mp hx
    have hid := fun e => (change_place bulkResume ws ids e).1
    have hjoin := mem_resumed.mpr ⟨y, hy, htake, rfl⟩
    have hwait : (bulkResume.change ws ids y).inLane y.slotNumber = true := by
      rw [change, if_pos htake]
      exact inLane_iff.mpr ⟨rfl, rfl⟩
    have hxline : x.id ∈ line L t y.slotNumber := mem_line.mpr ⟨x, hx, hxn, rfl⟩
    have hprec := hbehind y.slotNumber y.id x.id hjoin
      (mem_line.mpr ⟨_, hrow y hy, hwait, hid y⟩)
      (fun hmem => not_mem_line_of_resumed hmem hxline) hxline
    obtain ⟨x', hx', y', hy', hxn', hyn', hxid, hyid, hlt⟩ := precedes_line_iff.mp hprec
    have hpos := (ho' _ (hlive y hy htake)).position_lt (mem_waitingInLane.mpr ⟨hx', hxn'⟩)
      (mem_waitingInLane.mpr ⟨hy', hyn'⟩) hlt
    obtain rfl := Keyed.eq_of_id hx' (hrow x hx) (hxid.trans (hid x).symm)
    obtain rfl := Keyed.eq_of_id hy' (hrow y hy) (hyid.trans (hid y).symm)
    rw [(change_place bulkResume ws ids x).2, (change_place bulkResume ws ids y).2] at hpos
    exact hpos
  exact ⟨habove, fun n hn =>
    (bulkResume_numbered_iff ws ids (ho n hn) habove).mp (ho' n hn)⟩

/-! ## Retries -/

theorem workspaceEntry_eq_some (h : workspaceEntry t ws i = some e) : e ∈ t.rows ∧ e.id = i :=
  Keyed.get_eq_some (Option.filter_eq_some_iff.mp h).1

def retried (ws : WorkspaceId) (i : EntryId) (t : EntryTable) : List EntryId :=
  if (workspaceEntry t ws i).any (fun e => e.retryCount < e.maxRetries) then [i] else []

theorem retryFailedEntry_spec (ws : WorkspaceId) (i : EntryId) (ho : InOrder L t) :
    KeepsOrder L [i] t (retryFailedEntry L t ws i).1 ∧
      Behind L (retried ws i t) t (retryFailedEntry L t ws i).1 ∧
      InOrder L (retryFailedEntry L t ws i).1 := by
  have hsame : KeepsOrder L [i] t t := of_filter fun _ => rfl
  rw [retryFailedEntry, retried]
  cases hentry : workspaceEntry t ws i with
  | none => exact ⟨hsame, Behind.none, ho⟩
  | some entry =>
    obtain ⟨he, rfl⟩ := workspaceEntry_eq_some hentry
    dsimp only [Option.any_some]
    by_cases hmax : entry.retryCount ≥ entry.maxRetries
    · rw [if_pos hmax, if_neg (by simpa using hmax)]
      exact ⟨hsame, Behind.none, ho⟩
    · obtain ⟨lane, -, hput, ho'⟩ := applyRetry_spec ho he
      rw [if_neg hmax, if_pos (by simpa using hmax)]
      exact ⟨hput.keepsOrder, hput.behind, ho'⟩

/-- The ids a retry of everything failed puts back in line. -/
def retriedAll (ws : WorkspaceId) (t : EntryTable) : List EntryId :=
  ((failedEntries t ws).filter fun e => e.retryCount < e.maxRetries).map (·.id)

section

variable (he : e ∈ t.rows)
include he

theorem not_mem_line_of_not_waiting (hw : e.status.waiting = false) : e.id ∉ line L t n := by
  intro hmem
  obtain ⟨x, hx, hxn, hid⟩ := mem_line.mp hmem
  obtain rfl := Keyed.eq_of_id hx he hid
  rw [(inLane_iff.mp hxn).1] at hw
  cases hw

theorem mem_renumber (hw : e.status.waiting = false) : e ∈ (renumber L n none t).rows := by
  refine mem_map.mpr ⟨e, he, ?_⟩
  rw [numbered, if_neg]
  exact not_mem_line_of_not_waiting he hw

theorem mem_update {hg : ∀ e, (g e).id = e.id} (hne : e.id ≠ i) : e ∈ (t.update i g hg).rows :=
  mem_map.mpr ⟨e, he, if_neg hne⟩

theorem mem_applyRetry {entry : QueuedRun} (hne : e.id ≠ entry.id)
    (hw : e.status.waiting = false) : e ∈ (applyRetry L t entry).1.rows := by
  exact mem_renumber (mem_update (mem_update he hne) hne) hw

end

theorem retryIfUnderCeiling_foldl {rows : List QueuedRun} (ho : InOrder L t)
    (hn : (rows.map (·.id)).Nodup) (hrows : ∀ e ∈ rows, e ∈ t.rows ∧ e.status.waiting = false) :
    PutAll L ((rows.filter fun e => e.retryCount < e.maxRetries).map (·.id)) t
        ((rows.map (·.id)).foldl (retryIfUnderCeiling L) t) ∧
      InOrder L ((rows.map (·.id)).foldl (retryIfUnderCeiling L) t) := by
  induction rows generalizing t with
  | nil => exact ⟨PutAll.nil t, ho⟩
  | cons e rows ih =>
    rw [map_cons] at hn
    obtain ⟨hid, hn'⟩ := nodup_cons.mp hn
    obtain ⟨he, -⟩ := hrows e mem_cons_self
    rw [map_cons, foldl_cons, retryIfUnderCeiling, Keyed.get_of_mem he]
    dsimp only
    by_cases hmax : e.retryCount ≥ e.maxRetries
    · rw [if_pos hmax, filter_cons_of_neg (by simpa using hmax)]
      exact ih ho hn' fun x hx => hrows x (mem_cons_of_mem _ hx)
    · rw [if_neg hmax, filter_cons_of_pos (by simpa using hmax), map_cons]
      obtain ⟨lane, hlive, hput, ho'⟩ := applyRetry_spec ho he
      obtain ⟨hall, hfinal⟩ := ih ho' hn' fun x hx => by
        obtain ⟨hx', hw⟩ := hrows x (mem_cons_of_mem _ hx)
        have hne : x.id ≠ e.id := fun h => hid (h ▸ mem_map_of_mem hx)
        exact ⟨mem_applyRetry hx' hne hw, hw⟩
      exact ⟨PutAll.cons hlive hput hall, hfinal⟩

theorem retryAllFailed_spec (ws : WorkspaceId) (ho : InOrder L t) :
    KeepsOrder L [] t (retryAllFailed L t ws) ∧
      Behind L (retriedAll ws t) t (retryAllFailed L t ws) ∧ InOrder L (retryAllFailed L t ws) := by
  have hnodup : ((failedEntries t ws).map (·.id)).Nodup := (filter_sublist.map _).nodup t.nodup
  have hfailed : ∀ e ∈ failedEntries t ws, e ∈ t.rows ∧ e.status.waiting = false := by
    intro e he
    obtain ⟨he, hq⟩ := mem_filter.mp he
    rw [(of_decide_eq_true hq).2]
    exact ⟨he, rfl⟩
  have hnodup' : (retriedAll ws t).Nodup := (filter_sublist.map _).nodup hnodup
  obtain ⟨hput, ho'⟩ := retryIfUnderCeiling_foldl ho hnodup hfailed
  refine ⟨hput.keepsOrder hnodup' fun m a c hac => .inl ?_, hput.behind hnodup', ho'⟩
  have hout : ∀ x ∈ line L t m, x ∉ retriedAll ws t := by
    intro x hx hmem
    obtain ⟨e, he, rfl⟩ := mem_map.mp hmem
    obtain ⟨he, hw⟩ := hfailed e (mem_filter.mp he).1
    exact not_mem_line_of_not_waiting he hw hx
  exact ⟨hout a hac.mem_left, hout c hac.mem_right⟩

/-! ## Runs -/

def LaneCall.rejoined (t : EntryTable) : LaneCall → List EntryId
  | .bulkResume ws ids => resumed ws ids t
  | .retryFailedEntry ws i => retried ws i t
  | .retryAllFailed ws => retriedAll ws t
  | _ => []

def LaneCall.moved : LaneCall → List EntryId
  | .moveEntry i _ _ => [i]
  | .retryFailedEntry _ i => [i]
  | _ => []

/-- What a call must meet to leave the lanes in order: a cancel or pause takes the
    ends of the live lines, a resume brings back what held the next positions, and
    a completion settles no entry that others of a live lane wait behind. -/
def Careful (L : LaneService) (t : EntryTable) : LaneCall → Prop
  | .bulkCancel ws ids => TakesTail L t (bulkCancel.takes ws ids)
  | .bulkPause ws ids => TakesTail L t (bulkPause.takes ws ids)
  | .bulkResume ws ids => JoinsTail L t (bulkResume.takes ws ids)
  | .onOrchestrationComplete orch => SettlesLast L t orch
  | _ => True

/-- One completed call, made when the rest of the program stands as given. -/
def LaneStep (L : LaneService) (b : Board) (step : Outside × LaneCall) (b' : Board) : Prop :=
  b' = serveAt L b step

structure Orderly (L : LaneService) (call : LaneCall) (t t' : EntryTable) : Prop where
  inOrder : InOrder L t'
  behind : Behind L (call.rejoined t) t t'
  keepsOrder : KeepsOrder L call.moved t t'

/-- **One careful call** keeps every live lane numbered, puts what rejoins a lane
    behind what waits there, and moves no other entry. -/
theorem serve_orderly {call : LaneCall} (ho : InOrder L b.entries) (hc : Careful L b.entries call) :
    Orderly L call b.entries (call.serve L b).entries := by
  cases call with
  | addToLane ticketId n kind stageKey ask =>
    obtain ⟨hkeep, ho'⟩ := addToLane_spec (n := n) ho ticketId kind stageKey ask
    exact ⟨ho', Behind.none, hkeep⟩
  | removeEntry i =>
    have hs := removeEntry_shrinks L b i
    exact ⟨hs.inOrder ho, Behind.none, of_shrinks hs _⟩
  | moveEntry i n position =>
    obtain ⟨hkeep, ho'⟩ := moveEntry_spec i n position ho
    exact ⟨ho', Behind.none, hkeep⟩
  | startLaneHead n =>
    have hs := startLaneHead_shrinks L b n
    exact ⟨hs.inOrder ho, Behind.none, of_shrinks hs _⟩
  | onOrchestrationComplete orch =>
    obtain ⟨hsub, ho'⟩ := onOrchestrationComplete_spec (L := L) (b := b) orch
    exact ⟨ho' ho hc, Behind.none, sublist (of_filter fun _ => rfl) hsub⟩
  | reconcileLanes =>
    obtain ⟨hkeep, ho'⟩ := reconcileLanes_spec ho
    exact ⟨ho', Behind.none, hkeep⟩
  | bulkCancel ws ids | bulkPause ws ids =>
    exact ⟨(bulkTake_inOrder_iff rfl ws ids ho).mpr hc, Behind.none,
      bulkSetStatus_keepsOrder _ ws _ ids⟩
  | bulkResume ws ids =>
    obtain ⟨ho', hbehind⟩ := bulkResume_spec ws ids ho hc
    exact ⟨ho', hbehind, bulkSetStatus_keepsOrder _ ws _ ids⟩
  | retryFailedEntry ws i =>
    obtain ⟨hkeep, hbehind, ho'⟩ := retryFailedEntry_spec ws i ho
    exact ⟨ho', hbehind, hkeep⟩
  | retryAllFailed ws =>
    obtain ⟨hkeep, hbehind, ho'⟩ := retryAllFailed_spec ws ho
    exact ⟨ho', hbehind, hkeep⟩

abbrev CarefulStep (L : LaneService) : Board → Outside × LaneCall → Board → Prop :=
  Guarded (LaneStep L) fun b step => Careful L b.entries step.2

/-- **The lanes stay in order**: in every run of careful calls from lanes in order, the waiting
    positions of every live lane read 1..N in each state reached, what is resumed or retried goes
    behind what waits, and no call moves an entry it was not asked to. -/
theorem lanes_stay_in_order {b b' : Board} {trace : List (Outside × LaneCall)}
    (ho : InOrder L b.entries) (hr : Run (CarefulStep L) b trace b') :
    InOrder L b'.entries ∧ ∀ step b'', CarefulStep L b' step b'' →
      Orderly L step.2 b'.entries b''.entries := by
  have hstep : ∀ s l s', InOrder L s.entries → CarefulStep L s l s' →
      Orderly L l.2 s.entries s'.entries := by
    rintro s ⟨o, call⟩ s' hs ⟨hc, rfl⟩
    exact serve_orderly (b := { s with outside := o }) hs hc
  have hend : InOrder L b'.entries :=
    Run.invariant (P := fun s => InOrder L s.entries)
      (fun s l s' hs h => (hstep s l s' hs h).inOrder) ho hr
  exact ⟨hend, fun step b'' h => hstep b' step b'' hend h⟩

/-! ## One lane at work -/

instance : Decidable (Numbered L t n) := inferInstanceAs (Decidable (_ = _))

instance (takes : QueuedRun → Bool) : Decidable (TakesTail L t takes) :=
  inferInstanceAs (Decidable (∀ n, n ≤ L.maxConcurrent → _))

instance (takes : QueuedRun → Bool) : Decidable (JoinsTail L t takes) :=
  decidable_of_iff
    ((∀ y ∈ t.rows, takes y = true → ∀ x ∈ waitingInLane L t y.slotNumber, x.position < y.position)
      ∧ ∀ n, n ≤ L.maxConcurrent →
        (ranked L.place (t.rows.filter fun e => takes e && e.slotNumber == n)).map (·.position)
          = List.range' ((waitingInLane L t n).length + 1)
              (ranked L.place (t.rows.filter fun e => takes e && e.slotNumber == n)).length)
    ⟨fun h => ⟨h.1, h.2⟩, fun h => ⟨h.behind, h.next⟩⟩

instance (a c : EntryId) (l : List EntryId) : Decidable (Precedes a c l) :=
  inferInstanceAs (Decidable (List.Sublist _ _))

instance (i : EntryId) : Decidable (NoneBehind L t i) :=
  inferInstanceAs (Decidable (∀ n, n ≤ L.maxConcurrent → _))

instance (orch : Nat) : Decidable (SettlesLast L t orch) :=
  inferInstanceAs (Decidable (∀ entry ∈ entryOfOrchestration t orch, _))

instance (L : LaneService) (t : EntryTable) : DecidablePred (Careful L t)
  | .bulkCancel ws ids => inferInstanceAs (Decidable (TakesTail L t (bulkCancel.takes ws ids)))
  | .bulkPause ws ids => inferInstanceAs (Decidable (TakesTail L t (bulkPause.takes ws ids)))
  | .bulkResume ws ids => inferInstanceAs (Decidable (JoinsTail L t (bulkResume.takes ws ids)))
  | .onOrchestrationComplete orch => inferInstanceAs (Decidable (SettlesLast L t orch))
  | .addToLane _ _ _ _ _ | .removeEntry _ | .moveEntry _ _ _ | .startLaneHead _
  | .reconcileLanes | .retryFailedEntry _ _ | .retryAllFailed _ =>
    inferInstanceAs (Decidable True)

theorem run_serveAt (L : LaneService) (b : Board) (trace : List (Outside × LaneCall)) :
    Run (LaneStep L) b trace (trace.foldl (serveAt L) b) := by
  refine Run.of_foldl (fun s l => ?_) b trace
  exact rfl

theorem run_careful {trace : List (Outside × LaneCall)}
    (h : meets (serveAt L) (fun b step => decide (Careful L b.entries step.2)) b trace = true) :
    Run (CarefulStep L) b trace (trace.foldl (serveAt L) b) :=
  Run.of_meets (fun _ _ hc => ⟨of_decide_eq_true hc, rfl⟩) h

/-- Starts every ticket's orchestration under the ticket's own number. -/
def startsAll : Dispatcher where
  dispatchStage := fun ticket _ o => (.ok ticket.id, o)
  dispatchOrchestration := fun ticket _ o =>
    (some ticket.id, { o with
      orchestrations := o.orchestrations ++ [{ id := ticket.id, ticketId := ticket.id }] })

def oneLane : LaneService where
  maxConcurrent := 1
  one_le := Nat.le_refl 1
  rowOrder := id
  dispatcher := some startsAll
  prepareRerun := fun _ o => ("", o)

def idleBoard : Board where
  entries := Keyed.empty
  slots := []
  outside := { tickets := [{ id := 1 }, { id := 2 }, { id := 3 }, { id := 4 }] }

def queueTicket (ticketId : TicketId) : Outside × LaneCall :=
  (idleBoard.outside, .addToLane ticketId 1 .orchestration "" {})

/-- One ticket runs and three wait behind it, as entries 1, 2 and 3. -/
def threeWait : List (Outside × LaneCall) := [1, 2, 3, 4].map queueTicket

/-- Call by call, with the tickets as they are on the idle board. -/
def calls (cs : List LaneCall) : List (Outside × LaneCall) := cs.map fun c => (idleBoard.outside, c)

theorem lanes_stay_in_order_tail : InOrder oneLane
    ((threeWait ++ calls [.bulkPause 0 [2, 3], .bulkResume 0 [2, 3], .bulkCancel 0 [3],
      .moveEntry 2 1 1, .onOrchestrationComplete 1, .retryFailedEntry 0 0]).foldl
        (serveAt oneLane) idleBoard).entries := by
  have hidle : InOrder oneLane idleBoard.entries := fun _ _ => rfl
  refine (lanes_stay_in_order hidle (run_careful ?_)).1
  decide +kernel

/-- The last two of three waiting entries, paused. -/
def pausedTail : EntryTable := (bulkSetStatus bulkPause
  (threeWait.foldl (serveAt oneLane) idleBoard).entries 0 [2, 3]).1

theorem bulkResume_iff_paused :
    (InOrder oneLane (bulkSetStatus bulkResume pausedTail 0 [2, 3]).1 ∧
      Behind oneLane (resumed 0 [2, 3] pausedTail) pausedTail
        (bulkSetStatus bulkResume pausedTail 0 [2, 3]).1) ↔
      JoinsTail oneLane pausedTail (bulkResume.takes 0 [2, 3]) :=
  have ho : ∀ n ≤ oneLane.maxConcurrent, Numbered oneLane pausedTail n := by decide +kernel
  have hlive : ∀ y ∈ pausedTail.rows, y.slotNumber ≤ oneLane.maxConcurrent := by decide +kernel
  bulkResume_iff 0 [2, 3] ho fun y hy _ => hlive y hy

/-- Cancelling the second of three waiting entries leaves positions 1 and 3; and an
    entry resumed while another waits comes ahead of it. -/
theorem cancel_and_resume_break_the_lane :
    (∃ trace b, Run (LaneStep oneLane) idleBoard trace b ∧ ¬ InOrder oneLane b.entries) ∧
      ∃ trace b step b', Run (LaneStep oneLane) idleBoard trace b ∧ LaneStep oneLane b step b' ∧
        ¬ Behind oneLane (step.2.rejoined b.entries) b.entries b'.entries := by
  refine ⟨⟨threeWait ++ calls [.bulkCancel 0 [2]], _, run_serveAt oneLane _ _, ?_⟩,
    threeWait ++ calls [.bulkPause 0 [1]], _, (idleBoard.outside, .bulkResume 0 [1]), _,
    run_serveAt oneLane _ _, rfl, ?_⟩
  · intro h
    have hlane := h 1 (Nat.le_refl 1)
    revert hlane
    decide +kernel
  · intro h
    have hahead := h 1 1 2
    revert hahead
    decide +kernel

end Loregarden.Lanes

