import Loregarden.LeastOrderProofs
import Loregarden.SubtreeModel

/-! # The order a parent's children run in

    `order_children_for_subtree` lists the children one turn at a time, the least of those whose
    prerequisites among the children are listed, or the least of all where a cycle leaves none.

    * `orderLoop_perm`: it lists each child once, whatever the prerequisites;
    * `orderLoop_greedy`: without a cycle each turn takes the least child that is free;
    * `subtree_order`: so the order is the least that puts prerequisites first. -/

namespace Loregarden.Subtree

open LeastOrder List

variable {prereqs : Nat → List Nat} {ids done : List Nat} {children order : List Ticket}
  {remaining : List Child} {child : Child}

def childSortKey (ticket : Ticket) : ℕ ×ₗ ℤ ×ₗ String :=
  toLex (typeOrder ticket.workItemType, toLex (ticket.priority, ticket.externalId))

theorem childSortLe_iff {a b : Ticket} :
    childSortLe a b = true ↔ childSortKey a ≤ childSortKey b := by
  rw [childSortKey, childSortKey, Prod.Lex.toLex_le_toLex, Prod.Lex.toLex_le_toLex, childSortLe]
  simp

theorem minChild_spec (h : remaining ≠ []) : ∃ least, minChild remaining = some least ∧
    least ∈ remaining ∧ ∀ child ∈ remaining, childSortKey least.1 ≤ childSortKey child.1 := by
  induction remaining with
  | nil => exact absurd rfl h
  | cons first rest ih =>
    cases rest with
    | nil =>
      refine ⟨first, rfl, mem_cons_self, ?_⟩
      intro child hchild
      rw [mem_singleton.mp hchild]
    | cons second rest =>
      obtain ⟨least, hmin, hmem, hleast⟩ := ih (cons_ne_nil _ _)
      rw [minChild, hmin]
      dsimp only
      split
      · rename_i hle
        have hle := childSortLe_iff.mp hle
        refine ⟨first, rfl, mem_cons_self, ?_⟩
        intro child hchild
        rcases mem_cons.mp hchild with rfl | hchild
        · exact le_rfl
        · exact hle.trans (hleast child hchild)
      · rename_i hle
        have hle := le_of_not_ge (fun hge => hle (childSortLe_iff.mpr hge))
        refine ⟨least, rfl, mem_cons_of_mem _ hmem, ?_⟩
        intro child hchild
        rcases mem_cons.mp hchild with rfl | hchild
        · exact hle
        · exact hleast child hchild

def readyAmong (prereqs : Nat → List Nat) (ids done : List Nat) (remaining : List Child) :
    List Child :=
  remaining.filter fun child =>
    (prereqs child.1.id).all fun prerequisite => prerequisite ∉ ids || prerequisite ∈ done

theorem orderLoop_succ (turns : Nat) (hne : remaining ≠ []) : ∃ next ∈ remaining,
      (readyAmong prereqs ids done remaining ≠ [] → next ∈ readyAmong prereqs ids done remaining ∧
        ∀ child ∈ readyAmong prereqs ids done remaining,
          childSortKey next.1 ≤ childSortKey child.1) ∧
      orderLoop prereqs ids (turns + 1) remaining done = next ::
        orderLoop prereqs ids turns (remaining.filter (·.2 ≠ next.2)) (next.1.id :: done) := by
  have hchoice : (if (readyAmong prereqs ids done remaining).isEmpty then remaining
      else readyAmong prereqs ids done remaining) ≠ [] := by
    split
    · exact hne
    · rename_i hready
      exact fun hnil => hready (isEmpty_iff.mpr hnil)
  obtain ⟨next, hmin, hmem, hleast⟩ := minChild_spec hchoice
  have hloop : orderLoop prereqs ids (turns + 1) remaining done = next ::
      orderLoop prereqs ids turns (remaining.filter (·.2 ≠ next.2)) (next.1.id :: done) := by
    rw [readyAmong] at hmin
    rw [orderLoop, hmin]
  by_cases hready : readyAmong prereqs ids done remaining = []
  · rw [hready] at hmem
    exact ⟨next, hmem, fun h => absurd hready h, hloop⟩
  · rw [if_neg (by rwa [List.isEmpty_iff])] at hmem hleast
    exact ⟨next, List.mem_of_mem_filter hmem, fun _ => ⟨hmem, hleast⟩, hloop⟩

theorem perm_cons_filter (hplaces : (remaining.map Prod.snd).Nodup) (hchild : child ∈ remaining) :
    (child :: remaining.filter (·.2 ≠ child.2)).Perm remaining := by
  induction remaining with
  | nil => cases hchild
  | cons first rest ih =>
    obtain ⟨hfirst, hrest⟩ := nodup_cons.mp hplaces
    rcases mem_cons.mp hchild with rfl | hmem
    · have hall : rest.filter (·.2 ≠ child.2) = rest := by
        refine filter_eq_self.mpr fun other hother => decide_eq_true ?_
        exact fun hsame => hfirst (hsame ▸ mem_map_of_mem hother)
      rw [filter_cons_of_neg (by simp), hall]
    · have hne : first.2 ≠ child.2 := fun hsame => hfirst (hsame ▸ mem_map_of_mem hmem)
      rw [filter_cons_of_pos (by simpa using hne)]
      exact (List.Perm.swap first child _).trans ((ih hrest hmem).cons first)

/-! ## The whole order -/

/-- **Each child is listed once**, also where a cycle leaves none of them ready. -/
theorem orderLoop_perm {turns : Nat} (hturns : remaining.length = turns)
    (hplaces : (remaining.map Prod.snd).Nodup) :
    (orderLoop prereqs ids turns remaining done).Perm remaining := by
  induction turns generalizing remaining done with
  | zero =>
    rw [length_eq_zero_iff.mp hturns]
    exact .nil
  | succ turns ih =>
    have hne : remaining ≠ [] := by
      rintro rfl
      cases hturns
    obtain ⟨next, hnext, -, hloop⟩ := orderLoop_succ turns hne
    have hperm := perm_cons_filter hplaces hnext
    have hlength : (remaining.filter (·.2 ≠ next.2)).length = turns :=
      Nat.succ.inj (hperm.length_eq.trans hturns)
    rw [hloop]
    refine ((ih hlength ?_).cons next).trans hperm
    exact hplaces.sublist (filter_sublist.map _)

def Waits (prereqs : Nat → List Nat) (a b : Ticket) : Prop := b.id ∈ prereqs a.id

structure Listing (ids done : List Nat) (remaining : List Child) : Prop where
  places : (remaining.map Prod.snd).Nodup
  left : ∀ child ∈ remaining, child.1.id ∈ ids ∧ child.1.id ∉ done
  listed : ∀ id ∈ ids, id ∈ done ∨ ∃ child ∈ remaining, child.1.id = id
  distinct : (remaining.map (·.1.id)).Nodup

namespace Listing

theorem mem_readyAmong (h : Listing ids done remaining) :
    child ∈ readyAmong prereqs ids done remaining ↔
      child ∈ remaining ∧ Free (Waits prereqs) (remaining.map Prod.fst) child.1 := by
  rw [readyAmong, mem_filter, all_eq_true]
  refine and_congr_right fun _ => ?_
  constructor
  · intro hready b hb hwaits
    obtain ⟨other, hother, rfl⟩ := mem_map.mp hb
    obtain ⟨hin, hout⟩ := h.left other hother
    have hready := hready other.1.id hwaits
    rw [Bool.or_eq_true, decide_eq_true_eq, decide_eq_true_eq] at hready
    rcases hready with hnot | hdone
    · exact hnot hin
    · exact hout hdone
  · intro hfree p hp
    rw [Bool.or_eq_true, decide_eq_true_eq, decide_eq_true_eq]
    by_contra hnot
    rw [not_or, not_not] at hnot
    rcases h.listed p hnot.1 with hdone | ⟨other, hother, rfl⟩
    · exact hnot.2 hdone
    · exact hfree other.1 (mem_map_of_mem hother) hp

theorem turn (h : Listing ids done remaining) (hchild : child ∈ remaining) :
    Listing ids (child.1.id :: done) (remaining.filter (·.2 ≠ child.2)) := by
  have hperm := perm_cons_filter h.places hchild
  have hdistinct := (hperm.map (·.1.id)).nodup_iff.mpr h.distinct
  refine ⟨h.places.sublist (filter_sublist.map _), ?_, ?_, (nodup_cons.mp hdistinct).2⟩
  · intro other hother
    obtain ⟨hin, hout⟩ := h.left other (mem_of_mem_filter hother)
    refine ⟨hin, ?_⟩
    rw [mem_cons, not_or]
    refine ⟨?_, hout⟩
    intro hsame
    exact (nodup_cons.mp hdistinct).1 (mem_map.mpr ⟨other, hother, hsame⟩)
  · intro id hid
    rcases h.listed id hid with hdone | ⟨other, hother, rfl⟩
    · exact .inl (mem_cons_of_mem _ hdone)
    · rcases mem_cons.mp (hperm.mem_iff.mpr hother) with rfl | hother
      · exact .inl mem_cons_self
      · exact .inr ⟨other, hother, rfl⟩

end Listing

/-- **Without a cycle each turn takes the least child that is free.** -/
theorem orderLoop_greedy {turns : Nat} (h : Listing ids done remaining)
    (hturns : remaining.length = turns)
    (hacyclic : Acyclic (Waits prereqs) (remaining.map Prod.fst)) :
    Greedy childSortKey (Waits prereqs)
      ((orderLoop prereqs ids turns remaining done).map Prod.fst) := by
  induction turns generalizing remaining done with
  | zero =>
    exact .nil
  | succ turns ih =>
    have hne : remaining ≠ [] := by
      rintro rfl
      cases hturns
    obtain ⟨next, hnext, hready, hloop⟩ := orderLoop_succ turns hne
    have hperm := perm_cons_filter h.places hnext
    have hlength : (remaining.filter (·.2 ≠ next.2)).length = turns :=
      Nat.succ.inj (hperm.length_eq.trans hturns)
    have hsome : readyAmong prereqs ids done remaining ≠ [] := by
      obtain ⟨a, ha, hfree⟩ := exists_free hacyclic (by simpa using hne)
      obtain ⟨child, hchild, rfl⟩ := mem_map.mp ha
      exact ne_nil_of_mem (h.mem_readyAmong.mpr ⟨hchild, hfree⟩)
    obtain ⟨hmem, hleast⟩ := hready hsome
    -- what this turn and the later ones list is what remained
    have hall : ∀ a, a ∈ next.1 :: (orderLoop prereqs ids turns
        (remaining.filter (·.2 ≠ next.2)) (next.1.id :: done)).map Prod.fst ↔
        a ∈ remaining.map Prod.fst := by
      intro a
      have hrest : (orderLoop prereqs ids turns (remaining.filter (·.2 ≠ next.2))
          (next.1.id :: done)).Perm (remaining.filter (·.2 ≠ next.2)) :=
        orderLoop_perm hlength (h.turn hnext).places
      exact (((hrest.cons next).trans hperm).map Prod.fst).mem_iff
    rw [hloop, map_cons]
    refine .cons ?_ ?_ (ih (h.turn hnext) hlength ?_)
    · intro b hb
      exact (h.mem_readyAmong.mp hmem).2 b ((hall b).mp hb)
    · intro b hb hfree
      obtain ⟨child, hchild, rfl⟩ := mem_map.mp ((hall b).mp hb)
      refine hleast child (h.mem_readyAmong.mpr ⟨hchild, ?_⟩)
      exact fun c hc => hfree c ((hall c).mpr hc)
    · refine hacyclic.subset fun a ha => ?_
      obtain ⟨child, hchild, rfl⟩ := mem_map.mp ha
      exact mem_map_of_mem (mem_of_mem_filter hchild)

theorem ids_zipIdx (children : List Ticket) :
    children.zipIdx.map (·.1.id) = children.map (·.id) := by
  calc children.zipIdx.map (·.1.id)
      = (children.zipIdx.map Prod.fst).map (·.id) := map_map.symm
    _ = children.map (·.id) := by rw [zipIdx_map_fst]

def orderChildrenForSubtree (children : List Ticket) (prereqs : Nat → List Nat) : List Ticket :=
  (orderLoop prereqs (children.map (·.id)) children.length children.zipIdx []).map Prod.fst

/-- **The children run in the least order that puts prerequisites first**, each of them once, also
    where their prerequisites are a cycle. -/
theorem subtree_order (children : List Ticket) (prereqs : Nat → List Nat)
    (hids : (children.map (·.id)).Nodup) (hkeys : (children.map childSortKey).Nodup) :
    (orderChildrenForSubtree children prereqs).Perm children ∧ (Acyclic (Waits prereqs) children →
        PutFirst (Waits prereqs) (orderChildrenForSubtree children prereqs) ∧
        ∀ order, order.Perm children → PutFirst (Waits prereqs) order →
          (orderChildrenForSubtree children prereqs).map childSortKey ≤
            order.map childSortKey) := by
  have hfst : children.zipIdx.map Prod.fst = children := zipIdx_map_fst 0 children
  have hplaces : (children.zipIdx.map Prod.snd).Nodup := by
    rw [zipIdx_map_snd]
    exact nodup_range'
  have hlisting : Listing (children.map (·.id)) [] children.zipIdx := by
    refine ⟨hplaces, ?_, ?_, ids_zipIdx children ▸ hids⟩
    · intro child hchild
      rw [← ids_zipIdx]
      exact ⟨mem_map_of_mem hchild, not_mem_nil⟩
    · intro id hid
      rw [← ids_zipIdx] at hid
      exact .inr (mem_map.mp hid)
  have hperm : (orderChildrenForSubtree children prereqs).Perm children := by
    have hloop : (orderLoop prereqs (children.map (·.id)) children.length children.zipIdx []).Perm
        children.zipIdx := orderLoop_perm length_zipIdx hplaces
    have hloop := hloop.map Prod.fst
    rwa [hfst] at hloop
  refine ⟨hperm, fun hacyclic => ?_⟩
  have hgreedy : Greedy childSortKey (Waits prereqs) (orderChildrenForSubtree children prereqs) :=
    orderLoop_greedy hlisting length_zipIdx (hfst.symm ▸ hacyclic)
  refine ⟨hgreedy.putFirst, fun order horder hfirst => hgreedy.le ?_ ?_ ?_ hfirst⟩
  · intro a ha b hb hkey
    exact inj_on_of_nodup_map hkeys (hperm.mem_iff.mp ha) (hperm.mem_iff.mp hb) hkey
  · exact hperm.nodup_iff.mpr (List.Nodup.of_map _ hids)
  · exact hperm.trans horder.symm

/-- Two tasks of a story, of which the first is the least. -/
def storyTasks : List Ticket :=
  [{ id := 1, externalId := "T-1", title := "use it", state := .backlog, stages := [] },
    { id := 2, externalId := "T-2", title := "build it", state := .backlog, stages := [] }]

/-- It waits for the second, and for a ticket elsewhere. -/
def usedAfterBuilt (id : Nat) : List Nat := if id = 1 then [2, 7] else []

/-- The second task comes first, as the one order that puts it there. -/
theorem subtree_order_pair :
    (orderChildrenForSubtree storyTasks usedAfterBuilt).map (·.id) = [2, 1] ∧
      PutFirst (Waits usedAfterBuilt) (orderChildrenForSubtree storyTasks usedAfterBuilt) := by
  have hacyclic : Acyclic (Waits usedAfterBuilt) storyTasks := by
    refine acyclic_of_rank (fun ticket => 2 - ticket.id) ?_
    intro a ha b hb hwaits
    have hids : ∀ ticket ∈ storyTasks, ticket.id = 1 ∨ ticket.id = 2 := by decide
    rw [Waits, usedAfterBuilt] at hwaits
    split at hwaits
    · rename_i hone
      rcases hids b hb with h | h <;> rw [h] at hwaits
      · exact absurd hwaits (by decide)
      · simp [hone, h]
    · cases hwaits
  have hkeys : (storyTasks.map childSortKey).Nodup := by decide
  exact ⟨by decide, ((subtree_order storyTasks usedAfterBuilt (by decide) hkeys).2 hacyclic).1⟩

end Loregarden.Subtree
