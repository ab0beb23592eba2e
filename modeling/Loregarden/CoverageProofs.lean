import Loregarden.CoverageModel

/-! # Coverage is a partition

    Each ticket has one parent, so of the roots above it one is the nearest, and only the child of
    an owned ticket is found. A level that finds something leaves fewer tickets without an owner,
    so the walk ends, also around a parent cycle, and what it has found is closed under the
    children.

    * `Steady.level`: what a level keeps;
    * `walkRoots_frontier`: the walk comes to its end;
    * `coverage_partition`: every ticket below a root is listed once, under the nearest. -/

namespace Loregarden.Coverage

open GraphSearch Relation List Function
open Option hiding any_eq_true mem_map

variable {s : Session} {rootIds : List TicketId} {walk walk' walk'' : Walk}
  {id p root root' : TicketId} {t child : Ticket}

/-! ## The nearest root -/

def parentOf (s : Session) (id : TicketId) : Option TicketId :=
  (s.tickets.find? (·.id = id)).bind (·.parentTicketId)

def Below (s : Session) (id p : TicketId) : Prop := TransGen (Up (parentOf s)) id p

/-- The first root that the parents of a ticket lead to. -/
inductive Nearest (s : Session) (rootIds : List TicketId) : TicketId → TicketId → Prop
  | child {t : Ticket} {root : TicketId} (ht : t ∈ s.tickets) (hp : t.parentTicketId = some root)
      (hroot : root ∈ rootIds) : Nearest s rootIds root t.id
  | climb {t : Ticket} {root p : TicketId} (ht : t ∈ s.tickets) (hp : t.parentTicketId = some p)
      (hno : p ∉ rootIds) (h : Nearest s rootIds root p) : Nearest s rootIds root t.id

theorem parentOf_eq (ht : t ∈ s.tickets) : parentOf s t.id = t.parentTicketId := by
  rw [parentOf]
  cases hfind : s.tickets.find? (·.id = t.id) with
  | none => exact absurd (List.find?_eq_none.mp hfind t ht) (by simp)
  | some other =>
    have hid : other.id = t.id := by simpa using List.find?_some hfind
    rw [inj_on_of_nodup_map s.ids_nodup (mem_of_find?_eq_some hfind) ht hid]
    rfl

theorem exists_of_parentOf (h : parentOf s id = some p) :
    ∃ t ∈ s.tickets, t.id = id ∧ t.parentTicketId = some p := by
  obtain ⟨t, hfind, hp⟩ := bind_eq_some_iff.mp h
  exact ⟨t, mem_of_find?_eq_some hfind, by simpa using List.find?_some hfind, hp⟩

section

variable (h : Nearest s rootIds root id)
include h

theorem Nearest.parent : ∃ p, parentOf s id = some p ∧
    (p ∈ rootIds ∧ p = root ∨ p ∉ rootIds ∧ Nearest s rootIds root p) := by
  cases h with
  | child ht hp hroot => exact ⟨root, (parentOf_eq ht).trans hp, .inl ⟨hroot, rfl⟩⟩
  | climb ht hp hno h => exact ⟨_, (parentOf_eq ht).trans hp, .inr ⟨hno, h⟩⟩

theorem Nearest.unique (h' : Nearest s rootIds root' id) : root = root' := by
  induction h with
  | child ht hp hroot =>
    obtain ⟨p, hparent, hcases⟩ := h'.parent
    cases hp.symm.trans ((parentOf_eq ht).symm.trans hparent)
    rcases hcases with ⟨-, rfl⟩ | ⟨hno, -⟩
    · rfl
    · exact absurd hroot hno
  | climb ht hp hno _ ih =>
    obtain ⟨p, hparent, hcases⟩ := h'.parent
    cases hp.symm.trans ((parentOf_eq ht).symm.trans hparent)
    rcases hcases with ⟨hroot, -⟩ | ⟨-, h'⟩
    · exact absurd hroot hno
    · exact ih h'

theorem Nearest.root_above : root ∈ rootIds ∧ Below s id root := by
  induction h with
  | child ht hp hroot => exact ⟨hroot, .single ((parentOf_eq ht).trans hp)⟩
  | climb ht hp _ _ ih => exact ⟨ih.1, .head ((parentOf_eq ht).trans hp) ih.2⟩

end

theorem exists_nearest (hroot : root ∈ rootIds) (h : Below s id root) :
    ∃ nearest, Nearest s rootIds nearest id := by
  induction h using TransGen.head_induction_on with
  | single hup =>
    obtain ⟨t, ht, rfl, hp⟩ := exists_of_parentOf hup
    exact ⟨root, .child ht hp hroot⟩
  | @head a c hup _ ih =>
    obtain ⟨t, ht, rfl, hp⟩ := exists_of_parentOf hup
    by_cases hmem : c ∈ rootIds
    · exact ⟨c, .child ht hp hmem⟩
    · obtain ⟨nearest, hnearest⟩ := ih
      exact ⟨nearest, .climb ht hp hmem hnearest⟩

theorem exists_nearest_iff : (∃ root, Nearest s rootIds root id) ↔
    ∃ root ∈ rootIds, Below s id root := by
  constructor
  · rintro ⟨root, h⟩
    exact ⟨root, h.root_above⟩
  · rintro ⟨root, hroot, h⟩
    exact exists_nearest hroot h

/-! ## One child -/

structure Steady (s : Session) (rootIds : List TicketId) (walk : Walk) : Prop where
  roots : ∀ id ∈ rootIds, walk.owner id = some id
  owned : ∀ id root, walk.owner id = some root → id ∉ rootIds → Nearest s rootIds root id
  found : ∀ root t, t ∈ walk.found root ↔
    t ∈ s.tickets ∧ t.id ∉ rootIds ∧ walk.owner t.id = some root
  once : ∀ root, ((walk.found root).map (·.id)).Nodup

/-- A walk goes on from another: it takes no owner back, and what it gives one is in its
    frontier. -/
structure GoesOn (s : Session) (walk walk' : Walk) : Prop where
  keeps : ∀ id root, walk.owner id = some root → walk'.owner id = some root
  gives : ∀ id, (walk'.owner id).isSome → (walk.owner id).isSome ∨ id ∈ walk'.frontier
  longer : walk.frontier ⊆ walk'.frontier
  fresh : ∀ id ∈ walk'.frontier, id ∈ walk.frontier ∨
    walk.owner id = none ∧ ∃ t ∈ s.tickets, t.id = id ∧ (walk'.owner id).isSome

theorem GoesOn.refl (walk : Walk) : GoesOn s walk walk :=
  ⟨fun _ _ h => h, fun _ h => .inl h, fun _ h => h, fun _ h => .inl h⟩

theorem GoesOn.isSome (h : GoesOn s walk walk') (howned : (walk.owner id).isSome) :
    (walk'.owner id).isSome := by
  obtain ⟨root, hroot⟩ := isSome_iff_exists.mp howned
  exact isSome_iff_exists.mpr ⟨root, h.keeps id root hroot⟩

theorem GoesOn.trans (h : GoesOn s walk walk') (h' : GoesOn s walk' walk'') :
    GoesOn s walk walk'' := by
  refine ⟨fun id root ho => h'.keeps id root (h.keeps id root ho), ?_, ?_, ?_⟩
  · intro id ho
    rcases h'.gives id ho with ho | hin
    · rcases h.gives id ho with ho | hin
      · exact .inl ho
      · exact .inr (h'.longer hin)
    · exact .inr hin
  · exact List.Subset.trans h.longer h'.longer
  · intro id hin
    rcases h'.fresh id hin with hin | ⟨hnone, t, ht, hid, howned⟩
    · rcases h.fresh id hin with hin | ⟨hnone, t, ht, hid, howned⟩
      · exact .inl hin
      · exact .inr ⟨hnone, t, ht, hid, h'.isSome howned⟩
    · refine .inr ⟨?_, t, ht, hid, howned⟩
      cases ho : walk.owner id with
      | none => rfl
      | some root => cases hnone.symm.trans (h.keeps id root ho)

theorem Steady.meet (h : Steady s rootIds walk) (ht : child ∈ s.tickets)
    (hp : child.parentTicketId = some p) (ho : walk.owner p = some root) :
    Steady s rootIds (walk.meet child) ∧ GoesOn s walk (walk.meet child) ∧
      ((walk.meet child).owner child.id).isSome := by
  rw [Walk.meet]
  by_cases howned : (walk.owner child.id).isSome
  · rw [if_pos howned]
    exact ⟨h, .refl walk, howned⟩
  · have hnone : walk.owner child.id = none := not_isSome_iff_eq_none.mp howned
    have hnot : child.id ∉ rootIds := by
      intro hmem
      cases hnone.symm.trans (h.roots child.id hmem)
    have hnearest : Nearest s rootIds root child.id := by
      by_cases hproot : p ∈ rootIds
      · cases (h.roots p hproot).symm.trans ho
        exact .child ht hp hproot
      · exact .climb ht hp hproot (h.owned p root ho hproot)
    rw [if_neg howned, hp, bind_some, ho]
    have hother : ∀ id, id ≠ child.id →
        update walk.owner child.id (some root) id = walk.owner id :=
      fun id hne => update_of_ne hne ..
    have hself : update walk.owner child.id (some root) child.id = some root :=
      update_self ..
    refine ⟨⟨?_, ?_, ?_, ?_⟩, ⟨?_, ?_, ?_, ?_⟩, ?_⟩
    · intro id hid
      exact (hother id fun heq => hnot (heq ▸ hid)).trans (h.roots id hid)
    · intro id root' hid hout
      by_cases heq : id = child.id
      · subst heq
        cases hself.symm.trans hid
        exact hnearest
      · exact h.owned id root' ((hother id heq).symm.trans hid) hout
    · intro root' t
      have hids : t ∈ s.tickets → (t.id = child.id ↔ t = child) := fun hmem =>
        ⟨inj_on_of_nodup_map s.ids_nodup hmem ht, fun heq => heq ▸ rfl⟩
      have hgrown : t ∈ update walk.found root (walk.found root ++ [child]) root' ↔
          t ∈ walk.found root' ∨ root' = root ∧ t = child := by
        by_cases hroot : root' = root
        · subst hroot
          rw [update_self, mem_append, mem_singleton, and_iff_right rfl]
        · rw [update_of_ne hroot, or_iff_left fun h => hroot h.1]
      rw [hgrown, h.found]
      constructor
      · rintro (⟨hmem, hout, howner⟩ | ⟨rfl, rfl⟩)
        · refine ⟨hmem, hout, (hother t.id fun heq => ?_).trans howner⟩
          rw [heq, hnone] at howner
          cases howner
        · exact ⟨ht, hnot, hself⟩
      · rintro ⟨hmem, hout, howner⟩
        by_cases heq : t.id = child.id
        · obtain rfl := (hids hmem).mp heq
          cases hself.symm.trans howner
          exact .inr ⟨rfl, rfl⟩
        · exact .inl ⟨hmem, hout, (hother t.id heq).symm.trans howner⟩
    · intro root'
      by_cases hroot : root' = root
      · subst hroot
        show ((update walk.found root' _ root').map (·.id)).Nodup
        rw [update_self, map_append, map_singleton]
        refine List.Nodup.append (h.once root') (nodup_singleton _) ?_
        rw [disjoint_singleton]
        intro hmem
        obtain ⟨t, hfound, hid⟩ := mem_map.mp hmem
        have howner := ((h.found root' t).mp hfound).2.2
        rw [hid, hnone] at howner
        cases howner
      · show ((update walk.found root _ root').map (·.id)).Nodup
        rw [update_of_ne hroot]
        exact h.once root'
    · intro id root' hid
      refine (hother id fun heq => ?_).trans hid
      rw [heq, hnone] at hid
      cases hid
    · intro id hid
      by_cases heq : id = child.id
      · exact .inr (heq ▸ mem_append_right _ (mem_singleton_self _))
      · exact .inl ((hother id heq) ▸ hid)
    · exact subset_append_left ..
    · intro id hid
      rcases mem_append.mp hid with hid | hid
      · exact .inl hid
      · rw [mem_singleton.mp hid]
        exact .inr ⟨hnone, child, ht, rfl, isSome_iff_exists.mpr ⟨root, hself⟩⟩
    · exact isSome_iff_exists.mpr ⟨root, hself⟩

theorem mem_childrenOf {parents : List TicketId} : t ∈ s.childrenOf parents ↔
    t ∈ s.tickets ∧ ∃ p ∈ parents, t.parentTicketId = some p := by
  rw [Session.childrenOf, (s.rowOrder_perm _).mem_iff, mem_filter, Option.any_eq_true]
  refine and_congr_right fun _ => ?_
  constructor
  · rintro ⟨p, hp, hmem⟩
    exact ⟨p, of_decide_eq_true hmem, hp⟩
  · rintro ⟨p, hmem, hp⟩
    exact ⟨p, hp, decide_eq_true hmem⟩

theorem Steady.meets {rows : List Ticket} (h : Steady s rootIds walk)
    (hrows : ∀ t ∈ rows, t ∈ s.tickets ∧ ∃ p, t.parentTicketId = some p ∧ (walk.owner p).isSome) :
    Steady s rootIds (rows.foldl Walk.meet walk) ∧ GoesOn s walk (rows.foldl Walk.meet walk) ∧
      ∀ t ∈ rows, ((rows.foldl Walk.meet walk).owner t.id).isSome := by
  induction rows generalizing walk with
  | nil => exact ⟨h, .refl walk, fun t ht => absurd ht not_mem_nil⟩
  | cons child rows ih =>
    obtain ⟨hchild, p, hp, howned⟩ := hrows child mem_cons_self
    obtain ⟨root, hroot⟩ := isSome_iff_exists.mp howned
    obtain ⟨hmet, hgoes, hself⟩ := h.meet hchild hp hroot
    obtain ⟨hsteady, hon, hall⟩ := ih hmet fun t ht => by
      obtain ⟨hmem, p, hp, howned⟩ := hrows t (mem_cons_of_mem _ ht)
      exact ⟨hmem, p, hp, hgoes.isSome howned⟩
    refine ⟨hsteady, hgoes.trans hon, ?_⟩
    intro t ht
    rcases mem_cons.mp ht with rfl | ht
    · exact hon.isSome hself
    · exact hall t ht

/-- Between two levels: what the frontier does not hold is owned with its children. -/
structure Between (s : Session) (rootIds : List TicketId) (walk : Walk) : Prop where
  steady : Steady s rootIds walk
  owned : ∀ id ∈ walk.frontier, (walk.owner id).isSome
  closed : ∀ t ∈ s.tickets, ∀ p, t.parentTicketId = some p → (walk.owner p).isSome →
    p ∉ walk.frontier → (walk.owner t.id).isSome

theorem Between.level (h : Between s rootIds walk) : Between s rootIds (walk.level s) ∧
      (∀ id, (walk.owner id).isSome → ((walk.level s).owner id).isSome) ∧
      ∀ id ∈ (walk.level s).frontier, walk.owner id = none ∧
        ∃ t ∈ s.tickets, t.id = id ∧ ((walk.level s).owner id).isSome := by
  have hempty : Steady s rootIds { walk with frontier := [] } :=
    ⟨h.steady.roots, h.steady.owned, h.steady.found, h.steady.once⟩
  have hrows : ∀ t ∈ s.childrenOf walk.frontier, t ∈ s.tickets ∧
      ∃ p, t.parentTicketId = some p ∧ (walk.owner p).isSome := by
    intro t ht
    obtain ⟨hmem, p, hfrontier, hp⟩ := mem_childrenOf.mp ht
    exact ⟨hmem, p, hp, h.owned p hfrontier⟩
  obtain ⟨hsteady, hon, hall⟩ := hempty.meets hrows
  have hfresh : ∀ id ∈ (walk.level s).frontier, walk.owner id = none ∧
      ∃ t ∈ s.tickets, t.id = id ∧ ((walk.level s).owner id).isSome := by
    intro id hid
    rcases hon.fresh id hid with hid | hnew
    · exact absurd hid not_mem_nil
    · exact hnew
  refine ⟨⟨hsteady, ?_, ?_⟩, fun id howned => hon.isSome howned, hfresh⟩
  · intro id hid
    obtain ⟨-, t, -, -, howned⟩ := hfresh id hid
    exact howned
  · intro t ht p hp howned hout
    rcases hon.gives p howned with hold | hin
    · by_cases hfrontier : p ∈ walk.frontier
      · exact hall t (mem_childrenOf.mpr ⟨ht, p, hfrontier, hp⟩)
      · exact hon.isSome (h.closed t ht p hp hold hfrontier)
    · exact absurd hin hout

/-! ## The walk -/

def Walk.unowned (s : Session) (walk : Walk) : Nat :=
  (s.tickets.filter fun t => (walk.owner t.id).isNone).length

theorem Between.unowned_lt (h : Between s rootIds walk) (hne : (walk.level s).frontier ≠ []) :
    (walk.level s).unowned s < walk.unowned s := by
  obtain ⟨id, hid⟩ := exists_mem_of_ne_nil _ hne
  obtain ⟨-, hkeeps, hfresh⟩ := h.level
  obtain ⟨hnone, t, ht, rfl, howned⟩ := hfresh id hid
  refine length_filter_lt ?_ ht (by rw [hnone]; rfl) (by simpa using howned)
  intro t hlevel
  cases hold : walk.owner t.id with
  | none => rfl
  | some root =>
    have hstill := hkeeps t.id (by rw [hold]; rfl)
    rw [isNone_iff_eq_none] at hlevel
    rw [hlevel] at hstill
    cases hstill

theorem levels_of_nil (n : Nat) (h : walk.frontier = []) : walk.levels s n = walk := by
  cases n with
  | zero => rfl
  | succ n =>
    exact if_pos h

theorem Between.levels (n : Nat) (h : Between s rootIds walk) :
    Between s rootIds (walk.levels s n) ∧
      (walk.unowned s < n → (walk.levels s n).frontier = []) := by
  induction n generalizing walk with
  | zero => exact ⟨h, fun hlt => absurd hlt (Nat.not_lt_zero _)⟩
  | succ n ih =>
    rw [Walk.levels]
    by_cases hend : walk.frontier = []
    · rw [if_pos hend]
      exact ⟨h, fun _ => hend⟩
    · rw [if_neg hend]
      obtain ⟨hbetween, hends⟩ := ih h.level.1
      refine ⟨hbetween, fun hlt => ?_⟩
      by_cases hnext : (walk.level s).frontier = []
      · rw [levels_of_nil n hnext]
        exact hnext
      · exact hends (lt_of_lt_of_le (h.unowned_lt hnext) (Nat.le_of_lt_succ hlt))

theorem between_start (s : Session) (rootIds : List TicketId) :
    Between s rootIds (Walk.start rootIds) := by
  have howner : ∀ id root, (Walk.start rootIds).owner id = some root → id ∈ rootIds := by
    intro id root h
    rw [Walk.start] at h
    dsimp only at h
    split at h
    · assumption
    · cases h
  refine ⟨⟨?_, ?_, ?_, fun _ => nodup_nil⟩, ?_, ?_⟩
  · intro id hid
    exact if_pos hid
  · intro id root h hout
    exact absurd (howner id root h) hout
  · intro root t
    refine iff_of_false not_mem_nil ?_
    rintro ⟨-, hout, h⟩
    exact hout (howner t.id root h)
  · intro id hid
    exact isSome_iff_exists.mpr ⟨id, if_pos hid⟩
  · intro t _ p _ howned hout
    obtain ⟨root, h⟩ := isSome_iff_exists.mp howned
    exact absurd (howner p root h) hout

theorem between_walkRoots (s : Session) (rootIds : List TicketId) :
    Between s rootIds (walkRoots s rootIds) :=
  ((between_start s rootIds).levels _).1

/-- **The walk ends**, also where parents go round. -/
theorem walkRoots_frontier (s : Session) (rootIds : List TicketId) :
    (walkRoots s rootIds).frontier = [] :=
  ((between_start s rootIds).levels _).2 (Nat.lt_succ_of_le (length_filter_le ..))

theorem mem_descendantsByRoot : t ∈ descendantsByRoot s rootIds root ↔
    t ∈ s.tickets ∧ t.id ∉ rootIds ∧ Nearest s rootIds root t.id := by
  have h := between_walkRoots s rootIds
  have hend := walkRoots_frontier s rootIds
  have hclosed : ∀ t ∈ s.tickets, ∀ p, t.parentTicketId = some p →
      ((walkRoots s rootIds).owner p).isSome → ((walkRoots s rootIds).owner t.id).isSome := by
    intro t ht p hp howned
    exact h.closed t ht p hp howned (hend ▸ not_mem_nil)
  have howner : ∀ {root id}, Nearest s rootIds root id →
      ((walkRoots s rootIds).owner id).isSome := by
    intro root id hnearest
    induction hnearest with
    | child ht hp hroot =>
      exact hclosed _ ht _ hp (isSome_iff_exists.mpr ⟨_, h.steady.roots _ hroot⟩)
    | climb ht hp _ _ ih => exact hclosed _ ht _ hp ih
  rw [descendantsByRoot, h.steady.found]
  refine and_congr_right fun _ => and_congr_right fun hout => ?_
  constructor
  · intro howned
    exact h.steady.owned t.id root howned hout
  · intro hnearest
    obtain ⟨root', hroot'⟩ := isSome_iff_exists.mp (howner hnearest)
    rw [hnearest.unique (h.steady.owned t.id root' hroot' hout)]
    exact hroot'

theorem descendantsByRoot_nodup (root : TicketId) :
    ((descendantsByRoot s rootIds root).map (·.id)).Nodup :=
  (between_walkRoots s rootIds).steady.once root

/-- A coverage lists its roots and what is below them, and no ticket twice. -/
structure CoversOnce (s : Session) (coverage : InitiativeCoverage) : Prop where
  nodup : (coverage.tickets.map (·.id)).Nodup
  mem : ∀ t, t ∈ coverage.tickets ↔ t ∈ s.tickets ∧
    (t ∈ coverage.roots ∨ ∃ root ∈ coverage.roots, Below s t.id root.id)

theorem coversOnce {roots : List Ticket} {memberIds : List TicketId}
    (htable : ∀ root ∈ roots, root ∈ s.tickets) (hnodup : (roots.map (·.id)).Nodup) :
    CoversOnce s ⟨roots, memberIds, descendantsByRoot s (roots.map (·.id))⟩ := by
  constructor
  · rw [InitiativeCoverage.tickets, map_append, map_flatMap]
    refine List.Nodup.append hnodup (nodup_flatMap.mpr ⟨?_, ?_⟩) ?_
    · intro root _
      exact descendantsByRoot_nodup root.id
    · have hpairs : roots.Pairwise fun a c => a.id ≠ c.id := pairwise_map.mp hnodup
      refine hpairs.imp fun {a c} hne => ?_
      intro id ha hc
      obtain ⟨t, ht, rfl⟩ := mem_map.mp ha
      obtain ⟨t', ht', hid⟩ := mem_map.mp hc
      have hnearest := (mem_descendantsByRoot.mp ht).2.2
      have hnearest' := (mem_descendantsByRoot.mp ht').2.2
      rw [hid] at hnearest'
      exact hne (hnearest.unique hnearest')
    · intro id hroot hbelow
      obtain ⟨root, -, hmem⟩ := mem_flatMap.mp hbelow
      obtain ⟨t, ht, rfl⟩ := mem_map.mp hmem
      exact (mem_descendantsByRoot.mp ht).2.1 hroot
  · intro t
    rw [InitiativeCoverage.tickets, mem_append, mem_flatMap]
    constructor
    · rintro (hroot | ⟨root, hroot, hbelow⟩)
      · exact ⟨htable t hroot, .inl hroot⟩
      · obtain ⟨ht, -, hnearest⟩ := mem_descendantsByRoot.mp hbelow
        exact ⟨ht, .inr ⟨root, hroot, hnearest.root_above.2⟩⟩
    · rintro ⟨ht, hroot | ⟨root, hroot, hbelow⟩⟩
      · exact .inl hroot
      · by_cases hmem : t.id ∈ roots.map (·.id)
        · obtain ⟨root', hroot', hid⟩ := mem_map.mp hmem
          rw [← inj_on_of_nodup_map s.ids_nodup (htable root' hroot') ht hid]
          exact .inl hroot'
        · obtain ⟨nearest, hnearest⟩ := exists_nearest (mem_map_of_mem hroot) hbelow
          obtain ⟨root', hroot', rfl⟩ := mem_map.mp hnearest.root_above.1
          exact .inr ⟨root', hroot', mem_descendantsByRoot.mpr ⟨ht, hmem, hnearest⟩⟩

theorem mem_memberTickets {initiativeId : TicketId} : t ∈ memberTickets s initiativeId ↔
    t ∈ s.tickets ∧ ⟨initiativeId, t.id⟩ ∈ s.members := by
  rw [memberTickets, (s.rowOrder_perm _).mem_iff, mem_filter, any_eq_true]
  refine and_congr_right fun _ => ?_
  constructor
  · rintro ⟨row, hrow, hids⟩
    obtain ⟨rfl, hticket⟩ := of_decide_eq_true hids
    rw [← hticket]
    exact hrow
  · intro hrow
    exact ⟨_, hrow, decide_eq_true ⟨rfl, rfl⟩⟩

theorem mem_initiativeRoots {initiativeId : TicketId} :
    t ∈ (initiativeRoots s initiativeId).roots ↔ t ∈ s.tickets ∧
      (t.parentTicketId = some initiativeId ∨ ⟨initiativeId, t.id⟩ ∈ s.members) := by
  have hchild : t ∈ s.childrenOf [initiativeId] ↔
      t ∈ s.tickets ∧ t.parentTicketId = some initiativeId := by
    rw [mem_childrenOf]
    simp
  rw [initiativeRoots, mem_insertionSort, mem_append, hchild, mem_filter,
    mem_memberTickets, decide_eq_true_iff, mem_map]
  constructor
  · rintro (⟨ht, hp⟩ | ⟨⟨ht, hrow⟩, -⟩)
    · exact ⟨ht, .inl hp⟩
    · exact ⟨ht, .inr hrow⟩
  · rintro ⟨ht, hp | hrow⟩
    · exact .inl ⟨ht, hp⟩
    · by_cases hp : t.parentTicketId = some initiativeId
      · exact .inl ⟨ht, hp⟩
      · refine .inr ⟨⟨ht, hrow⟩, ?_⟩
        rintro ⟨other, hother, hid⟩
        obtain ⟨hmem, p, hin, hparent⟩ := mem_childrenOf.mp hother
        rw [inj_on_of_nodup_map s.ids_nodup hmem ht hid, mem_singleton.mp hin] at hparent
        exact hp hparent

theorem filter_ids_nodup (p : Ticket → Bool) :
    ((s.rowOrder (s.tickets.filter p)).map (·.id)).Nodup :=
  ((s.rowOrder_perm _).map _).nodup_iff.mpr
    (s.ids_nodup.sublist (filter_sublist.map _))

theorem initiativeRoots_nodup (s : Session) (initiativeId : TicketId) :
    ((initiativeRoots s initiativeId).roots.map (·.id)).Nodup := by
  refine ((perm_insertionSort _ _).map _).nodup_iff.mpr ?_
  rw [map_append]
  refine List.Nodup.append (filter_ids_nodup _)
    ((filter_ids_nodup _).sublist (filter_sublist.map _)) ?_
  intro id hchild htracked
  obtain ⟨t, ht, rfl⟩ := mem_map.mp htracked
  exact of_decide_eq_true (mem_filter.mp ht).2 hchild

/-- **The walk ends, and lists every ticket below a root once, under the nearest of them; so an
    initiative's coverage, and any plan's, is a partition of its roots and what is below them.** -/
theorem coverage_partition (s : Session) (rootIds : List TicketId) (initiativeId : TicketId) :
    (walkRoots s rootIds).frontier = [] ∧
    (∀ root, ((descendantsByRoot s rootIds root).map (·.id)).Nodup ∧
      ∀ t, t ∈ descendantsByRoot s rootIds root ↔
        t ∈ s.tickets ∧ t.id ∉ rootIds ∧ Nearest s rootIds root t.id) ∧
    (∀ id, (∃ root, Nearest s rootIds root id) ↔ ∃ root ∈ rootIds, Below s id root) ∧
    (∀ id root root', Nearest s rootIds root id → Nearest s rootIds root' id → root = root') ∧
    (∀ t, t ∈ (initiativeCoverage s initiativeId).roots ↔ t ∈ s.tickets ∧
      (t.parentTicketId = some initiativeId ∨ ⟨initiativeId, t.id⟩ ∈ s.members)) ∧
    CoversOnce s (initiativeCoverage s initiativeId) ∧
    ∀ root ∈ s.tickets, CoversOnce s (planCoverage s root) := by
  have hinitiative : ∀ initiativeId, CoversOnce s (initiativeCoverage s initiativeId) := by
    intro initiativeId
    exact coversOnce (fun root hroot => (mem_initiativeRoots.mp hroot).1)
      (initiativeRoots_nodup s initiativeId)
  refine ⟨walkRoots_frontier s rootIds, fun root => ⟨descendantsByRoot_nodup root, fun t =>
    mem_descendantsByRoot⟩, fun id => exists_nearest_iff, fun id root root' h h' => h.unique h',
    fun t => mem_initiativeRoots, hinitiative initiativeId, ?_⟩
  intro root hroot
  rw [planCoverage]
  split
  · exact hinitiative root.id
  · exact coversOnce (fun t ht => mem_singleton.mp ht ▸ hroot) (nodup_singleton _)

/-- A milestone of an initiative with a feature, its capability and a task; the initiative tracks
    the capability as well. -/
def nestedMember : Session where
  tickets := [{ id := 1, workItemType := .initiative },
    { id := 2, parentTicketId := some 1, workItemType := .milestone },
    { id := 3, parentTicketId := some 2 },
    { id := 4, parentTicketId := some 3, workItemType := .capability },
    { id := 5, parentTicketId := some 4, workItemType := .task }]
  members := [⟨1, 4⟩]
  ids_nodup := by decide
  rowOrder_perm := List.Perm.refl

/-- The milestone's tree stops at the capability, which keeps its own. -/
theorem coverage_partition_nested :
    ((initiativeCoverage nestedMember 1).tickets.map (·.id)) = [2, 4, 3, 5] ∧
      CoversOnce nestedMember
        (planCoverage nestedMember { id := 3, parentTicketId := some 2 }) := by
  refine ⟨by decide +kernel, ?_⟩
  exact (coverage_partition nestedMember [2, 4] 1).2.2.2.2.2.2 _ (by decide)

end Loregarden.Coverage

