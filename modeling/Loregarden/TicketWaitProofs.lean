import Mathlib.Data.List.Nodup
import Loregarden.RunProofs
import Loregarden.TicketWaitModel

/-! # Which waits the ticket tables cannot close into a cycle

A ticket waits for its prerequisites, and a parent waits for its children. The writers keep three
facts over every order of edits (`WaitOrder`): no cycle of prerequisite edges, no cycle of parent
links, and no prerequisite edge to the ticket itself or to an ancestor. So a cycle of the combined
relation needs at least two prerequisite edges and a parent link (`wait_cycle_shape`). It needs no
more than that: `child_waits_behind_parent` is a run of two calls that leaves three tickets waiting
on one another. -/

namespace Loregarden.TicketWait

open Relation GraphSearch Runs List Option Database TransGen

namespace Database

variable {db db' : Database} {c a x : TicketId} {p d : Nat} {ticket : Ticket}
variable {parent : Option TicketId}

theorem get_eq_some {id : TicketId} {t : Ticket} :
    db.get id = some t ↔ t ∈ db.tickets ∧ t.id = id := by
  constructor
  · intro h
    exact ⟨mem_of_find?_eq_some h, by simpa using List.find?_some h⟩
  · rintro ⟨hmem, rfl⟩
    have hsome : (db.get t.id).isSome := by
      simp only [get, List.find?_isSome]
      exact ⟨t, hmem, decide_eq_true rfl⟩
    obtain ⟨u, hu⟩ := isSome_iff_exists.mp hsome
    have hid : u.id = t.id := by simpa using List.find?_some hu
    have hmemu : u ∈ db.tickets := mem_of_find?_eq_some hu
    rw [hu, inj_on_of_nodup_map db.ids_nodup hmemu hmem hid]

theorem parentOf_eq_some {p : TicketId} : db.parentOf c = some p ↔ Edge db.parentLinks p c := by
  simp only [parentOf, bind_eq_some_iff, get_eq_some, Edge, parentLinks,
    mem_filterMap, map_eq_some_iff, Prod.mk.injEq]
  constructor
  · rintro ⟨t, ⟨hmem, hid⟩, hp⟩
    exact ⟨t, hmem, p, hp, rfl, hid⟩
  · rintro ⟨t, hmem, q, hq, rfl, hid⟩
    exact ⟨t, ⟨hmem, hid⟩, hq⟩

theorem transGen_parentOf : TransGen (Up db.parentOf) a x ↔ TransGen (Edge db.parentLinks) x a := by
  have hswap : Up db.parentOf = Function.swap (Edge db.parentLinks) := by
    funext c p
    exact propext parentOf_eq_some
  rw [hswap, transGen_swap]

theorem mem_ids_of_parentOf {p : TicketId}
    (h : db.parentOf c = some p) : c ∈ db.tickets.map Ticket.id := by
  obtain ⟨t, ht, -⟩ := bind_eq_some_iff.mp h
  obtain ⟨hmem, rfl⟩ := get_eq_some.mp ht
  exact mem_map_of_mem hmem

end Database

theorem mem_ancestorIds {t : TicketId} :
    x ∈ ancestorIds db t ↔ TransGen (Edge db.parentLinks) x t := by
  rw [← transGen_parentOf]
  exact mem_climb db.parentOf (db.tickets.map Ticket.id)
    (fun _ _ h => mem_ids_of_parentOf h) (by simp) t x

theorem isDescendant_iff {candidate ancestor : Ticket} : isDescendant db candidate ancestor = true
      ↔ TransGen (Edge db.parentLinks) ancestor.id candidate.id := by
  rw [← mem_ancestorIds]
  exact climbsTo_eq db.parentOf ancestor.id _ candidate.id [] (by simp)

theorem mem_subtreeIds {root : TicketId} :
    x ∈ subtreeIds db root ↔ ReflTransGen (Edge db.parentLinks) root x :=
  mem_spread db.parentLinks (Nat.le_refl _) root x

theorem reaches_iff {start target : TicketId} :
    reaches db start target = true ↔ ReflTransGen (Edge db.dependencyEdges) start target :=
  search_iff db.dependencyEdges (Nat.le_refl _) start target

/-- `add_dependency` leaves the tables alone, or adds an edge it was right to
    add: to a ticket that is not above the dependent and does not reach it. -/
theorem addDependency_cases {b : TicketId} {createdBy : String}
    {edge : TicketDependency} (h : addDependency db a b createdBy = .ok (db', edge)) :
    db' = db ∨
    (db' = { db with dependencies := db.dependencies ++ [⟨a, b, createdBy⟩] } ∧
      a ≠ b ∧ ¬ TransGen (Edge db.parentLinks) b a ∧
      ¬ ReflTransGen (Edge db.dependencyEdges) b a) := by
  unfold addDependency at h
  by_cases hab : a = b
  · rw [if_pos hab] at h
    cases h
  · rw [if_neg hab] at h
    simp only [refuseWaitOnAncestor] at h
    by_cases hanc : b ∈ ancestorIds db a
    · rw [if_pos hanc] at h
      cases h
    · rw [if_neg hanc] at h
      cases hex : existingEdge db a b with
      | some existing =>
        rw [hex] at h
        exact .inl (congrArg Prod.fst (Except.ok.inj h)).symm
      | none =>
        rw [hex] at h
        by_cases hreach : reaches db b a = true
        · rw [if_pos hreach] at h
          cases h
        · rw [if_neg hreach] at h
          exact .inr ⟨(congrArg Prod.fst (Except.ok.inj h)).symm, hab,
            fun hup => hanc (mem_ancestorIds.mpr hup),
            fun hdep => hreach (reaches_iff.mpr hdep)⟩

/-- `remove_dependency` keeps the tickets and adds no edge. -/
theorem removeDependency_cases (db : Database) (a b : TicketId) :
    (removeDependency db a b).1.tickets = db.tickets ∧
    (removeDependency db a b).1.dependencies ⊆ db.dependencies := by
  unfold removeDependency
  cases existingEdge db a b with
  | none => exact ⟨rfl, List.Subset.refl _⟩
  | some edge => exact ⟨rfl, erase_subset⟩

/-- `reparent_ticket` writes one parent link: none, or one to a parent that is not the ticket, not
    below it, and that nothing in its subtree waits for, nor for anything above that parent. -/
theorem reparentTicket_cases (h : reparentTicket db ticket parent = .ok db') :
    db' = writeParent db ticket parent ∧
    ∀ p, parent = some p → p ≠ ticket.id ∧ ¬ TransGen (Edge db.parentLinks) ticket.id p ∧
      ∀ a b, Edge db.dependencyEdges a b → ReflTransGen (Edge db.parentLinks) ticket.id a →
        ¬ ReflTransGen (Edge db.parentLinks) b p := by
  unfold reparentTicket at h
  cases parent with
  | none =>
    cases hv : validateParentAssignment ticket.workItemType none with
    | error e =>
      rw [hv] at h
      cases h
    | ok u =>
      rw [hv] at h
      exact ⟨(Except.ok.inj h).symm, fun p hp => by cases hp⟩
  | some p =>
    dsimp only at h
    cases hget : db.get p with
    | none =>
      rw [hget] at h
      cases h
    | some parent =>
      have hid : parent.id = p := (get_eq_some.mp hget).2
      rw [hget] at h
      dsimp only at h
      by_cases hws : parent.workspaceId.isSome ∧ parent.workspaceId ≠ ticket.workspaceId
      · rw [if_pos hws] at h
        cases h
      rw [if_neg hws] at h
      by_cases hself : parent.id = ticket.id
      · rw [if_pos hself] at h
        cases h
      rw [if_neg hself] at h
      by_cases hdesc : isDescendant db parent ticket = true
      · rw [if_pos hdesc] at h
        cases h
      rw [if_neg hdesc] at h
      cases hv : validateParentAssignment ticket.workItemType (some parent.workItemType) with
      | error e =>
        rw [hv] at h
        cases h
      | ok u =>
        rw [hv] at h
        by_cases hir : ticket.isIntegrationReview ∧ parent.workItemType = .initiative
        · rw [if_pos hir] at h
          cases h
        rw [if_neg hir] at h
        cases hr : refuseReparentOntoAPrerequisite db ticket.id parent.id with
        | error e =>
          rw [hr] at h
          cases h
        | ok v =>
          rw [hr] at h
          subst hid
          refine ⟨(Except.ok.inj h).symm, fun q hq => ?_⟩
          obtain rfl := some.inj hq
          refine ⟨hself, fun hd => hdesc (isDescendant_iff.mpr hd), ?_⟩
          intro a b hab hsub hanc
          -- the edge is one of the rows the refusal looks at
          obtain ⟨e, he, heq⟩ := mem_map.mp hab
          obtain ⟨rfl, rfl⟩ := Prod.mk.inj heq
          unfold refuseReparentOntoAPrerequisite at hr
          rw [if_pos] at hr
          · cases hr
          · refine any_eq_true.mpr ⟨e, ?_, ?_⟩
            · exact mem_filter.mpr
                ⟨he, decide_eq_true (mem_subtreeIds.mpr hsub)⟩
            · refine decide_eq_true ?_
              rcases hanc.cases_head with heq | ⟨c, h1, h2⟩
              · rw [heq]
                exact mem_cons_self
              · exact mem_cons_of_mem _
                  (mem_ancestorIds.mpr (head' h1 h2))

theorem parentLinks_writeParent
    {p : TicketId} (h : Edge (writeParent db ticket parent).parentLinks p c) :
    Edge db.parentLinks p c ∨ (parent = some p ∧ c = ticket.id) := by
  simp only [Edge, parentLinks, writeParent, updateTicket,
    List.mem_filterMap, List.mem_map, Option.map_eq_some_iff, Prod.mk.injEq] at h ⊢
  obtain ⟨t, ⟨u, hu, rfl⟩, q, hq, rfl, rfl⟩ := h
  by_cases hid : u.id = ticket.id
  · rw [if_pos hid] at hq
    rw [if_pos hid]
    exact .inr ⟨hq, hid⟩
  · rw [if_neg hid] at hq
    rw [if_neg hid]
    exact .inl ⟨u, hu, q, hq, rfl, rfl⟩

/-- What the writers keep: prerequisite edges have no cycle, parent links have
    no cycle, and no ticket waits for itself or for an ancestor. -/
structure WaitOrder (db : Database) : Prop where
  dependencies_acyclic : ∀ a, ¬ TransGen (Edge db.dependencyEdges) a a
  parents_acyclic : ∀ a, ¬ TransGen (Edge db.parentLinks) a a
  no_ancestor_wait : ∀ a b, Edge db.dependencyEdges a b → ¬ ReflTransGen (Edge db.parentLinks) b a

structure Forest (db : Database) : Prop where
  no_dependencies : db.dependencies = []
  parents_acyclic : ∀ a, ¬ TransGen (Edge db.parentLinks) a a

theorem WaitOrder.of_forest (h : Forest db) : WaitOrder db where
  dependencies_acyclic a hc := by
    obtain ⟨b, hb, -⟩ := head'_iff.mp hc
    simp [Edge, dependencyEdges, h.no_dependencies] at hb
  parents_acyclic := h.parents_acyclic
  no_ancestor_wait a b hab := by
    simp [Edge, dependencyEdges, h.no_dependencies] at hab

section

variable (h : WaitOrder db)
include h

theorem WaitOrder.of_subset
    (ht : db'.tickets = db.tickets) (hd : db'.dependencies ⊆ db.dependencies) :
    WaitOrder db' := by
  have hlinks : db'.parentLinks = db.parentLinks := by
    simp only [parentLinks, ht]
  have hedges : ∀ a b, Edge db'.dependencyEdges a b → Edge db.dependencyEdges a b :=
    fun a b hab => map_subset _ hd hab
  refine ⟨fun a hc => h.dependencies_acyclic a (mono hedges _ _ hc), ?_, ?_⟩
  · rw [hlinks]
    exact h.parents_acyclic
  · intro a b hab
    rw [hlinks]
    exact h.no_ancestor_wait a b (hedges a b hab)

theorem WaitOrder.addDependency {b : TicketId} {createdBy : String} {edge : TicketDependency}
    (hadd : TicketWait.addDependency db a b createdBy = .ok (db', edge)) : WaitOrder db' := by
  rcases addDependency_cases hadd with rfl | ⟨rfl, hne, hnoanc, hnoreach⟩
  · exact h
  · have hedges : ∀ x y, Edge (db.dependencyEdges ++ [(a, b)]) x y →
          Edge db.dependencyEdges x y ∨ (x = a ∧ y = b) := by
      intro x y hxy
      rcases mem_append.mp hxy with hxy | hxy
      · exact .inl hxy
      · exact .inr (Prod.mk.inj (mem_singleton.mp hxy))
    have heq : dependencyEdges
        { db with dependencies := db.dependencies ++ [⟨a, b, createdBy⟩] }
        = db.dependencyEdges ++ [(a, b)] := by
      simp [dependencyEdges]
    refine ⟨?_, h.parents_acyclic, ?_⟩
    · rw [heq]
      exact acyclic_of_insert hedges h.dependencies_acyclic hnoreach
    · rw [heq]
      intro x y hxy
      rcases hedges x y hxy with hold | ⟨rfl, rfl⟩
      · exact h.no_ancestor_wait x y hold
      · intro hanc
        rcases reflTransGen_iff_eq_or_transGen.mp hanc with heq | hup
        · exact hne heq
        · exact hnoanc hup

theorem WaitOrder.reparentTicket
    (hmove : TicketWait.reparentTicket db ticket parent = .ok db') : WaitOrder db' := by
  obtain ⟨rfl, hcheck⟩ := reparentTicket_cases hmove
  cases parent with
  | none =>
    have hlinks : ∀ x y, Edge (writeParent db ticket none).parentLinks x y →
        Edge db.parentLinks x y := by
      intro x y hxy
      rcases parentLinks_writeParent hxy with hold | ⟨hnew, -⟩
      · exact hold
      · cases hnew
    exact ⟨h.dependencies_acyclic, fun a hc => h.parents_acyclic a (mono hlinks _ _ hc),
      fun a b hab hanc => h.no_ancestor_wait a b hab (ReflTransGen.mono hlinks _ _ hanc)⟩
  | some p =>
    obtain ⟨hself, hdesc, hwait⟩ := hcheck p rfl
    have hlinks : ∀ x y, Edge (writeParent db ticket (some p)).parentLinks x y →
        Edge db.parentLinks x y ∨ (x = p ∧ y = ticket.id) := by
      intro x y hxy
      rcases parentLinks_writeParent hxy with hold | ⟨hnew, hy⟩
      · exact .inl hold
      · exact .inr ⟨(some.inj hnew).symm, hy⟩
    have hback : ¬ ReflTransGen (Edge db.parentLinks) ticket.id p := by
      intro hpath
      rcases reflTransGen_iff_eq_or_transGen.mp hpath with heq | hdown
      · exact hself heq
      · exact hdesc hdown
    refine ⟨h.dependencies_acyclic, acyclic_of_insert hlinks h.parents_acyclic hback, ?_⟩
    intro a b hab hanc
    rcases reflTransGen_iff_eq_or_transGen.mp hanc with heq | hdown
    · exact h.no_ancestor_wait a b hab (heq ▸ .refl)
    · rcases transGen_of_insert hlinks hdown with hold | ⟨h1, h2⟩
      · exact h.no_ancestor_wait a b hab hold.to_reflTransGen
      · exact hwait a b hab h2 h1

theorem WaitOrder.step {edit : Edit} (hs : Succeeds db edit db') : WaitOrder db' := by
  cases edit with
  | addDependency a b createdBy =>
    cases hadd : TicketWait.addDependency db a b createdBy with
    | error e =>
      have hs' : Prod.fst <$> TicketWait.addDependency db a b createdBy = .ok db' := hs
      rw [hadd] at hs'
      cases hs'
    | ok r =>
      have hs' : Prod.fst <$> TicketWait.addDependency db a b createdBy = .ok db' := hs
      rw [hadd] at hs'
      obtain ⟨db₁, edge⟩ := r
      obtain rfl : db₁ = db' := Except.ok.inj hs'
      exact h.addDependency hadd
  | removeDependency a b =>
    obtain rfl : (removeDependency db a b).1 = db' := Except.ok.inj hs
    obtain ⟨ht, hd⟩ := removeDependency_cases db a b
    exact h.of_subset ht hd
  | reparentTicket t p =>
    dsimp only [Succeeds, exec] at hs
    cases hget : db.get t with
    | none =>
      rw [hget] at hs
      cases hs
    | some ticket =>
      rw [hget] at hs
      exact h.reparentTicket hs

end

/-! ## Cycles of the combined relation -/

/-- Who waits for whom: a ticket for its prerequisites, a parent for its children. -/
inductive Waits (db : Database) : TicketId → TicketId → Prop where
  | prerequisite {a b : TicketId} : Edge db.dependencyEdges a b → Waits db a b
  | child {a b : TicketId} : Edge db.parentLinks a b → Waits db a b

/-- A walk of the combined relation, with the number of prerequisite edges and
    of parent links in it. -/
inductive WaitWalk (db : Database) : Nat → Nat → TicketId → TicketId → Prop where
  | nil (a : TicketId) : WaitWalk db 0 0 a a
  | prerequisite {d p : Nat} {a b c : TicketId} :
      Edge db.dependencyEdges a b → WaitWalk db d p b c → WaitWalk db (d + 1) p a c
  | child {d p : Nat} {a b c : TicketId} :
      Edge db.parentLinks a b → WaitWalk db d p b c → WaitWalk db d (p + 1) a c

section

variable (h : WaitWalk db d p a c)
include h

theorem WaitWalk.reflTransGen : ReflTransGen (Waits db) a c := by
  induction h with
  | nil => exact .refl
  | prerequisite he _ ih => exact .head (.prerequisite he) ih
  | child he _ ih => exact .head (.child he) ih

omit h in
theorem transGen_waits_iff : TransGen (Waits db) a c ↔ ∃ d p, 0 < d + p ∧ WaitWalk db d p a c := by
  constructor
  · intro h
    induction h using head_induction_on with
    | single h =>
      cases h with
      | prerequisite he => exact ⟨1, 0, by omega, .prerequisite he (.nil c)⟩
      | child he => exact ⟨0, 1, by omega, .child he (.nil c)⟩
    | head h _ ih =>
      obtain ⟨d, p, -, hw⟩ := ih
      cases h with
      | prerequisite he => exact ⟨d + 1, p, by omega, .prerequisite he hw⟩
      | child he => exact ⟨d, p + 1, by omega, .child he hw⟩
  · rintro ⟨d, p, hpos, hw⟩
    cases hw with
    | nil => exact absurd hpos (by omega)
    | prerequisite he hw => exact head' (.prerequisite he) hw.reflTransGen
    | child he hw => exact head' (.child he) hw.reflTransGen

theorem WaitWalk.descends (hd : d = 0) : ReflTransGen (Edge db.parentLinks) a c := by
  induction h with
  | nil => exact .refl
  | prerequisite _ _ _ => cases hd
  | child he _ ih => exact .head he (ih hd)

theorem WaitWalk.depends (hp : p = 0) : ReflTransGen (Edge db.dependencyEdges) a c := by
  induction h with
  | nil => exact .refl
  | prerequisite he _ ih => exact .head he (ih hp)
  | child _ _ _ => cases hp

theorem WaitWalk.split_one (hd : d = 1) :
    ∃ x y, ReflTransGen (Edge db.parentLinks) a x ∧ Edge db.dependencyEdges x y ∧
      ReflTransGen (Edge db.parentLinks) y c := by
  induction h with
  | nil => cases hd
  | prerequisite he hw _ => exact ⟨_, _, .refl, he, hw.descends (by omega)⟩
  | child he _ ih =>
    obtain ⟨x, y, hax, hxy, hyc⟩ := ih hd
    exact ⟨x, y, .head he hax, hxy, hyc⟩

end

/-- In ordered tables a cycle has at least two prerequisite edges and a parent link. -/
theorem WaitOrder.cycle_shape (h : WaitOrder db)
    (hw : WaitWalk db d p a a) (hpos : 0 < d + p) : 2 ≤ d ∧ 1 ≤ p := by
  have hdep : p ≠ 0 := by
    rintro rfl
    cases hw with
    | nil => exact absurd hpos (by omega)
    | prerequisite he hrest =>
      exact h.dependencies_acyclic a (head' he (hrest.depends rfl))
  have htree : d ≠ 0 := by
    rintro rfl
    cases hw with
    | nil => exact absurd hpos (by omega)
    | child he hrest =>
      exact h.parents_acyclic a (head' he (hrest.descends rfl))
  have hone : d ≠ 1 := by
    rintro rfl
    obtain ⟨x, y, hax, hxy, hya⟩ := hw.split_one rfl
    exact h.no_ancestor_wait x y hxy (hya.trans hax)
  omega

/-- **What the guards exclude**: after any successful edits of a forest without
    edges, a cycle of the combined waiting relation goes through at least two
    prerequisite edges and at least one parent link. -/
theorem wait_cycle_shape {db₀ db : Database} {edits : List Edit} (h₀ : Forest db₀)
    (hr : Run Succeeds db₀ edits db) {d p : Nat} {a : TicketId}
    (hw : WaitWalk db d p a a) (hpos : 0 < d + p) : 2 ≤ d ∧ 1 ≤ p :=
  have hord : WaitOrder db := Run.invariant (P := WaitOrder)
    (fun _ _ _ h hs => WaitOrder.step h hs) (WaitOrder.of_forest h₀) hr
  hord.cycle_shape hw hpos

/-! ## A cycle the guards let through -/

/-- A milestone with two features, the first of which has a capability. -/
def twoFeatures : Database where
  tickets :=
    [⟨0, some 0, .milestone, none, false, 0, ""⟩, ⟨1, some 0, .feature, some 0, false, 0, ""⟩,
      ⟨2, some 0, .capability, some 1, false, 0, ""⟩,
      ⟨3, some 0, .feature, some 0, false, 0, ""⟩]
  dependencies := []
  ids_nodup := by decide

/-- The second feature waits for the first, and a capability of the first waits for the second. -/
def twoFeaturesCrossed : Database :=
  { twoFeatures with dependencies := [⟨3, 1, "human"⟩, ⟨2, 3, "human"⟩] }

theorem twoFeatures_forest : Forest twoFeatures where
  no_dependencies := rfl
  parents_acyclic := by
    -- every parent link of this table goes to a larger id
    have hup : ∀ a b, TransGen (Edge twoFeatures.parentLinks) a b → a < b := by
      have hlink : ∀ e ∈ twoFeatures.parentLinks, e.1 < e.2 := by decide
      intro a b h
      induction h with
      | single h => exact hlink _ h
      | tail _ h ih => exact Nat.lt_trans ih (hlink _ h)
    exact fun a h => Nat.lt_irrefl a (hup a a h)

theorem twoFeaturesCrossed_run :
    Run Succeeds twoFeatures [.addDependency 3 1 "human", .addDependency 2 3 "human"]
      twoFeaturesCrossed := by
  refine .cons (m := { twoFeatures with dependencies := [⟨3, 1, "human"⟩] }) ?_
    (.cons ?_ (.nil _))
  · show exec _ _ = _
    rfl
  · show exec _ _ = _
    rfl

theorem twoFeaturesCrossed_edges :
    Edge twoFeaturesCrossed.parentLinks 1 2 ∧ Edge twoFeaturesCrossed.dependencyEdges 2 3 ∧
      Edge twoFeaturesCrossed.dependencyEdges 3 1 := by
  unfold Edge
  decide

/-- The first feature waits for its capability, the capability for the second
    feature, and the second feature for the first. -/
theorem twoFeaturesCrossed_walk : WaitWalk twoFeaturesCrossed 2 1 1 1 := by
  obtain ⟨h12, h23, h31⟩ := twoFeaturesCrossed_edges
  exact .child h12 (.prerequisite h23 (.prerequisite h31 (.nil 1)))

/-- Two successful calls from a forest can leave a cycle of waits. -/
theorem child_waits_behind_parent :
    ¬ ∀ (db₀ db : Database) (edits : List Edit), Forest db₀ → Run Succeeds db₀ edits db →
      ∀ a, ¬ TransGen (Waits db) a a := by
  intro h
  obtain ⟨d, p, hpos, hw⟩ : ∃ d p, 0 < d + p ∧ WaitWalk twoFeaturesCrossed d p 1 1 :=
    ⟨2, 1, by decide, twoFeaturesCrossed_walk⟩
  exact h twoFeatures twoFeaturesCrossed _ twoFeatures_forest twoFeaturesCrossed_run 1
    (transGen_waits_iff.mpr ⟨d, p, hpos, hw⟩)

/-- The shape theorem at that cycle, where its bounds are met exactly. -/
theorem wait_cycle_shape_twoFeatures : WaitWalk twoFeaturesCrossed 2 1 1 1 ∧ 2 ≤ 2 ∧ 1 ≤ 1 :=
  ⟨twoFeaturesCrossed_walk,
    wait_cycle_shape twoFeatures_forest twoFeaturesCrossed_run twoFeaturesCrossed_walk
      (by decide)⟩

end Loregarden.TicketWait

