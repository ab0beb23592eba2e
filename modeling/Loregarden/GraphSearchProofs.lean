import Mathlib.Logic.Relation
import Mathlib.Data.List.Basic

/-! # Searching a finite graph with a seen-set

    Three loops over a graph given by its list of edges, each with the fuel
    that bounds its turns, and each proved to compute reachability once the
    fuel is there:

    * `climb` follows a partial function (a parent link) upwards and collects
      what it meets; `climbsTo` asks whether it meets one given vertex;
    * `spread` widens a frontier (a breadth-first subtree);
    * `search` pops a stack until it finds its target (depth-first).

    Completeness is carried by one idea throughout: when a loop stops, what it
    has seen is closed under the edges. The file ends with what one new edge
    does to the paths of a relation. -/

namespace Loregarden.GraphSearch

open Relation List

variable {α : Type*} [DecidableEq α]

def Edge (edges : List (α × α)) (x y : α) : Prop := (x, y) ∈ edges

/-- The targets of the edges that leave `x`, in the order of the list. -/
def succs (edges : List (α × α)) (x : α) : List α := (edges.filter (fun e => e.1 = x)).map Prod.snd

@[simp] theorem mem_succs {edges : List (α × α)} {x y : α} :
    y ∈ succs edges x ↔ Edge edges x y := by
  simp only [succs, Edge, mem_map, mem_filter, decide_eq_true_eq]
  constructor
  · rintro ⟨⟨a, b⟩, ⟨hmem, rfl⟩, rfl⟩
    exact hmem
  · intro h
    exact ⟨(x, y), ⟨h, rfl⟩, rfl⟩

omit [DecidableEq α] in
/-- Dropping the elements that satisfy `q` as well leaves fewer when one of them was there. -/
theorem length_filter_lt {β : Type*} {p q : β → Bool} {l : List β} {x : β}
    (hpq : ∀ y, q y = true → p y = true) (hx : x ∈ l) (hp : p x = true)
    (hq : q x = false) : (l.filter q).length < (l.filter p).length := by
  induction l with
  | nil => cases hx
  | cons a l ih =>
    have hle : (l.filter q).length ≤ (l.filter p).length := (monotone_filter_right l hpq).length_le
    rcases mem_cons.mp hx with rfl | hmem
    · rw [filter_cons_of_pos hp, filter_cons_of_neg (by simp [hq])]
      exact Nat.lt_succ_of_le hle
    · have hlt := ih hmem
      by_cases hqa : q a = true
      · rw [filter_cons_of_pos hqa, filter_cons_of_pos (hpq a hqa)]
        exact Nat.succ_lt_succ hlt
      · rw [filter_cons_of_neg hqa]
        by_cases hpa : p a = true
        · rw [filter_cons_of_pos hpa]
          exact Nat.lt_succ_of_lt hlt
        · rw [filter_cons_of_neg hpa]
          exact hlt

/-! ## Climbing a partial function -/

def Up (next : α → Option α) (x y : α) : Prop := next x = some y

/-- Follow `next` from `a`, adding what is met to `found`, until there is no
    next vertex or it was met before. -/
def climb (next : α → Option α) : Nat → α → List α → List α
  | 0, _, found => found
  | n + 1, a, found =>
    match next a with
    | none => found
    | some p => if p ∈ found then found else climb next n p (found ++ [p])

/-- Does the same walk meet `target`? -/
def climbsTo (next : α → Option α) (target : α) : Nat → α → List α → Bool
  | 0, _, _ => false
  | n + 1, a, seen =>
    match next a with
    | none => false
    | some p =>
      if p ∈ seen then false
      else if p = target then true
      else climbsTo next target n p (seen ++ [p])

section

variable (next : α → Option α)
include next

theorem subset_climb (n : Nat) (a : α) (found : List α) : found ⊆ climb next n a found := by
  induction n generalizing a found with
  | zero => exact List.Subset.refl _
  | succ n ih =>
    unfold climb
    cases hna : next a with
    | none => exact List.Subset.refl _
    | some p =>
      dsimp only
      by_cases hp : p ∈ found
      · rw [if_pos hp]
        exact List.Subset.refl _
      · rw [if_neg hp]
        exact List.Subset.trans (subset_append_left found [p]) (ih p _)

theorem climb_sound (n : Nat) (a : α) (found : List α) :
    ∀ x ∈ climb next n a found, x ∈ found ∨ TransGen (Up next) a x := by
  induction n generalizing a found with
  | zero => exact fun x hx => .inl hx
  | succ n ih =>
    intro x hx
    unfold climb at hx
    cases hna : next a with
    | none =>
      rw [hna] at hx
      exact .inl hx
    | some p =>
      rw [hna] at hx
      dsimp only at hx
      have hup : Up next a p := hna
      by_cases hp : p ∈ found
      · rw [if_pos hp] at hx
        exact .inl hx
      · rw [if_neg hp] at hx
        rcases ih p _ x hx with hmem | habove
        · rcases mem_append.mp hmem with hmem | hmem
          · exact .inl hmem
          · rw [mem_singleton.mp hmem]
            exact .inr (.single hup)
        · exact .inr (.head hup habove)

/-- What a climb adds stands behind what it was given, and nothing twice. -/
theorem climb_eq_append (n : Nat) (a : α) (found : List α) (hfound : found.Nodup) :
    ∃ more, climb next n a found = found ++ more ∧ (found ++ more).Nodup := by
  have hstop : ∃ more, found = found ++ more ∧ (found ++ more).Nodup :=
    ⟨[], (append_nil found).symm, (append_nil found).symm ▸ hfound⟩
  induction n generalizing a found with
  | zero => exact hstop
  | succ n ih =>
    unfold climb
    cases hna : next a with
    | none => exact hstop
    | some p =>
      dsimp only
      by_cases hp : p ∈ found
      · rw [if_pos hp]
        exact hstop
      · rw [if_neg hp]
        have hnodup : (found ++ [p]).Nodup :=
          nodup_append.mpr ⟨hfound, pairwise_singleton _ p, fun x hx y hy hxy => hp <| by
            rwa [← mem_singleton.mp hy, ← hxy]⟩
        obtain ⟨more, heq, hmore⟩ := ih p (found ++ [p]) hnodup
          ⟨[], (append_nil _).symm, (append_nil _).symm ▸ hnodup⟩
        rw [append_assoc] at heq hmore
        exact ⟨[p] ++ more, heq, hmore⟩

section

variable (dom : List α) (hdom : ∀ x y, next x = some y → x ∈ dom)
include dom hdom

/-- With the fuel to visit every vertex of `dom` (the vertices that have a next
    one), the climb stops on a set closed under `next`. -/
theorem climb_closed (n : Nat) (a : α)
    (found : List α) (hclosed : ∀ x ∈ found, x ≠ a → ∀ y, next x = some y → y ∈ found)
    (hfuel : (dom.filter (· ∉ found)).length + 1 ≤ n) :
    (∀ y, next a = some y → y ∈ climb next n a found) ∧
    ∀ x ∈ climb next n a found, ∀ y, next x = some y → y ∈ climb next n a found := by
  induction n generalizing a found with
  | zero => omega
  | succ n ih =>
    unfold climb
    cases hna : next a with
    | none =>
      refine ⟨by simp, fun x hx y hy => ?_⟩
      by_cases hxa : x = a
      · rw [hxa, hna] at hy
        cases hy
      · exact hclosed x hx hxa y hy
    | some p =>
      dsimp only
      by_cases hp : p ∈ found
      · -- the walk has come round: `a` was the only vertex left open
        rw [if_pos hp]
        refine ⟨fun y hy => Option.some.inj hy ▸ hp, fun x hx y hy => ?_⟩
        by_cases hxa : x = a
        · rw [hxa, hna] at hy
          exact Option.some.inj hy ▸ hp
        · exact hclosed x hx hxa y hy
      · rw [if_neg hp]
        have hclosed' : ∀ x ∈ found ++ [p], x ≠ p → ∀ y, next x = some y → y ∈ found ++ [p] := by
          intro x hx hxp y hy
          have hx' : x ∈ found := by
            rcases mem_append.mp hx with h | h
            · exact h
            · exact absurd (mem_singleton.mp h) hxp
          by_cases hxa : x = a
          · rw [hxa, hna] at hy
            exact Option.some.inj hy ▸ mem_append_right _ (mem_singleton_self p)
          · exact mem_append_left _ (hclosed x hx' hxa y hy)
        have hsub := subset_climb next n p (found ++ [p])
        have hpmem : p ∈ climb next n p (found ++ [p]) :=
          hsub (mem_append_right _ (mem_singleton_self p))
        refine ⟨fun y hy => Option.some.inj hy ▸ hpmem, ?_⟩
        cases hnp : next p with
        | none =>
          -- `p` is the top: the next turn returns what it was given
          have htop : climb next n p (found ++ [p]) = found ++ [p] := by
            cases n with
            | zero => rfl
            | succ n => simp only [climb, hnp]
          rw [htop]
          intro x hx y hy
          by_cases hxp : x = p
          · rw [hxp, hnp] at hy
            cases hy
          · exact hclosed' x hx hxp y hy
        | some q =>
          have hlt : (dom.filter (· ∉ found ++ [p])).length
              < (dom.filter (· ∉ found)).length :=
            length_filter_lt (x := p) (by simp +contextual) (hdom p q hnp)
              (by simpa using hp) (by simp)
          exact (ih p _ hclosed' (by omega)).2

/-- **The climb collects exactly what lies above its start.** -/
theorem mem_climb {n : Nat}
    (hn : dom.length + 1 ≤ n) (a x : α) : x ∈ climb next n a [] ↔ TransGen (Up next) a x := by
  constructor
  · intro hx
    rcases climb_sound next n a [] x hx with h | h
    · cases h
    · exact h
  · intro hx
    have hfuel : (dom.filter (· ∉ ([] : List α))).length + 1 ≤ n := by simpa using hn
    obtain ⟨hfirst, hrest⟩ := climb_closed next dom hdom n a [] (fun x hx => by cases hx) hfuel
    induction hx with
    | single h => exact hfirst _ h
    | tail _ h ih => exact hrest _ ih _ h

/-- A climb that starts with its own vertex collects behind it all others above it. -/
theorem mem_tail_climb {n : Nat} (hn : dom.length + 1 ≤ n) (a x : α) :
    x ∈ (climb next n a [a]).tail ↔ x ≠ a ∧ TransGen (Up next) a x := by
  have hfuel : (dom.filter (· ∉ [a])).length + 1 ≤ n := by
    have hle := length_filter_le (fun x => decide (x ∉ [a])) dom
    omega
  obtain ⟨hfirst, hrest⟩ := climb_closed next dom hdom n a [a]
    (fun y hy hne => absurd (mem_singleton.mp hy) hne) hfuel
  have hall : TransGen (Up next) a x → x ∈ climb next n a [a] := by
    intro hx
    induction hx with
    | single h => exact hfirst _ h
    | tail _ h ih => exact hrest _ ih _ h
  obtain ⟨more, heq, hnodup⟩ := climb_eq_append next n a [a] (pairwise_singleton _ a)
  have hnot : a ∉ more := (nodup_cons.mp hnodup).1
  rw [heq] at hall ⊢
  constructor
  · intro hx
    refine ⟨fun hxa => hnot (hxa ▸ hx), ?_⟩
    have hsound := climb_sound next n a [a] x (by rw [heq]; exact mem_append_right _ hx)
    exact hsound.resolve_left fun hxa => hnot (mem_singleton.mp hxa ▸ hx)
  · rintro ⟨hne, hx⟩
    exact (mem_append.mp (hall hx)).resolve_left fun hxa => hne (mem_singleton.mp hxa)

end

theorem climbsTo_eq (target : α) (n : Nat) (a : α) (seen : List α) (ht : target ∉ seen) :
    climbsTo next target n a seen = true ↔ target ∈ climb next n a seen := by
  induction n generalizing a seen with
  | zero => simp [climbsTo, climb, ht]
  | succ n ih =>
    unfold climbsTo climb
    cases hna : next a with
    | none => simp [ht]
    | some p =>
      dsimp only
      by_cases hp : p ∈ seen
      · simp [hp, ht]
      · rw [if_neg hp, if_neg hp]
        by_cases hpt : p = target
        · have hmem : target ∈ climb next n p (seen ++ [p]) :=
            subset_climb next n p _ (by simp [hpt])
          simp [hpt ▸ hmem, hpt]
        · rw [if_neg hpt]
          refine ih p _ ?_
          simp [ht, Ne.symm hpt]

end

/-- Add the children of the frontier that are not yet found, and go on from
    them, until there are none. -/
def spread (edges : List (α × α)) : Nat → List α → List α → List α
  | 0, _, found => found
  | n + 1, frontier, found =>
    match frontier with
    | [] => found
    | _ :: _ =>
      let fresh := ((edges.filter (fun e => e.1 ∈ frontier)).map Prod.snd).filter
        (· ∉ found)
      spread edges n fresh (found ++ fresh)

section

variable (edges : List (α × α))
include edges

section

variable (n : Nat) (frontier found : List α)
include n frontier found

theorem subset_spread :
    found ⊆ spread edges n frontier found := by
  induction n generalizing frontier found with
  | zero => exact List.Subset.refl _
  | succ n ih =>
    cases frontier with
    | nil => exact List.Subset.refl _
    | cons a frontier => exact List.Subset.trans (subset_append_left _ _) (ih _ _)

theorem spread_sound (hsub : frontier ⊆ found) :
    ∀ x ∈ spread edges n frontier found, ∃ r ∈ found, ReflTransGen (Edge edges) r x := by
  induction n generalizing frontier found with
  | zero => exact fun x hx => ⟨x, hx, .refl⟩
  | succ n ih =>
    cases frontier with
    | nil => exact fun x hx => ⟨x, hx, .refl⟩
    | cons a frontier =>
      intro x hx
      obtain ⟨r, hr, hpath⟩ := ih _ _ (subset_append_right _ _) x hx
      rcases mem_append.mp hr with hr | hr
      · exact ⟨r, hr, hpath⟩
      · obtain ⟨⟨p, c⟩, he, rfl⟩ := mem_map.mp (mem_filter.mp hr).1
        obtain ⟨hmem, hp⟩ := mem_filter.mp he
        have hp' : p ∈ a :: frontier := of_decide_eq_true hp
        have hedge : Edge edges p c := hmem
        exact ⟨p, hsub hp', .head hedge hpath⟩

theorem spread_closed
    (hopen : ∀ x ∈ found, x ∈ frontier ∨ ∀ y, Edge edges x y → y ∈ found)
    (hfuel : (edges.filter (fun e => e.2 ∉ found)).length + 2 ≤ n) :
    ∀ x ∈ spread edges n frontier found, ∀ y, Edge edges x y →
      y ∈ spread edges n frontier found := by
  induction n generalizing frontier found with
  | zero => omega
  | succ n ih =>
    cases frontier with
    | nil =>
      intro x hx
      rcases hopen x hx with h | h
      · cases h
      · exact h
    | cons a frontier =>
      unfold spread
      generalize hfresh : ((edges.filter (fun e => e.1 ∈ a :: frontier)).map
        Prod.snd).filter (· ∉ found) = fresh
      have hmemfresh : ∀ x ∈ a :: frontier, ∀ y, Edge edges x y → y ∈ found ∨ y ∈ fresh := by
        intro x hx y hy
        by_cases hyf : y ∈ found
        · exact .inl hyf
        · refine .inr ?_
          rw [← hfresh]
          refine mem_filter.mpr ⟨?_, by simpa using hyf⟩
          exact mem_map.mpr ⟨(x, y), mem_filter.mpr
            ⟨hy, decide_eq_true hx⟩, rfl⟩
      have hopen' : ∀ x ∈ found ++ fresh, x ∈ fresh ∨ ∀ y, Edge edges x y → y ∈ found ++ fresh := by
        intro x hx
        rcases mem_append.mp hx with hx | hx
        · refine .inr fun y hy => ?_
          rcases hopen x hx with hfr | hcl
          · rcases hmemfresh x hfr y hy with h | h
            · exact mem_append_left _ h
            · exact mem_append_right _ h
          · exact mem_append_left _ (hcl y hy)
        · exact .inl hx
      cases hc : fresh with
      | nil =>
        -- nothing new: the next turn sees an empty frontier and returns
        rw [hc] at hopen'
        have hstop : spread edges n [] (found ++ []) = found ++ [] := by
          cases n <;> rfl
        rw [hstop]
        intro x hx y hy
        rcases hopen' x hx with h | h
        · cases h
        · exact h y hy
      | cons z zs =>
        rw [← hc]
        refine ih _ _ hopen' ?_
        have hz : z ∈ fresh := by rw [hc]; exact mem_cons_self
        rw [← hfresh] at hz
        obtain ⟨hmap, hznot⟩ := mem_filter.mp hz
        obtain ⟨e, he, hez⟩ := mem_map.mp hmap
        have hlt : (edges.filter (fun e => e.2 ∉ found ++ fresh)).length
            < (edges.filter (fun e => e.2 ∉ found)).length := by
          refine length_filter_lt (x := e) (by simp +contextual)
            (mem_filter.mp he).1 ?_ ?_
          · simpa [hez] using hznot
          · simp [hez, hc]
        omega

end

/-- **The widening collects exactly what is below its root.** -/
theorem mem_spread {n : Nat} (hn : edges.length + 2 ≤ n) (root x : α) :
    x ∈ spread edges n [root] [root] ↔ ReflTransGen (Edge edges) root x := by
  constructor
  · intro hx
    obtain ⟨r, hr, hpath⟩ := spread_sound edges n _ _ (List.Subset.refl _) x hx
    rw [mem_singleton.mp hr] at hpath
    exact hpath
  · intro hpath
    have hfuel : (edges.filter (fun e => e.2 ∉ [root])).length + 2 ≤ n := by
      have hle := length_filter_le (fun e => decide (e.2 ∉ [root])) edges
      omega
    have hcl := spread_closed edges n [root] [root] (fun x hx => .inl hx) hfuel
    induction hpath with
    | refl => exact subset_spread edges n _ _ (mem_singleton_self root)
    | tail _ h ih => exact hcl _ ih _ h

/-- Pop the stack (its head is its top) until the target turns up; a vertex
    seen for the first time pushes its successors. -/
def search (edges : List (α × α)) (target : α) : Nat → List α → List α → Bool
  | 0, _, _ => false
  | n + 1, stack, seen =>
    match stack with
    | [] => false
    | current :: rest =>
      if current = target then true
      else if current ∈ seen then search edges target n rest seen
      else search edges target n ((succs edges current).reverse ++ rest) (current :: seen)

theorem search_sound (target : α) (n : Nat) (stack seen : List α)
    (h : search edges target n stack seen = true) :
    ∃ s ∈ stack, ReflTransGen (Edge edges) s target := by
  induction n generalizing stack seen with
  | zero => cases h
  | succ n ih =>
    cases stack with
    | nil => cases h
    | cons current rest =>
      unfold search at h
      dsimp only at h
      by_cases hct : current = target
      · exact ⟨current, mem_cons_self, hct ▸ .refl⟩
      · rw [if_neg hct] at h
        by_cases hseen : current ∈ seen
        · rw [if_pos hseen] at h
          obtain ⟨s, hs, hpath⟩ := ih _ _ h
          exact ⟨s, mem_cons_of_mem _ hs, hpath⟩
        · rw [if_neg hseen] at h
          obtain ⟨s, hs, hpath⟩ := ih _ _ h
          rcases mem_append.mp hs with hs | hs
          · have hedge : Edge edges current s := mem_succs.mp (mem_reverse.mp hs)
            exact ⟨current, mem_cons_self, .head hedge hpath⟩
          · exact ⟨s, mem_cons_of_mem _ hs, hpath⟩

/-- Seeing one more vertex removes the edges that leave it from those still to be followed. -/
theorem length_unseen_edges {current : α} {seen : List α} (h : current ∉ seen) :
    (edges.filter (fun e => e.1 ∉ current :: seen)).length + (succs edges current).length
      = (edges.filter (fun e => e.1 ∉ seen)).length := by
  induction edges with
  | nil => rfl
  | cons e edges ih =>
    simp only [succs, length_map] at ih ⊢
    by_cases hec : e.1 = current
    · rw [filter_cons_of_neg (by simp [hec]), filter_cons_of_pos (by simp [hec]),
        filter_cons_of_pos (by simpa [hec] using h)]
      simp only [length_cons]
      omega
    · have hskip : (e :: edges).filter (fun e => decide (e.1 = current))
          = edges.filter (fun e => decide (e.1 = current)) :=
        filter_cons_of_neg (by simpa using hec)
      rw [hskip]
      by_cases hes : e.1 ∈ seen
      · rw [filter_cons_of_neg (by simp [hes]), filter_cons_of_neg (by simp [hes])]
        exact ih
      · rw [filter_cons_of_pos (by simp [hes, hec]), filter_cons_of_pos (by simpa using hes)]
        simp only [length_cons]
        omega

/-- A miss, with fuel for every edge, means no vertex seen or stacked reaches
    the target: what was seen is closed up to the stack. -/
theorem search_complete (target : α) (n : Nat) (stack seen : List α)
    (hclosed : ∀ x ∈ seen, x ≠ target ∧ ∀ y, Edge edges x y → y ∈ seen ∨ y ∈ stack)
    (hfuel : stack.length + (edges.filter (fun e => e.1 ∉ seen)).length + 1 ≤ n)
    (h : search edges target n stack seen = false) :
    ∀ x, x ∈ seen ∨ x ∈ stack → ¬ ReflTransGen (Edge edges) x target := by
  induction n generalizing stack seen with
  | zero => omega
  | succ n ih =>
    cases stack with
    | nil =>
      intro x hx hpath
      have hx' : x ∈ seen := by
        rcases hx with h | h
        · exact h
        · cases h
      have hstay : ∀ y, ReflTransGen (Edge edges) x y → y ∈ seen := by
        intro y hy
        induction hy with
        | refl => exact hx'
        | tail _ he ih =>
          rcases (hclosed _ ih).2 _ he with h | h
          · exact h
          · cases h
      exact (hclosed target (hstay target hpath)).1 rfl
    | cons current rest =>
      unfold search at h
      dsimp only at h
      have hlen : (current :: rest).length = rest.length + 1 := rfl
      by_cases hct : current = target
      · rw [if_pos hct] at h
        cases h
      · rw [if_neg hct] at h
        by_cases hseen : current ∈ seen
        · rw [if_pos hseen] at h
          have hrest := ih rest seen
            (fun x hx => ⟨(hclosed x hx).1, fun y hy => by
              rcases (hclosed x hx).2 y hy with h' | h'
              · exact .inl h'
              · rcases mem_cons.mp h' with rfl | h'
                · exact .inl hseen
                · exact .inr h'⟩) (by omega) h
          intro x hx
          rcases hx with hx | hx
          · exact hrest x (.inl hx)
          · rcases mem_cons.mp hx with rfl | hx
            · exact hrest x (.inl hseen)
            · exact hrest x (.inr hx)
        · rw [if_neg hseen] at h
          have hcount := length_unseen_edges edges hseen
          have hrest := ih ((succs edges current).reverse ++ rest) (current :: seen)
            (fun x hx => by
              rcases mem_cons.mp hx with rfl | hx
              · refine ⟨hct, fun y hy => .inr ?_⟩
                exact mem_append_left _ (mem_reverse.mpr (mem_succs.mpr hy))
              · refine ⟨(hclosed x hx).1, fun y hy => ?_⟩
                rcases (hclosed x hx).2 y hy with h' | h'
                · exact .inl (mem_cons_of_mem _ h')
                · rcases mem_cons.mp h' with rfl | h'
                  · exact .inl mem_cons_self
                  · exact .inr (mem_append_right _ h'))
            (by simp only [length_append, length_reverse]; omega) h
          intro x hx
          rcases hx with hx | hx
          · exact hrest x (.inl (mem_cons_of_mem _ hx))
          · rcases mem_cons.mp hx with rfl | hx
            · exact hrest x (.inl mem_cons_self)
            · exact hrest x (.inr (mem_append_right _ hx))

/-- **The search decides reachability.** -/
theorem search_iff {n : Nat} (hn : edges.length + 2 ≤ n) (start target : α) :
    search edges target n [start] [] = true ↔ ReflTransGen (Edge edges) start target := by
  constructor
  · intro h
    obtain ⟨s, hs, hpath⟩ := search_sound edges target n _ _ h
    rw [mem_singleton.mp hs] at hpath
    exact hpath
  · intro hpath
    cases h : search edges target n [start] [] with
    | true => rfl
    | false =>
      have hfuel : [start].length + (edges.filter (fun e => e.1 ∉ ([] : List α))).length + 1
          ≤ n := by
        simp
        omega
      exact absurd hpath (search_complete edges target n [start] []
        (fun x hx => by cases hx) hfuel h start (.inr (mem_singleton_self start)))

end

omit [DecidableEq α] in
/-- A path of a relation with one new edge either avoids it, or runs to its
    tail and on from its head. -/
theorem transGen_of_insert {r r' : α → α → Prop} {a b : α}
    (hr : ∀ x y, r' x y → r x y ∨ (x = a ∧ y = b)) {x y : α} (h : TransGen r' x y) :
    TransGen r x y ∨ (ReflTransGen r x a ∧ ReflTransGen r b y) := by
  induction h with
  | single h =>
    rcases hr _ _ h with h | ⟨rfl, rfl⟩
    · exact .inl (.single h)
    · exact .inr ⟨.refl, .refl⟩
  | tail _ h ih =>
    rcases hr _ _ h with h | ⟨rfl, rfl⟩
    · rcases ih with ih | ⟨h1, h2⟩
      · exact .inl (.tail ih h)
      · exact .inr ⟨h1, .tail h2 h⟩
    · rcases ih with ih | ⟨h1, -⟩
      · exact .inr ⟨ih.to_reflTransGen, .refl⟩
      · exact .inr ⟨h1, .refl⟩

omit [DecidableEq α] in
theorem acyclic_of_insert {r r' : α → α → Prop} {a b : α}
    (hr : ∀ x y, r' x y → r x y ∨ (x = a ∧ y = b)) (hac : ∀ x, ¬ TransGen r x x)
    (hba : ¬ ReflTransGen r b a) : ∀ x, ¬ TransGen r' x x := by
  intro x h
  rcases transGen_of_insert hr h with h | ⟨h1, h2⟩
  · exact hac x h
  · exact hba (h2.trans h1)

end Loregarden.GraphSearch
