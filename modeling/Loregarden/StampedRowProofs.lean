import Loregarden.SortedRowProofs

/-! # A column that keeps the newest stamp

A column of a keyed table is stamped now and again, each time later than before, and a log keeps
every stamp. `Tracks` is that the column of a row holds the newest stamp the log has for it; what
only a recent enough stamp can make true is then true of the log exactly when it is true of the
column (`Tracks.exists_iff`). -/

namespace Loregarden.Ranked

open List

variable {R : Type*} {id : R → Nat} {T : Type*} [LinearOrder T]

/-- The column holds the newest stamp the log has for its row. -/
structure Tracks (t : Keyed R id) (col : R → Option T) (log : List (Nat × T)) (clock : T) :
    Prop where
  logged : ∀ r ∈ t.rows, ∀ x ∈ col r, (id r, x) ∈ log
  newest : ∀ r ∈ t.rows, ∀ x, (id r, x) ∈ log → ∃ y ∈ col r, x ≤ y
  known : ∀ e ∈ log, e.1 < t.next
  past : ∀ e ∈ log, e.2 ≤ clock

namespace Tracks

variable {t : Keyed R id} {col : R → Option T} {log : List (Nat × T)} {clock clock' : T}
  {r : R} {g : R → R} {i : Nat} {x : T}

theorem empty (col : R → Option T) (clock : T) :
    Tracks (Keyed.empty : Keyed R id) col [] clock where
  logged := fun _ hr => by cases hr
  newest := fun _ hr => by cases hr
  known := fun _ he => by cases he
  past := fun _ he => by cases he

section

variable (h : Tracks t col log clock)
include h

theorem tick (hc : clock ≤ clock') : Tracks t col log clock' :=
  ⟨h.logged, h.newest, h.known, fun e he => (h.past e he).trans hc⟩

theorem insert (hr : id r = t.next) (hcol : col r = none) :
    Tracks (t.insert r hr) col log clock where
  logged := by
    intro y hy x hx
    rcases mem_append.mp hy with hy | hy
    · exact h.logged y hy x hx
    · rw [mem_singleton.mp hy, hcol] at hx
      cases hx
  newest := by
    intro y hy x hx
    rcases mem_append.mp hy with hy | hy
    · exact h.newest y hy x hx
    · rw [mem_singleton.mp hy, hr] at hx
      exact absurd (h.known _ hx) (Nat.lt_irrefl _)
  known := fun e he => Nat.lt_succ_of_lt (h.known e he)
  past := h.past

theorem insert_stamp (hr : id r = t.next) (hcol : col r = some x)
    (hx : clock ≤ x) : Tracks (t.insert r hr) col ((t.next, x) :: log) x where
  logged := by
    intro y hy z hz
    rcases mem_append.mp hy with hy | hy
    · exact mem_cons_of_mem _ (h.logged y hy z hz)
    · rw [mem_singleton.mp hy, hcol, Option.mem_some_iff] at hz
      rw [mem_singleton.mp hy, hr, hz]
      exact mem_cons_self
  newest := by
    intro y hy z hz
    rcases mem_append.mp hy with hy | hy
    · rcases mem_cons.mp hz with heq | hz
      · have hid : id y = t.next := congrArg Prod.fst heq
        exact absurd (hid ▸ t.fresh y hy) (Nat.lt_irrefl _)
      · exact h.newest y hy z hz
    · rw [mem_singleton.mp hy] at hz ⊢
      refine ⟨x, hcol, ?_⟩
      rcases mem_cons.mp hz with heq | hz
      · exact le_of_eq (congrArg Prod.snd heq)
      · rw [hr] at hz
        exact absurd (h.known _ hz) (Nat.lt_irrefl _)
  known := by
    intro e he
    rcases mem_cons.mp he with rfl | he
    · exact Nat.lt_succ_self _
    · exact Nat.lt_succ_of_lt (h.known e he)
  past := by
    intro e he
    rcases mem_cons.mp he with rfl | he
    · exact le_refl x
    · exact (h.past e he).trans hx

theorem update (hg : ∀ r, id (g r) = id r)
    (hcol : ∀ r, col (g r) = col r) : Tracks (t.update i g hg) col log clock := by
  have hback : ∀ y ∈ (t.update i g hg).rows, ∃ z ∈ t.rows, id y = id z ∧ col y = col z := by
    intro y hy
    obtain ⟨z, hz, rfl⟩ := mem_map.mp hy
    refine ⟨z, hz, ?_⟩
    split
    · exact ⟨hg z, hcol z⟩
    · exact ⟨rfl, rfl⟩
  refine ⟨fun y hy x hx => ?_, fun y hy x hx => ?_, h.known, h.past⟩
  · obtain ⟨z, hz, hid, hc⟩ := hback y hy
    exact hid ▸ h.logged z hz x (hc ▸ hx)
  · obtain ⟨z, hz, hid, hc⟩ := hback y hy
    exact hc ▸ h.newest z hz x (hid ▸ hx)

theorem update_stamp (hg : ∀ r, id (g r) = id r)
    (hcol : ∀ r ∈ t.rows, id r = i → col (g r) = some x) (hi : i < t.next) (hx : clock ≤ x) :
    Tracks (t.update i g hg) col ((i, x) :: log) x := by
  have hback : ∀ y ∈ (t.update i g hg).rows, id y = i ∧ col y = some x ∨ id y ≠ i ∧ y ∈ t.rows := by
    intro y hy
    obtain ⟨z, hz, rfl⟩ := mem_map.mp hy
    by_cases hid : id z = i
    · rw [if_pos hid]
      exact .inl ⟨(hg z).trans hid, hcol z hz hid⟩
    · rw [if_neg hid]
      exact .inr ⟨hid, hz⟩
  refine ⟨fun y hy z hz => ?_, fun y hy z hz => ?_, fun e he => ?_, fun e he => ?_⟩
  · rcases hback y hy with ⟨hid, hc⟩ | ⟨-, hold⟩
    · rw [hc, Option.mem_some_iff] at hz
      rw [hid, hz]
      exact mem_cons_self
    · exact mem_cons_of_mem _ (h.logged y hold z hz)
  · rcases hback y hy with ⟨hid, hc⟩ | ⟨hne, hold⟩
    · refine ⟨x, hc, ?_⟩
      rcases mem_cons.mp hz with heq | hz
      · exact le_of_eq (congrArg Prod.snd heq)
      · exact (h.past _ hz).trans hx
    · rcases mem_cons.mp hz with heq | hz
      · exact absurd (congrArg Prod.fst heq) hne
      · exact h.newest y hold z hz
  · rcases mem_cons.mp he with rfl | he
    · exact hi
    · exact h.known e he
  · rcases mem_cons.mp he with rfl | he
    · exact le_refl x
    · exact (h.past e he).trans hx

/-- What stays true of every later stamp is true of a stamp in the log exactly when it
    is true of the column. -/
theorem exists_iff {P : T → Prop} (hP : ∀ x y, x ≤ y → P x → P y) (hr : r ∈ t.rows) :
    (∃ x, (id r, x) ∈ log ∧ P x) ↔ ∃ x ∈ col r, P x := by
  constructor
  · rintro ⟨x, hx, hp⟩
    obtain ⟨y, hy, hle⟩ := h.newest r hr x hx
    exact ⟨y, hy, hP x y hle hp⟩
  · rintro ⟨x, hx, hp⟩
    exact ⟨x, h.logged r hr x hx, hp⟩

end

end Tracks

/-- What stays true of later times is true of the newest of a list exactly when it is
    true of one of them. -/
theorem exists_mem_max? {l : List Int} {P : Int → Prop} (hP : ∀ x y, x ≤ y → P x → P y) :
    (∃ x ∈ l.max?, P x) ↔ ∃ x ∈ l, P x := by
  constructor
  · rintro ⟨x, hx, hp⟩
    exact ⟨x, List.max?_mem hx, hp⟩
  · rintro ⟨x, hx, hp⟩
    obtain ⟨m, hm⟩ := Option.isSome_iff_exists.mp (isSome_max?_of_mem hx)
    exact ⟨m, hm, hP x m ((List.max?_eq_some_iff.mp hm).2 x hx) hp⟩

end Loregarden.Ranked
