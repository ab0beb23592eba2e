import Mathlib.Data.List.Basic
import Mathlib.Order.Nat

/-! # Blocks between delimiters, as a scan from the left finds them

At the first opener that any closer follows, the scan takes all up to the first closer, and goes on
behind it. What it takes are the blocks with no closer inside that no opener before them reaches
over (`Seen`, `mem_scan`): an opener that is never meant to be closed runs to the next closer there
is, and hides the blocks in between. -/

namespace Loregarden.BlockScan

open List Option Nat

variable {α : Type*}

/-- What opens a block at the head of a text, and how far it is to the inside of the block; what
    closes one, and how long that is. -/
structure Delimiters (α : Type*) where
  opens : List α → Option ℕ
  closes : List α → Option ℕ
  /-- No closer starts within an opener: the first behind its head is the first inside. -/
  apart : ∀ t n, opens t = some n → ∀ k ≤ n, closes (t.drop k) = none
  /-- No opener starts within a closer. -/
  separate : ∀ t m, closes t = some m → ∀ k < m, opens (t.drop k) = none
  closes_pos : ∀ t m, closes t = some m → 0 < m
  closes_nil : closes [] = none

/-- A block that was found, by its offsets: of its opener, of its inside, of its closer, and of
    what is behind. -/
structure Found where
  start : ℕ
  inside : ℕ
  close : ℕ
  stop : ℕ
  deriving DecidableEq

namespace Delimiters

variable (d : Delimiters α)

def firstClose : List α → Option (ℕ × ℕ)
  | [] => none
  | c :: rest =>
    match d.closes (c :: rest) with
    | some m => some (0, m)
    | none => (firstClose rest).map fun found => (found.1 + 1, found.2)

/-- The block at the head of a text that starts at the offset. -/
def blockAt (offset : ℕ) (t : List α) : Option Found :=
  match d.opens t, d.firstClose t with
  | some n, some (j, m) => some ⟨offset, offset + n, offset + j, offset + j + m⟩
  | _, _ => none

/-- The blocks of a text, `skip` of its characters being in a block already. -/
def scanFrom (skip offset : ℕ) : List α → List Found
  | [] => []
  | c :: rest =>
    match skip with
    | k + 1 => scanFrom k (offset + 1) rest
    | 0 =>
      match d.blockAt offset (c :: rest) with
      | some found => found :: scanFrom (found.stop - (offset + 1)) (offset + 1) rest
      | none => scanFrom 0 (offset + 1) rest

def scan (t : List α) : List Found := d.scanFrom 0 0 t

/-! ## What is seen -/

/-- No block of an opener before the place reaches over it. -/
def Clear (t : List α) (place : ℕ) : Prop :=
  ∀ i < place, ∀ found, d.blockAt i (t.drop i) = some found → found.stop ≤ place

/-- **What the scan sees**: a block up to its first closer, which none before it reaches over. -/
def Seen (t : List α) (found : Found) : Prop :=
  d.blockAt found.start (t.drop found.start) = some found ∧ d.Clear t found.start

variable {d} {t : List α} {f g : Found} {skip offset i : ℕ}

theorem firstClose_eq_some {j m : ℕ} : d.firstClose t = some (j, m) ↔
      d.closes (t.drop j) = some m ∧ ∀ k < j, d.closes (t.drop k) = none := by
  induction t generalizing j with
  | nil =>
    rw [firstClose, drop_nil, d.closes_nil]
    exact ⟨(fun h => nomatch h), fun h => nomatch h.1⟩
  | cons c rest ih =>
    rw [firstClose]
    cases hhead : d.closes (c :: rest) with
    | some length =>
      constructor
      · intro h
        obtain ⟨rfl, rfl⟩ := Prod.mk.inj (some.inj h)
        exact ⟨hhead, fun k hk => absurd hk (not_lt_zero k)⟩
      · rintro ⟨hclose, hfirst⟩
        cases j with
        | zero =>
          rw [drop_zero, hhead] at hclose
          rw [some.inj hclose]
        | succ j =>
          have hnone := hfirst 0 (succ_pos j)
          rw [drop_zero, hhead] at hnone
          cases hnone
    | none =>
      rw [map_eq_some_iff]
      constructor
      · rintro ⟨⟨j', m'⟩, hrest, heq⟩
        obtain ⟨rfl, rfl⟩ := Prod.mk.inj heq
        obtain ⟨hclose, hfirst⟩ := ih.mp hrest
        refine ⟨hclose, fun k hk => ?_⟩
        cases k with
        | zero => exact hhead
        | succ k => exact hfirst k (lt_of_succ_lt_succ hk)
      · rintro ⟨hclose, hfirst⟩
        cases j with
        | zero =>
          rw [drop_zero, hhead] at hclose
          cases hclose
        | succ j =>
          exact ⟨(j, m), ih.mpr ⟨hclose, fun k hk => hfirst (k + 1) (succ_lt_succ hk)⟩, rfl⟩

theorem blockAt_eq_some : d.blockAt offset t = some f ↔
      ∃ n j m, d.opens t = some n ∧ d.closes (t.drop j) = some m ∧
        (∀ k < j, d.closes (t.drop k) = none) ∧
        f = ⟨offset, offset + n, offset + j, offset + j + m⟩ := by
  rw [blockAt]
  constructor
  · intro h
    split at h
    · rename_i n j m hopens hfirst
      obtain ⟨hclose, hnone⟩ := firstClose_eq_some.mp hfirst
      exact ⟨n, j, m, hopens, hclose, hnone, (some.inj h).symm⟩
    · cases h
  · rintro ⟨n, j, m, hopens, hclose, hnone, rfl⟩
    rw [hopens, firstClose_eq_some.mpr ⟨hclose, hnone⟩]

theorem blockAt_start (h : d.blockAt offset t = some f) : f.start = offset := by
  obtain ⟨n, j, m, -, -, -, rfl⟩ := blockAt_eq_some.mp h
  rfl

theorem lt_stop (h : d.blockAt offset t = some f) : offset < f.stop := by
  obtain ⟨n, j, m, -, hclose, -, rfl⟩ := blockAt_eq_some.mp h
  have hpos := d.closes_pos _ _ hclose
  show offset < offset + j + m
  omega

theorem Seen.clear_stop (h : d.Seen t g) : d.Clear t g.stop := by
  obtain ⟨hblock, hclear⟩ := h
  intro i hi found hfound
  rcases lt_trichotomy i g.start with hbefore | hsame | hbehind
  · exact (hclear i hbefore found hfound).trans (lt_stop hblock).le
  · rw [hsame, hblock] at hfound
    exact (congrArg Found.stop (some.inj hfound)).ge
  · obtain ⟨n, j, m, -, hclose, hnone, hg⟩ := blockAt_eq_some.mp hblock
    obtain ⟨n', j', m', hopens', hclose', hnone', rfl⟩ := blockAt_eq_some.mp hfound
    have hstop : g.stop = g.start + j + m := congrArg Found.stop hg
    rw [drop_drop] at hclose hclose'
    show i + j' + m' ≤ g.stop
    by_cases hinside : i < g.start + j
    · -- the closer of the block is the first behind this opener too
      have hj : i + j' = g.start + j := by
        rcases lt_trichotomy (i + j') (g.start + j) with hlt | heq | hgt
        · have hclosed := hnone (i + j' - g.start) (by omega)
          rw [drop_drop, Nat.add_sub_cancel' (by omega), hclose'] at hclosed
          cases hclosed
        · exact heq
        · have hclosed := hnone' (g.start + j - i) (by omega)
          rw [drop_drop, Nat.add_sub_cancel' hinside.le, hclose] at hclosed
          cases hclosed
      rw [hj, hclose] at hclose'
      rw [hj, hstop, ← some.inj hclose']
    · have hwithin := d.separate _ _ hclose (i - (g.start + j)) (by omega)
      rw [drop_drop, Nat.add_sub_cancel' (not_lt.mp hinside), hopens'] at hwithin
      cases hwithin

theorem Seen.not_seen_inside (h : d.Seen t g) (hstart : g.start < f.start)
    (hstop : f.start < g.stop) : ¬ d.Seen t f := by
  rintro ⟨-, hclear⟩
  exact absurd (hclear g.start hstart g h.1) (not_le.mpr hstop)

/-- What a scan that has come to an offset goes on from: the text is clear there, or it is in a
    block that was seen. -/
def Reached (d : Delimiters α) (t : List α) (offset skip : ℕ) : Prop :=
  (skip = 0 ∧ d.Clear t offset) ∨
    ∃ found, d.Seen t found ∧ found.start < offset ∧ found.stop = offset + skip

theorem Reached.clear (h : d.Reached t offset 0) : d.Clear t offset := by
  rcases h with ⟨-, hclear⟩ | ⟨found, hseen, -, hstop⟩
  · exact hclear
  · rw [Nat.add_zero] at hstop
    rw [← hstop]
    exact hseen.clear_stop

theorem mem_scanFrom {whole : List α} (ht : whole.drop offset = t)
    (hreached : d.Reached whole offset skip) :
    f ∈ d.scanFrom skip offset t ↔ d.Seen whole f ∧ offset ≤ f.start := by
  induction t generalizing skip offset with
  | nil =>
    constructor
    · intro hf
      cases hf
    · rintro ⟨⟨hblock, -⟩, hle⟩
      obtain ⟨n, j, m, -, hclose, -, -⟩ := blockAt_eq_some.mp hblock
      have hend : (whole.drop f.start).drop j = [] := by
        rw [drop_eq_nil_iff] at ht
        rw [drop_drop, drop_eq_nil_iff]
        omega
      rw [hend, d.closes_nil] at hclose
      cases hclose
  | cons c rest ih =>
    have hrest : whole.drop (offset + 1) = rest := by
      rw [← drop_drop, ht]
      rfl
    cases skip with
    | succ k =>
      rcases hreached with ⟨hzero, -⟩ | ⟨found, hseen, hstart, hstop⟩
      · cases hzero
      have hnext : d.Reached whole (offset + 1) k := .inr ⟨found, hseen, by omega, by omega⟩
      rw [scanFrom, ih hrest hnext]
      refine and_congr_right fun hf => ⟨fun hle => by omega, fun hle => ?_⟩
      have hne : f.start ≠ offset := by
        intro heq
        exact hseen.not_seen_inside (by omega) (by omega) hf
      omega
    | zero =>
      have hclear := hreached.clear
      rw [scanFrom]
      cases hblock : d.blockAt offset (c :: rest) with
      | none =>
        have hnext : d.Clear whole (offset + 1) := by
          intro i hi found hfound
          rcases Nat.lt_succ_iff_lt_or_eq.mp hi with hlt | rfl
          · exact (hclear i hlt found hfound).trans (Nat.le_succ _)
          · rw [ht, hblock] at hfound
            cases hfound
        rw [ih hrest (.inl ⟨rfl, hnext⟩)]
        refine and_congr_right fun hf => ⟨fun hle => by omega, fun hle => ?_⟩
        have hne : f.start ≠ offset := by
          intro heq
          have hfirst := hf.1
          rw [heq, ht, hblock] at hfirst
          cases hfirst
        omega
      | some g =>
        have hstart := blockAt_start hblock
        have hlt := lt_stop hblock
        have hseen : d.Seen whole g := by
          refine ⟨?_, hstart.symm ▸ hclear⟩
          rw [hstart, ht]
          exact hblock
        have hnext : d.Reached whole (offset + 1) (g.stop - (offset + 1)) :=
          .inr ⟨g, hseen, by omega, by omega⟩
        rw [mem_cons, ih hrest hnext]
        constructor
        · rintro (rfl | ⟨hf, hle⟩)
          · exact ⟨hseen, hstart.ge⟩
          · exact ⟨hf, by omega⟩
        · rintro ⟨hf, hle⟩
          by_cases heq : f.start = offset
          · have hfirst := hf.1
            rw [heq, ht, hblock] at hfirst
            exact .inl (some.inj hfirst).symm
          · exact .inr ⟨hf, by omega⟩

/-- **The scan finds exactly what is seen.** -/
theorem mem_scan : f ∈ d.scan t ↔ d.Seen t f := by
  have hreached : d.Reached t 0 0 := .inl ⟨rfl, fun i hi => absurd hi (not_lt_zero i)⟩
  rw [scan, mem_scanFrom drop_zero hreached]
  exact and_iff_left (zero_le _)

theorem le_start (h : f ∈ d.scanFrom skip offset t) : offset ≤ f.start := by
  induction t generalizing skip offset with
  | nil => cases h
  | cons c rest ih =>
    rw [scanFrom.eq_def] at h
    dsimp only at h
    split at h
    · exact (le_succ _).trans (ih h)
    · split at h
      · rename_i g hblock
        rcases mem_cons.mp h with rfl | h
        · exact (blockAt_start hblock).ge
        · exact (le_succ _).trans (ih h)
      · exact (le_succ _).trans (ih h)

theorem scanFrom_pairwise (skip offset : ℕ) (t : List α) :
    (d.scanFrom skip offset t).Pairwise fun f g => f.start < g.start := by
  induction t generalizing skip offset with
  | nil => exact List.Pairwise.nil
  | cons c rest ih =>
    rw [scanFrom.eq_def]
    dsimp only
    split
    · exact ih _ _
    · split
      · rename_i g hblock
        refine List.Pairwise.cons (fun f hf => ?_) (ih _ _)
        have hle := le_start hf
        rw [blockAt_start hblock]
        omega
      · exact ih _ _

end Delimiters

end Loregarden.BlockScan
