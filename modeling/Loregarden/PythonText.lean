import Mathlib.Data.List.DropRight
import Mathlib.Data.List.TakeWhile
import Mathlib.Order.Nat

/-! # Text as Python cuts it

Strings as lists of characters: what `str.isspace` holds of, `strip` at either end, lines and
pieces, and the regular expressions of `re`. -/

namespace Loregarden.Text

open List

variable {p : Char → Bool} {s : List Char} {c : Char}

/-- `str.isspace`, of one character. -/
def isSpace (c : Char) : Bool :=
  let n := c.toNat
  (9 ≤ n && n ≤ 13) || (28 ≤ n && n ≤ 32) || n == 0x85 || n == 0xa0 || n == 0x1680
    || (0x2000 ≤ n && n ≤ 0x200a) || n == 0x2028 || n == 0x2029 || n == 0x202f
    || n == 0x205f || n == 0x3000

def rstrip (p : Char → Bool) (s : List Char) : List Char := s.rdropWhile p

def strip (p : Char → Bool) (s : List Char) : List Char := rstrip p (s.dropWhile p)

theorem rstrip_isPrefix (p : Char → Bool) (s : List Char) : rstrip p s <+: s :=
  rdropWhile_prefix p s

theorem strip_isInfix (p : Char → Bool) (s : List Char) : strip p s <:+: s :=
  (rstrip_isPrefix p _).isInfix.trans (dropWhile_suffix p).isInfix

theorem strip_eq_nil_iff : strip p s = [] ↔ ∀ c ∈ s, p c = true := by
  rw [strip, rstrip, rdropWhile_eq_nil_iff, ← dropWhile_eq_nil_iff (l := s)]
  constructor
  · intro h
    by_contra hne
    have hhead := head_dropWhile_not (l := s) p hne
    rw [h _ (head_mem hne)] at hhead
    exact nomatch hhead
  · intro h
    rw [h]
    exact nofun

theorem strip_strip_ne_nil (h : strip p s ≠ []) : strip p (strip p s) ≠ [] := by
  intro hnil
  have hlast : ¬ p ((strip p s).getLast h) := rdropWhile_last_not p _ h
  exact hlast (strip_eq_nil_iff.mp hnil _ (getLast_mem h))

theorem strip_eq_self (h : ∀ c ∈ s, p c = false) : strip p s = s := by
  have hdrop : s.dropWhile p = s := by
    cases s with
    | nil => rfl
    | cons c s => rw [dropWhile_cons_of_neg (by simp [h c mem_cons_self])]
  rw [strip, rstrip, hdrop]
  refine rdropWhile_eq_self_iff.mpr fun hne => ?_
  rw [h _ (getLast_mem hne)]
  exact Bool.false_ne_true

theorem strip_strip (p : Char → Bool) (s : List Char) : strip p (strip p s) = strip p s := by
  have hdrop : (strip p s).dropWhile p = strip p s := by
    refine dropWhile_eq_self_iff.mpr fun hpos => ?_
    have hstart : strip p s <+: s.dropWhile p := rstrip_isPrefix p _
    have hlen : 0 < (s.dropWhile p).length := hpos.trans_le hstart.length_le
    rw [hstart.getElem hpos]
    have hhead := head_dropWhile_not (l := s) p (ne_nil_of_length_pos hlen)
    rw [head_eq_getElem] at hhead
    simp [hhead]
  rw [strip, hdrop]
  exact rdropWhile_idempotent p _

theorem dropWhile_isInfix_dropWhile {t : List Char} (h : s <:+: t) :
    s.dropWhile p <:+: t.dropWhile p := by
  obtain ⟨front, back, rfl⟩ := h
  rw [append_assoc, dropWhile_append]
  split
  · rw [dropWhile_append]
    split
    · rename_i hblank
      rw [List.isEmpty_iff.mp hblank]
      exact nil_infix
    · exact (prefix_append _ _).isInfix
  · exact ((dropWhile_suffix p).isInfix.trans (prefix_append s back).isInfix).trans
      (suffix_append _ _).isInfix

theorem strip_isInfix_strip {t : List Char} (h : s <:+: t) : strip p s <:+: strip p t := by
  rw [strip, strip, rstrip, rstrip, rdropWhile, rdropWhile, reverse_infix]
  have hfront : (s.dropWhile p).reverse <:+: (t.dropWhile p).reverse := by
    rw [ reverse_infix]
    exact dropWhile_isInfix_dropWhile h
  exact dropWhile_isInfix_dropWhile hfront

/-- What is left starts and ends with a character that is not stripped. -/
theorem strip_ends (h : strip p s ≠ []) : (∃ c, (strip p s).head? = some c ∧ p c = false) ∧
    ∃ c, (strip p s).getLast? = some c ∧ p c = false := by
  constructor
  · have hprefix := rstrip_isPrefix p (s.dropWhile p)
    obtain ⟨c, rest, hcons⟩ := exists_cons_of_ne_nil h
    rw [strip] at hcons ⊢
    refine ⟨c, by rw [hcons]; rfl, ?_⟩
    rw [hcons] at hprefix
    obtain ⟨tail, htail⟩ := hprefix
    have hne : s.dropWhile p ≠ [] := by
      rw [← htail]
      exact cons_ne_nil _ _
    have hhead := head_dropWhile_not (l := s) p hne
    simpa [← htail] using hhead
  · refine ⟨(strip p s).getLast h, List.getLast?_eq_some_getLast h, ?_⟩
    have hlast : ¬ p ((strip p s).getLast h) = true := rdropWhile_last_not p _ h
    simpa using hlast

/-- Where `str.splitlines` cuts. -/
def isLineBreak (c : Char) : Bool :=
  [0x0A, 0x0B, 0x0C, 0x0D, 0x1C, 0x1D, 0x1E, 0x85, 0x2028, 0x2029].contains c.toNat

/-- The lines of a text, of which `line` is read already. -/
def linesFrom (line : List Char) : List Char → List (List Char)
  | [] => if line.isEmpty then [] else [line]
  | '\r' :: '\n' :: rest => line :: linesFrom [] rest
  | c :: rest => if isLineBreak c then line :: linesFrom [] rest else linesFrom (line ++ [c]) rest

def splitLines (s : List Char) : List (List Char) := linesFrom [] s

theorem forall_mem_splitOnP {piece : List Char} (h : piece ∈ s.splitOnP p) :
    ∀ c ∈ piece, p c = false := by
  induction s generalizing piece with
  | nil =>
    rw [splitOnP_nil, mem_singleton] at h
    subst h
    intro c hc
    cases hc
  | cons a s ih =>
    rw [splitOnP_cons_eq_if_modifyHead] at h
    by_cases ha : p a = true
    · rw [if_pos ha] at h
      rcases mem_cons.mp h with rfl | h
      · intro c hc
        cases hc
      · exact ih h
    · rw [if_neg ha] at h
      cases hs : s.splitOnP p with
      | nil => exact absurd hs (splitOnP_ne_nil p s)
      | cons first rest =>
        rw [hs, modifyHead_cons] at h
        rcases mem_cons.mp h with rfl | h
        · intro c hc
          rcases mem_cons.mp hc with rfl | hc
          · exact Bool.not_eq_true _ ▸ ha
          · exact ih (hs ▸ mem_cons_self) c hc
        · exact ih (hs ▸ mem_cons_of_mem _ h)

/-- The pieces of a text are what stands between two separators, or a separator and an end. -/
theorem mem_splitOn_iff {piece : List Char} : piece ∈ s.splitOn c ↔
    c ∉ piece ∧ ∃ before after, s = before ++ piece ++ after ∧
      (before = [] ∨ before.getLast? = some c) ∧ (after = [] ∨ after.head? = some c) := by
  constructor
  · induction h : s.length using Nat.strong_induction_on generalizing s with
    | h n ih =>
    intro hpiece
    by_cases hc : c ∈ s
    · obtain ⟨front, back, rfl, hfront⟩ := eq_append_cons_of_mem hc
      rw [splitOn_append_cons_self_of_not_mem hfront, mem_cons] at hpiece
      rcases hpiece with rfl | hpiece
      · exact ⟨hfront, [], c :: back, rfl, .inl rfl, .inr rfl⟩
      · have hshort : back.length < n := by
          rw [← h, length_append, length_cons]
          omega
        obtain ⟨hnot, before, after, rfl, hbefore, hafter⟩ := ih _ hshort rfl hpiece
        refine ⟨hnot, front ++ c :: before, after, by simp, .inr ?_, hafter⟩
        rcases hbefore with rfl | hbefore
        · exact getLast?_concat
        · rw [getLast?_append, getLast?_cons, hbefore]
          rfl
    · rw [splitOn_eq_singleton hc, mem_singleton] at hpiece
      subst hpiece
      exact ⟨hc, [], [], by simp, .inl rfl, .inl rfl⟩
  · rintro ⟨hnot, before, after, rfl, hbefore, hafter⟩
    have hhead : piece ∈ (piece ++ after).splitOn c := by
      cases after with
      | nil => simp [splitOn_eq_singleton hnot]
      | cons x rest =>
        obtain rfl : x = c := by simpa using hafter
        rw [splitOn_append_cons_self_of_not_mem hnot]
        exact mem_cons_self
    rcases hbefore with rfl | hbefore
    · exact hhead
    · obtain ⟨front, rfl⟩ := getLast?_eq_some_iff.mp hbefore
      rw [append_assoc, append_assoc, singleton_append, splitOn_append_cons_self]
      exact mem_append_right _ hhead

theorem mem_intercalate {sep : List Char} {pieces : List (List Char)}
    (h : c ∈ sep.intercalate pieces) : c ∈ sep ∨ ∃ piece ∈ pieces, c ∈ piece := by
  induction pieces with
  | nil => cases h
  | cons piece pieces ih =>
    by_cases hlast : pieces = []
    · subst hlast
      rw [intercalate_singleton] at h
      exact .inr ⟨piece, mem_cons_self, h⟩
    · rw [intercalate_cons_of_ne_nil hlast, append_assoc, mem_append, mem_append] at h
      rcases h with h | h | h
      · exact .inr ⟨piece, mem_cons_self, h⟩
      · exact .inl h
      · rcases ih h with h | ⟨other, hother, hc⟩
        · exact .inl h
        · exact .inr ⟨other, mem_cons_of_mem _ hother, hc⟩

theorem infix_intercalate {sep : List Char} {pieces : List (List Char)} {piece : List Char}
    (h : piece ∈ pieces) : piece <:+: sep.intercalate pieces := by
  induction pieces with
  | nil => cases h
  | cons first pieces ih =>
    by_cases hlast : pieces = []
    · subst hlast
      exact ⟨[], [], by simp [mem_singleton.mp h]⟩
    · rw [intercalate_cons_of_ne_nil hlast]
      rcases mem_cons.mp h with rfl | hrest
      · exact ⟨[], sep ++ sep.intercalate pieces, by simp⟩
      · obtain ⟨before, after, hjoined⟩ := ih hrest
        exact ⟨first ++ sep ++ before, after, by simp [← hjoined]⟩

theorem rtakeWhile_after {front back : List Char}
    (hback : ∀ x ∈ back, p x = true) (hc : p c = false) :
    (front ++ c :: back).rtakeWhile p = back := by
  rw [List.rtakeWhile, reverse_append, reverse_cons, append_assoc,
    takeWhile_append_of_pos fun x hx => hback x (mem_reverse.mp hx)]
  simp [hc]

theorem rdropWhile_after {front back : List Char}
    (hback : ∀ x ∈ back, p x = true) (hc : p c = false) :
    (front ++ c :: back).rdropWhile p = front ++ [c] := by
  rw [List.rdropWhile, reverse_append, reverse_cons, append_assoc,
    dropWhile_append_of_pos fun x hx => hback x (mem_reverse.mp hx)]
  simp [hc]

end Loregarden.Text

/-! ## Patterns, as a backtracking matcher reads them

The matches of a pattern at the head of a text are a list, the preferred one first: what the groups
took, and what is left of the text. Only the repetition of a single character is a pattern of its
own. -/

namespace Loregarden.Patterns

universe u v

variable {γ : Type u} {α : Type v}

inductive Pattern (γ : Type u) (α : Type v) where
  | empty
  | one (p : α → Bool)
  /-- A repetition of one character. -/
  | many (greedy : Bool) (p : α → Bool) (least : ℕ) (most : Option ℕ)
  | seq (a b : Pattern γ α)
  | alt (a b : Pattern γ α)
  /-- The pattern, or nothing. -/
  | maybe (a : Pattern γ α)
  | group (name : γ) (a : Pattern γ α)

abbrev Captures (γ : Type u) (α : Type v) := List (γ × List α)

namespace Pattern

/-- How often a repetition may match, the preferred way first. -/
def counts (greedy : Bool) (p : α → Bool) (least : ℕ) (most : Option ℕ) (t : List α) : List ℕ :=
  let longest := (t.takeWhile p).length
  let up := (List.range (min longest (most.getD longest) + 1)).filter fun k => least ≤ k
  if greedy then up.reverse else up

def run : Pattern γ α → List α → List (Captures γ α × List α)
  | empty, t => [([], t)]
  | one _, [] => []
  | one p, c :: rest => if p c then [([], rest)] else []
  | many greedy p least most, t =>
    (counts greedy p least most t).map fun k => ([], t.drop k)
  | seq a b, t =>
    (run a t).flatMap fun first =>
      (run b first.2).map fun second => (first.1 ++ second.1, second.2)
  | alt a b, t => run a t ++ run b t
  | maybe a, t => run a t ++ [([], t)]
  | group name a, t =>
    (run a t).map fun found => ((name, t.take (t.length - found.2.length)) :: found.1, found.2)

def search (r : Pattern γ α) : List α → Option (Captures γ α)
  | [] => (r.run []).head?.map Prod.fst
  | c :: rest =>
    match (r.run (c :: rest)).head? with
    | some found => some found.1
    | none => search r rest

/-- All matches, one behind the other; `skip` characters are in a match already. -/
def findallFrom (r : Pattern γ α) : ℕ → List α → List (Captures γ α)
  | _, [] => []
  | skip + 1, _ :: rest => findallFrom r skip rest
  | 0, c :: rest =>
    match (r.run (c :: rest)).head? with
    | some found => found.1 :: findallFrom r (rest.length - found.2.length) rest
    | none => findallFrom r 0 rest

def findall (r : Pattern γ α) (t : List α) : List (Captures γ α) := r.findallFrom 0 t

def literal (same : α → α → Bool) : List α → Pattern γ α
  | [] => empty
  | c :: rest => seq (one (same c)) (literal same rest)

end Pattern

end Loregarden.Patterns
