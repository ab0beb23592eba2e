import Loregarden.TicketIdModel

/-! # A spelling gives back its prefix and its number

Between a prefix without a hyphen and a number of digits any run of slug letters and hyphens may
stand: the prefix is what comes before the first hyphen, the number what comes after the last. So
two spellings are equal only with the same prefix and the same number, whatever their segments, and
the number step of `resolve` reads both back. A milestone code is such a run, however it was
derived. -/

namespace Loregarden.TicketIds

open Text List

variable {c : Char} {s code title : Word} {n : Nat}

/-! ## Slug letters -/

theorem toNat_of_isSlug (h : isSlug c = true) :
    97 ≤ c.toNat ∧ c.toNat ≤ 122 ∨ 48 ≤ c.toNat ∧ c.toNat ≤ 57 := by
  simp only [isSlug, Char.isDigit, Bool.or_eq_true, Bool.and_eq_true, decide_eq_true_eq,
    Char.le_def, UInt32.le_iff_toNat_le, ge_iff_le] at h
  exact h

theorem toNat_of_isSlugDash (h : isSlugDash c = true) :
    97 ≤ c.toNat ∧ c.toNat ≤ 122 ∨ 45 ≤ c.toNat ∧ c.toNat ≤ 57 := by
  rcases Bool.or_eq_true_iff.mp h with hs | hd
  · have hn := toNat_of_isSlug hs
    omega
  · rw [beq_iff_eq.mp hd]
    exact .inr ⟨by decide, by decide⟩

theorem isSlugDash_of_isSlug (h : isSlug c = true) : isSlugDash c = true :=
  Bool.or_eq_true_iff.mpr (.inl h)

theorem isSlug_of_isDigit (h : c.isDigit = true) : isSlug c = true :=
  Bool.or_eq_true_iff.mpr (.inr h)

theorem ne_dash_of_isSlug (h : isSlug c = true) : c ≠ '-' := by
  rintro rfl
  revert h
  decide

theorem isSpace_of_isSlugDash (h : isSlugDash c = true) : isSpace c = false := by
  have hn := toNat_of_isSlugDash h
  by_contra hs
  rw [Bool.not_eq_false] at hs
  simp only [isSpace, Bool.or_eq_true, Bool.and_eq_true, decide_eq_true_eq, beq_iff_eq] at hs
  omega

theorem lowerChar_of_isSlugDash (h : isSlugDash c = true) : lowerChar c = [c] := by
  have hn := toNat_of_isSlugDash h
  have h1 : c ≠ '\u0130' := by
    rintro rfl
    revert hn
    decide
  have h2 : c ≠ '\u212a' := by
    rintro rfl
    revert hn
    decide
  have hlower : c.toLower = c := by
    refine dif_neg ?_
    rintro ⟨hA, hZ⟩
    have h65 : 65 ≤ c.toNat := UInt32.le_iff_toNat_le.mp hA
    have h90 : c.toNat ≤ 90 := UInt32.le_iff_toNat_le.mp hZ
    omega
  rw [lowerChar, if_neg h1, if_neg h2, hlower]

theorem lower_eq_self (h : ∀ c ∈ s, isSlugDash c = true) : lower s = s := by
  induction s with
  | nil => rfl
  | cons c s ih =>
    show lowerChar c ++ lower s = c :: s
    rw [lowerChar_of_isSlugDash (h c mem_cons_self), ih fun x hx => h x (mem_cons_of_mem _ hx)]
    rfl

theorem strip_slug (h : ∀ c ∈ s, isSlugDash c = true) : strip isSpace s = s :=
  strip_eq_self fun c hc => isSpace_of_isSlugDash (h c hc)

theorem isSlug_of_mem_words {word : Word} (h : word ∈ words title) :
    ∀ c ∈ word, isSlug c = true := by
  intro c hc
  have hpiece := forall_mem_splitOnP (mem_filter.mp h).1 c hc
  simpa using hpiece

theorem mem_of_mem_dropNoise {ws : List Word} {word : Word} (h : word ∈ dropNoise ws) :
    word ∈ ws := by
  induction ws using dropNoise.induct with
  | case1 => exact h
  | case2 first hnoise =>
    rw [dropNoise, if_pos hnoise] at h
    cases h
  | case3 first hnoise | case6 first next rest hnoise =>
    rw [dropNoise, if_neg hnoise] at h
    exact h
  | case4 first next rest hnoise horder ih =>
    rw [dropNoise, if_pos hnoise, if_pos horder] at h
    exact mem_cons_of_mem _ (mem_cons_of_mem _ (ih h))
  | case5 first next rest hnoise horder ih =>
    rw [dropNoise, if_pos hnoise, if_neg horder] at h
    exact mem_cons_of_mem _ (ih h)

theorem isSlug_of_mem_digits (h : c ∈ digits n) : isSlug c = true :=
  isSlug_of_isDigit (Nat.isDigit_of_mem_toDigits (by decide) (by decide) h)

/-- **A derived code is slug letters and hyphens.** -/
theorem isSlugDash_deriveMilestoneCode {taken : List Word} :
    ∀ c ∈ deriveMilestoneCode title taken, isSlugDash c = true := by
  unfold deriveMilestoneCode
  extract_lets named kept chosen code₀ code
  have hchosen : ∀ word ∈ chosen, ∀ c ∈ word, isSlug c = true := by
    intro word hword
    have hmem := mem_of_mem_take hword
    have hnamed : word ∈ named := by
      by_cases hk : kept.isEmpty = true
      · rwa [if_pos hk] at hmem
      · rw [if_neg hk] at hmem
        exact (mem_filter.mp hmem).1
    exact isSlug_of_mem_words (mem_of_mem_dropNoise hnamed)
  have hcode₀ : ∀ c ∈ code₀, isSlugDash c = true := by
    intro c hc
    have hjoined := mem_of_mem_take ((strip_isInfix _ _).mem hc)
    rcases mem_intercalate hjoined with hdash | ⟨word, hword, hcw⟩
    · rw [mem_singleton.mp hdash]
      decide
    · exact isSlugDash_of_isSlug (hchosen word hword c hcw)
  have hcode : ∀ c ∈ code, isSlugDash c = true := by
    by_cases hplain : (code₀.isEmpty || code₀ = "none".toList) = true
    · have hname : code = "milestone".toList := if_pos hplain
      rw [hname]
      exact all_eq_true.mp (by decide)
    · have hname : code = code₀ := if_neg hplain
      rw [hname]
      exact hcode₀
  by_cases htaken : code ∈ taken
  · rw [if_pos htaken]
    cases hfound : ((List.range (taken.length + 1)).map
        fun k => code ++ '-' :: digits (k + 2)).find? (· ∉ taken) with
    | none =>
      exact hcode
    | some found =>
      obtain ⟨k, -, rfl⟩ := mem_map.mp (mem_of_find?_eq_some hfound)
      intro c hc
      rcases mem_append.mp hc with h | h
      · exact hcode c h
      · rcases mem_cons.mp h with rfl | h
        · decide
        · exact isSlugDash_of_isSlug (isSlug_of_mem_digits h)
  · rw [if_neg htaken]
    exact hcode

/-! ## Spelling and reading back -/

/-- A prefix `_STRUCTURED_ID_RE` can read back. -/
def IsPrefix (s : Word) : Prop := s ≠ [] ∧ ∀ c ∈ s, isSlug c = true

instance (s : Word) : Decidable (IsPrefix s) :=
  decidable_of_iff (s ≠ [] ∧ s.all isSlug = true) (and_congr_right fun _ => all_eq_true)

theorem spellExternalId_eq (hs : IsPrefix s) (hcode : ∀ c ∈ code, isSlugDash c = true) :
    ∃ segment, segment ≠ [] ∧ (∀ c ∈ segment, isSlugDash c = true) ∧
      spellExternalId s code n = s ++ '-' :: segment ++ '-' :: digits n := by
  have hstrip := strip_slug fun c hc => isSlugDash_of_isSlug (hs.2 c hc)
  by_cases hempty : code = []
  · refine ⟨"none".toList, by decide, all_eq_true.mp (by decide), ?_⟩
    rw [spellExternalId, hstrip, hempty]
    simp [hs.1]
    rfl
  · refine ⟨code, hempty, hcode, ?_⟩
    rw [spellExternalId, hstrip, strip_slug hcode]
    simp [hs.1, hempty]

def Spells (spelling first : Word) (number : Nat) : Prop :=
  IsPrefix first ∧ ∃ segment, segment ≠ [] ∧ (∀ c ∈ segment, isSlugDash c = true) ∧
    spelling = first ++ '-' :: segment ++ '-' :: digits number

variable {spelling first : Word} {number : Nat}

section

variable (h : Spells spelling first number)
include h

theorem Spells.isSlugDash : ∀ c ∈ spelling, isSlugDash c = true := by
  obtain ⟨hfirst, segment, -, hsegment, rfl⟩ := h
  intro c hc
  simp only [mem_append, mem_cons] at hc
  rcases hc with (h | rfl | h) | rfl | h
  · exact isSlugDash_of_isSlug (hfirst.2 c h)
  · decide
  · exact hsegment c h
  · decide
  · exact isSlugDash_of_isSlug (isSlug_of_mem_digits h)

theorem Spells.ne_nil : spelling ≠ [] := by
  obtain ⟨hfirst, segment, -, -, rfl⟩ := h
  simp

/-- **Prefix and number are read back.** -/
theorem Spells.structuredParts_eq : structuredParts spelling = some (first, digits number) := by
  have hslug := h.isSlugDash
  obtain ⟨hfirst, segment, -, hsegment, rfl⟩ := h
  have hne : ∀ c ∈ first, (c != '-') = true := fun c hc =>
    bne_iff_ne.mpr (ne_dash_of_isSlug (hfirst.2 c hc))
  have hdigits : ∀ c ∈ digits number, (c != '-') = true := fun c hc =>
    bne_iff_ne.mpr (ne_dash_of_isSlug (isSlug_of_mem_digits hc))
  have hassoc : first ++ '-' :: segment ++ '-' :: digits number =
      first ++ ('-' :: segment ++ '-' :: digits number) := by simp
  -- the first hyphen ends the prefix, the last one starts the number
  have htake : (first ++ '-' :: segment ++ '-' :: digits number).takeWhile (· != '-') = first := by
    rw [hassoc, takeWhile_append_of_pos hne]
    simp
  have hdrop : (first ++ '-' :: segment ++ '-' :: digits number).dropWhile (· != '-') =
      '-' :: segment ++ '-' :: digits number := by
    rw [hassoc, dropWhile_append_of_pos hne]
    simp
  have hlast : (first ++ '-' :: segment ++ '-' :: digits number).rtakeWhile (· != '-') =
      digits number := rtakeWhile_after hdigits (by decide)
  have hbetween : ('-' :: segment ++ '-' :: digits number).rdropWhile (· != '-') =
      '-' :: segment ++ ['-'] := rdropWhile_after hdigits (by decide)
  rw [structuredParts, strip_slug hslug, lower_eq_self hslug]
  simp only [htake, hdrop, hlast, hbetween]
  refine if_pos ⟨by simp, hfirst.1, all_eq_true.mpr hfirst.2, Nat.toDigits_ne_nil, ?_, ?_⟩
  · exact all_eq_true.mpr fun c hc =>
      Nat.isDigit_of_mem_toDigits (by decide) (by decide) hc
  · refine all_eq_true.mpr fun c hc => ?_
    simp only [mem_append, mem_cons, not_mem_nil, or_false] at hc
    rcases hc with (rfl | h) | rfl
    · decide
    · exact hsegment c h
    · decide

omit h in
theorem ofDigitChars_digits : Nat.ofDigitChars 10 (digits n) 0 = n :=
  Nat.ofDigitChars_toDigits (by decide) (by decide)

theorem Spells.parseTicketNumber_eq : parseTicketNumber spelling = some number := by
  rw [parseTicketNumber, h.structuredParts_eq, Option.map_some, ofDigitChars_digits]

theorem Spells.parseWorkspacePrefix_eq : parseWorkspacePrefix spelling = some first := by
  rw [parseWorkspacePrefix, h.structuredParts_eq, Option.map_some]

/-- **Equal spellings have one prefix and one number.** -/
theorem Spells.inj {first' : Word} {number' : Nat}
    (h' : Spells spelling first' number') : first = first' ∧ number = number' :=
  ⟨Option.some.inj (h.parseWorkspacePrefix_eq.symm.trans h'.parseWorkspacePrefix_eq),
    Option.some.inj (h.parseTicketNumber_eq.symm.trans h'.parseTicketNumber_eq)⟩

end

end Loregarden.TicketIds
