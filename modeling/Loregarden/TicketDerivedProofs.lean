import Loregarden.TicketSpellingProofs
import Mathlib.Data.List.Perm.Subperm

/-! # Derived prefixes and codes

    Both derivations end, with a value that is not taken and can be spelled and read back.
    A milestone code is never the reserved one, which is replaced before a suffix is tried;
    a prefix is never checked against the one of the initiatives, and three letters that are
    taken are lengthened into it.

    * `mem_firstFree`: the loops over the suffixes end;
    * `deriveWorkspacePrefix_cases`, `deriveMilestoneCode_cases`: what is derived;
    * `derived_ids_usable_iff`: when both are usable. -/

namespace Loregarden.TicketIds

open Text List

variable {c : Char} {s slug title value reserved : Word} {taken : List Word} {n k : Nat}

/-- `while spelled(suffix) in taken: suffix += 1`, from a suffix on, and what is returned
    behind it. -/
inductive SuffixLoop (spelled : Nat → Word) (taken : List Word) : Nat → Word → Prop
  | free {suffix : Nat} : spelled suffix ∉ taken → SuffixLoop spelled taken suffix (spelled suffix)
  | next {suffix : Nat} {result : Word} : spelled suffix ∈ taken →
      SuffixLoop spelled taken (suffix + 1) result → SuffixLoop spelled taken suffix result

theorem SuffixLoop.of_first {spelled : Nat → Word} {suffix : Nat}
    (hfree : spelled (suffix + k) ∉ taken) (htaken : ∀ j < k, spelled (suffix + j) ∈ taken) :
    SuffixLoop spelled taken suffix (spelled (suffix + k)) := by
  induction k generalizing suffix with
  | zero => exact .free hfree
  | succ k ih =>
    refine .next (htaken 0 (Nat.succ_pos k)) ?_
    have hshift : suffix + (k + 1) = suffix + 1 + k := by omega
    rw [hshift] at hfree ⊢
    refine ih hfree fun j hj => ?_
    have hj' := htaken (j + 1) (Nat.succ_lt_succ hj)
    rw [show suffix + (j + 1) = suffix + 1 + j by omega] at hj'
    exact hj'

theorem mem_firstFree {spelled : Nat → Word} (hinj : Function.Injective spelled)
    (taken : List Word) : ∃ k,
      ((List.range (taken.length + 1)).map fun k => spelled (k + 2)).find? (· ∉ taken) =
        some (spelled (k + 2)) ∧ spelled (k + 2) ∉ taken ∧
      SuffixLoop spelled taken 2 (spelled (k + 2)) := by
  have hnodup : ((List.range (taken.length + 1)).map fun k => spelled (k + 2)).Nodup := by
    refine List.Nodup.map (fun i j h => ?_) nodup_range
    have hij := hinj h
    omega
  rw [List.find?_map]
  cases hfound : (List.range (taken.length + 1)).find?
      ((fun w => decide (w ∉ taken)) ∘ fun k => spelled (k + 2)) with
  | none =>
    rw [List.find?_eq_none] at hfound
    have hsub : ((List.range (taken.length + 1)).map fun k => spelled (k + 2)) ⊆ taken := by
      intro w hw
      obtain ⟨k, hk, rfl⟩ := mem_map.mp hw
      exact by_contra fun hno => hfound k hk (decide_eq_true hno)
    have hlength := (subperm_of_subset hnodup hsub).length_le
    rw [length_map, length_range] at hlength
    omega
  | some k =>
    obtain ⟨hfree, -, hbefore⟩ := List.find?_range_eq_some.mp hfound
    have hfree : spelled (k + 2) ∉ taken := of_decide_eq_true hfree
    refine ⟨k, rfl, hfree, ?_⟩
    rw [Nat.add_comm] at hfree ⊢
    refine SuffixLoop.of_first hfree fun j hj => ?_
    have hj' := hbefore j hj
    rw [Nat.add_comm]
    simpa using hj'

theorem digits_injective : Function.Injective digits := by
  intro m n h
  rw [← @ofDigitChars_digits m, ← @ofDigitChars_digits n, h]

theorem getLast?_digits (base : Word) (n : Nat) :
    ∃ c, (base ++ digits n).getLast? = some c ∧ c.isDigit = true := by
  have hne : digits n ≠ [] := Nat.toDigits_ne_nil
  refine ⟨(digits n).getLast hne, ?_, ?_⟩
  · rw [List.getLast?_append, List.getLast?_eq_some_getLast hne, Option.some_or]
  · exact Nat.isDigit_of_mem_toDigits (by decide) (by decide) (getLast_mem hne)

/-- A value that can be handed out: not taken, of slug letters and hyphens with a slug letter
    at either end, and not reserved. -/
structure Usable (value : Word) (taken : List Word) (reserved : Word) : Prop where
  free : value ∉ taken
  letters : ∀ c ∈ value, isSlugDash c = true
  first : ∃ c, value.head? = some c ∧ isSlug c = true
  last : ∃ c, value.getLast? = some c ∧ isSlug c = true
  unreserved : value ≠ reserved

/-- The letters `derive_workspace_prefix` cuts from. -/
def prefixLetters (slug : Word) : Word :=
  if (slugLetters slug).isEmpty then "ws".toList else slugLetters slug

theorem isSlug_prefixLetters (h : c ∈ prefixLetters slug) : isSlug c = true := by
  rw [prefixLetters] at h
  split at h
  · rcases mem_pair.mp h with rfl | rfl
    · decide
    · decide
  · exact (mem_filter.mp h).2

theorem prefixLetters_ne_nil : prefixLetters slug ≠ [] := by
  rw [prefixLetters]
  split
  · decide
  · rename_i hne
    rwa [List.isEmpty_iff] at hne

/-- A prefix is a beginning of the letters, the first from three on that is free, or the
    first three with a number. -/
theorem deriveWorkspacePrefix_cases (slug : Word) (taken : List Word) :
    (∃ n, 3 ≤ n ∧ n ≤ max (prefixLetters slug).length 3 ∧
        deriveWorkspacePrefix slug taken = (prefixLetters slug).take n ∧
        (prefixLetters slug).take n ∉ taken ∧
        ∀ m, 3 ≤ m → m < n → (prefixLetters slug).take m ∈ taken) ∨
      (∃ k, deriveWorkspacePrefix slug taken = (prefixLetters slug).take 3 ++ digits (k + 2) ∧
        (prefixLetters slug).take 3 ++ digits (k + 2) ∉ taken) ∧
        ∀ m, 3 ≤ m → m ≤ max (prefixLetters slug).length 3 →
          (prefixLetters slug).take m ∈ taken := by
  rw [deriveWorkspacePrefix, ← prefixLetters, map_map, List.find?_map]
  cases hfound : (List.range (max (prefixLetters slug).length 3 - 2)).find?
      ((fun w => decide (w ∉ taken)) ∘ (prefixLetters slug).take ∘ (· + 3)) with
  | some k =>
    obtain ⟨hfree, hk, hbefore⟩ := List.find?_range_eq_some.mp hfound
    have hk := mem_range.mp hk
    refine .inl ⟨k + 3, by omega, by omega, rfl, of_decide_eq_true hfree, fun m hm hmk => ?_⟩
    have hm' := hbefore (m - 3) (by omega)
    have hsub : m - 3 + 3 = m := by omega
    simpa [hsub] using hm'
  | none =>
    rw [List.find?_eq_none] at hfound
    have hinj : Function.Injective fun k => (prefixLetters slug).take 3 ++ digits k :=
      fun i j h => digits_injective (append_cancel_left h)
    obtain ⟨k, hfirst, hfree, -⟩ := mem_firstFree hinj taken
    refine .inr ⟨⟨k, ?_, hfree⟩, fun m hm hmax => ?_⟩
    · show ((List.map _ (List.range _)).find? _).getD _ = _
      rw [hfirst]
      rfl
    · have hm' := hfound (m - 3) (mem_range.mpr (by omega))
      have hsub : m - 3 + 3 = m := by omega
      simpa [hsub] using hm'

theorem deriveWorkspacePrefix_isPrefix (slug : Word) (taken : List Word) :
    IsPrefix (deriveWorkspacePrefix slug taken) ∧ deriveWorkspacePrefix slug taken ∉ taken := by
  have htake : ∀ n, 3 ≤ n → (prefixLetters slug).take n ≠ [] := by
    intro n hn hnil
    rcases take_eq_nil_iff.mp hnil with h | h
    · omega
    · exact prefixLetters_ne_nil h
  have hslug : ∀ n, ∀ c ∈ (prefixLetters slug).take n, isSlug c = true :=
    fun n c hc => isSlug_prefixLetters (mem_of_mem_take hc)
  rcases deriveWorkspacePrefix_cases slug taken with
    ⟨n, hn, -, heq, hfree, -⟩ | ⟨⟨k, heq, hfree⟩, -⟩
  · rw [heq]
    exact ⟨⟨htake n hn, hslug n⟩, hfree⟩
  · rw [heq]
    refine ⟨⟨append_ne_nil_of_left_ne_nil (htake 3 (by omega)) _, fun c hc => ?_⟩, hfree⟩
    rcases mem_append.mp hc with h | h
    · exact hslug 3 c h
    · exact isSlug_of_mem_digits h

theorem init_prefix_iff : "init".toList <+: slugLetters slug ↔
    (prefixLetters slug).take 4 = "init".toList := by
  rw [prefix_iff_eq_take, prefixLetters]
  split
  · rename_i hnil
    rw [isEmpty_iff.mp hnil]
    decide
  · exact eq_comm

/-- **The reserved prefix is derived exactly where three letters of it are taken and four
    are not.** -/
theorem deriveWorkspacePrefix_eq_init_iff (slug : Word) (taken : List Word) :
    deriveWorkspacePrefix slug taken = "init".toList ↔
      "init".toList <+: slugLetters slug ∧ "ini".toList ∈ taken ∧ "init".toList ∉ taken := by
  have hthree : (prefixLetters slug).take 4 = "init".toList →
      (prefixLetters slug).take 3 = "ini".toList := by
    intro h
    rw [show (prefixLetters slug).take 3 = ((prefixLetters slug).take 4).take 3 by
      rw [take_take]; rfl, h]
    rfl
  rw [init_prefix_iff]
  constructor
  · intro h
    have hfree := (deriveWorkspacePrefix_isPrefix slug taken).2
    rw [h] at hfree
    rcases deriveWorkspacePrefix_cases slug taken with
      ⟨n, hn, hmax, heq, -, hbefore⟩ | ⟨⟨k, heq, -⟩, -⟩
    · rw [h] at heq
      have hlength := congrArg List.length heq
      rw [length_take] at hlength
      -- four letters are there, and four were cut
      have hfour : 4 = min n (prefixLetters slug).length := hlength
      have htake : (prefixLetters slug).take 4 = "init".toList := by
        rw [hfour, ← take_eq_take_min]
        exact heq.symm
      refine ⟨htake, ?_, hfree⟩
      rw [← hthree htake]
      exact hbefore 3 (by omega) (by omega)
    · -- a number ends in a digit
      obtain ⟨c, hlast, hdigit⟩ := getLast?_digits ((prefixLetters slug).take 3) (k + 2)
      rw [← heq, h] at hlast
      obtain rfl := Option.some.inj hlast
      cases hdigit
  · rintro ⟨htake, htaken, hfree⟩
    have hlength : 4 ≤ (prefixLetters slug).length := by
      have hlen := congrArg List.length htake
      rw [length_take] at hlen
      have hfour : min 4 (prefixLetters slug).length = 4 := hlen
      omega
    rcases deriveWorkspacePrefix_cases slug taken with ⟨n, hn, -, heq, hno, hbefore⟩ | ⟨-, hall⟩
    · have hfour : n = 4 := by
        rcases Nat.lt_trichotomy n 4 with h | h | h
        · obtain rfl : n = 3 := by omega
          rw [hthree htake] at hno
          exact absurd htaken hno
        · exact h
        · have hmem := hbefore 4 (by omega) h
          rw [htake] at hmem
          exact absurd hmem hfree
      rw [heq, hfour, htake]
    · have hmem := hall 4 (by omega) (by omega)
      rw [htake] at hmem
      exact absurd hmem hfree

/-! ## The code of a milestone -/

/-- The code before a suffix: what the title names, or `milestone`. -/
def baseCode (title : Word) : Word :=
  if (namedCode title).isEmpty || namedCode title = "none".toList then "milestone".toList
  else namedCode title

/-- **A code is the base, or the base with the first number that is free.** -/
theorem deriveMilestoneCode_cases (title : Word) (taken : List Word) :
    deriveMilestoneCode title taken = baseCode title ∧ baseCode title ∉ taken ∨
      ∃ k, deriveMilestoneCode title taken = baseCode title ++ '-' :: digits (k + 2) ∧
        baseCode title ++ '-' :: digits (k + 2) ∉ taken := by
  have hdef : deriveMilestoneCode title taken = if baseCode title ∈ taken then
      (((List.range (taken.length + 1)).map fun k => baseCode title ++ '-' :: digits (k + 2)).find?
        (· ∉ taken)).getD (baseCode title)
      else baseCode title := rfl
  rw [hdef]
  by_cases htaken : baseCode title ∈ taken
  · rw [if_pos htaken]
    have hinj : Function.Injective fun k => baseCode title ++ '-' :: digits k :=
      fun i j h => digits_injective (List.cons.inj (append_cancel_left h)).2
    obtain ⟨k, hfirst, hfree, -⟩ := mem_firstFree hinj taken
    refine .inr ⟨k, ?_, hfree⟩
    rw [hfirst]
    rfl
  · rw [if_neg htaken]
    exact .inl ⟨rfl, htaken⟩

theorem baseCode_ends (title : Word) : (∃ c, (baseCode title).head? = some c ∧ (c == '-') = false) ∧
      ∃ c, (baseCode title).getLast? = some c ∧ (c == '-') = false := by
  rw [baseCode]
  split
  · exact ⟨⟨'m', rfl, rfl⟩, 'e', rfl, rfl⟩
  · rename_i hplain
    rw [Bool.or_eq_true, not_or, List.isEmpty_iff] at hplain
    exact Text.strip_ends hplain.1

theorem baseCode_ne_none (title : Word) : baseCode title ≠ "none".toList := by
  rw [baseCode]
  split
  · decide
  · rename_i hplain
    rw [Bool.or_eq_true, not_or, decide_eq_true_iff] at hplain
    exact hplain.2

theorem isSlug_of_ne_dash (h : isSlugDash c = true) (hne : (c == '-') = false) :
    isSlug c = true := by
  rw [isSlugDash, hne, Bool.or_false] at h
  exact h

/-- **Every milestone code that is derived is usable.** -/
theorem deriveMilestoneCode_usable (title : Word) (taken : List Word) :
    Usable (deriveMilestoneCode title taken) taken "none".toList := by
  have hletters := @isSlugDash_deriveMilestoneCode title taken
  obtain ⟨⟨first, hfirst, hfirst_ne⟩, last, hlast, hlast_ne⟩ := baseCode_ends title
  rcases deriveMilestoneCode_cases title taken with ⟨heq, hfree⟩ | ⟨k, heq, hfree⟩
  · rw [heq] at hletters ⊢
    refine ⟨hfree, hletters, ⟨first, hfirst, ?_⟩, ⟨last, hlast, ?_⟩, baseCode_ne_none title⟩
    · exact isSlug_of_ne_dash (hletters first (mem_of_mem_head? hfirst)) hfirst_ne
    · exact isSlug_of_ne_dash (hletters last (mem_of_mem_getLast? hlast)) hlast_ne
  · rw [heq] at hletters ⊢
    have hhead : (baseCode title ++ '-' :: digits (k + 2)).head? = some first := by
      rw [List.head?_append, hfirst, Option.some_or]
    obtain ⟨digit, hdigit_last, hdigit⟩ := getLast?_digits (baseCode title ++ ['-']) (k + 2)
    rw [append_assoc] at hdigit_last
    refine ⟨hfree, hletters, ⟨first, hhead, ?_⟩, ⟨digit, hdigit_last, isSlug_of_isDigit hdigit⟩, ?_⟩
    · exact isSlug_of_ne_dash (hletters first (mem_of_mem_head? hhead)) hfirst_ne
    · intro hnone
      have hlast' : ['n', 'o', 'n', 'e'].getLast? = some digit := by
        rw [← hdigit_last]
        exact congrArg List.getLast? hnone.symm
      obtain rfl := Option.some.inj hlast'
      cases hdigit

theorem usable_of_isPrefix (h : IsPrefix value) (hfree : value ∉ taken) (hne : value ≠ reserved) :
    Usable value taken reserved where
  free := hfree
  letters c hc := isSlugDash_of_isSlug (h.2 c hc)
  first := ⟨value.head h.1, List.head?_eq_some_head h.1, h.2 _ (head_mem h.1)⟩
  last := ⟨value.getLast h.1, List.getLast?_eq_some_getLast h.1, h.2 _ (getLast_mem h.1)⟩
  unreserved := hne

/-- What the two derivations promise: their loops end, both values are usable, and an id
    spelled of them gives back its prefix and its number. -/
structure DerivedIds (slug title : Word) (prefixes codes : List Word) : Prop where
  prefix_loop : ∃ result,
    SuffixLoop (fun k => (prefixLetters slug).take 3 ++ digits k) prefixes 2 result
  code_loop : ∃ result, SuffixLoop (fun k => baseCode title ++ '-' :: digits k) codes 2 result
  prefix_usable : Usable (deriveWorkspacePrefix slug prefixes) prefixes "init".toList
  code_usable : Usable (deriveMilestoneCode title codes) codes "none".toList
  spelled : ∀ n, parseTicketNumber (spellExternalId (deriveWorkspacePrefix slug prefixes)
        (deriveMilestoneCode title codes) n) = some n ∧
      parseWorkspacePrefix (spellExternalId (deriveWorkspacePrefix slug prefixes)
        (deriveMilestoneCode title codes) n) = some (deriveWorkspacePrefix slug prefixes)

/-- **When the derived ids are as they should be.** For every slug, every title and whatever is
    taken, all is as promised exactly where three letters of the reserved prefix are not lengthened
    into it. -/
theorem derived_ids_usable_iff (slug title : Word) (prefixes codes : List Word) :
    DerivedIds slug title prefixes codes ↔
      ¬ ("init".toList <+: slugLetters slug ∧ "ini".toList ∈ prefixes ∧
        "init".toList ∉ prefixes) := by
  rw [← deriveWorkspacePrefix_eq_init_iff]
  constructor
  · intro h
    exact h.prefix_usable.unreserved
  · intro hne
    obtain ⟨hstart, hfree⟩ := deriveWorkspacePrefix_isPrefix slug prefixes
    have hpinj : Function.Injective fun k => (prefixLetters slug).take 3 ++ digits k :=
      fun i j h => digits_injective (append_cancel_left h)
    have hcinj : Function.Injective fun k => baseCode title ++ '-' :: digits k :=
      fun i j h => digits_injective (List.cons.inj (append_cancel_left h)).2
    obtain ⟨_, -, -, hploop⟩ := mem_firstFree hpinj prefixes
    obtain ⟨_, -, -, hcloop⟩ := mem_firstFree hcinj codes
    refine ⟨⟨_, hploop⟩, ⟨_, hcloop⟩, usable_of_isPrefix hstart hfree hne,
      deriveMilestoneCode_usable title codes, fun n => ?_⟩
    have hspells : Spells (spellExternalId (deriveWorkspacePrefix slug prefixes)
        (deriveMilestoneCode title codes) n) (deriveWorkspacePrefix slug prefixes) n :=
      ⟨hstart, spellExternalId_eq hstart isSlugDash_deriveMilestoneCode⟩
    exact ⟨hspells.parseTicketNumber_eq, hspells.parseWorkspacePrefix_eq⟩

/-- A second workspace whose slug begins so takes the prefix of the initiatives. -/
theorem initech_takes_init : deriveWorkspacePrefix "initech".toList ["ini".toList] = "init".toList ∧
      ¬ DerivedIds "initech".toList "Bootstrap".toList ["ini".toList] [] := by
  have hinit : deriveWorkspacePrefix "initech".toList ["ini".toList] = "init".toList := by decide
  exact ⟨hinit, fun h => h.prefix_usable.unreserved hinit⟩

end Loregarden.TicketIds
