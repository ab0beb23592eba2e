import Loregarden.UsageLimitModel
import Mathlib.Data.List.Dedup
import Mathlib.Data.Nat.Digits.Defs
import Mathlib.Order.Bounds.Basic
import Mathlib.Tactic.Ring

/-! # When a refusal is found

A refusal is a sentence with a limit phrase and no marker of a warning. The scan looks at one place
for each phrase, its first in the lower-cased text, cuts the sentence around it before it looks for
a marker, and lets a reader of resets raise. `Settles` is when it still stops at the first refusal:
in terms of the places of the text (`firstPlace_iff`), of the sentences around them (`around_iff`),
and of what the text says of a reset (`raises_iff`). -/

namespace Loregarden.UsageLimits

open Text Patterns List Option

variable {py : Python} {now : ℤ} {t : List Char}

/-- The sentences of a text, each with what ends it; `read` is of the first one. -/
def sentencesFrom (read : List Char) : List Char → List (List Char)
  | [] => if read = [] then [] else [read]
  | '.' :: ' ' :: rest => (read ++ ['.', ' ']) :: sentencesFrom [] rest
  | c :: rest =>
    if c = '\n' then (read ++ [c]) :: sentencesFrom [] rest else sentencesFrom (read ++ [c]) rest

def sentences (t : List Char) : List (List Char) := sentencesFrom [] t

/-- **A refusal**: it has a limit phrase or a code, and no marker. -/
def isRefusal (py : Python) (sentence : List Char) : Bool :=
  phrases.any (holds (py.lower sentence)) && !warns py sentence

def firstOf (py : Python) (t : List Char) : Option (List Char) := (sentences t).find? (isRefusal py)

/-- **A limit is returned where there is a refusal, with the first one as its quote**, and nothing
    is raised. -/
def ReturnsFirst (py : Python) (now : ℤ) (t : List Char) : Prop :=
  ∃ found, detectUsageLimit py now [t] = some found ∧
    found.map UsageLimit.quote = (firstOf py t).map shown

/-! ## Places and sentences -/

/-- A phrase first stands at that place of the lower-cased text. -/
def FirstPlace (lower : List Char) (place : ℕ) : Prop :=
  ∃ p ∈ phrases, p.toList <+: lower.drop place ∧ ∀ k < place, ¬ p.toList <+: lower.drop k

/-- A sentence opens at a newline, or at the blank behind a full stop. -/
def Opens (t : List Char) (k : ℕ) : Prop :=
  t[k]? = some '\n' ∨ (t[k]? = some ' ' ∧ ∃ j, k = j + 1 ∧ t[j]? = some '.')

/-- A sentence that reaches `place` may end before `k`, behind a newline or a full stop and a
    blank. -/
def Closes (t : List Char) (place k : ℕ) : Prop :=
  (∃ j, place ≤ j ∧ k = j + 1 ∧ t[j]? = some '\n') ∨
    ∃ j, place ≤ j ∧ k = j + 2 ∧ t[j]? = some '.' ∧ t[j + 1]? = some ' '

/-- The piece of the text around a place, from the last opening before it to the first end. -/
def Around (t : List Char) (place : ℕ) (piece : List Char) : Prop :=
  ∃ start stop, piece = (t.drop start).take (stop - start) ∧
    IsGreatest {k | k = 0 ∨ k < place ∧ Opens t k} start ∧
      IsLeast {k | k = t.length ∨ Closes t place k} stop

/-- The sentence around the place shows a marker. -/
def Warned (py : Python) (t : List Char) (place : ℕ) : Prop :=
  ∃ piece, Around t place piece ∧ warns py (shown piece) = true

/-! ## What is said of a reset -/

/-- `int` refuses that many digits. -/
def TooLong (digits : List Char) : Prop := 4300 < digits.length

/-- The number that digits write. -/
def written (py : Python) (digits : List Char) : ℕ :=
  Nat.ofDigits 10 (digits.reverse.map fun c => (py.decimal c).getD 0)

/-- A `datetime` does not reach the end of the span. -/
def Beyond (now : ℤ) (span : ℕ) : Prop := maxMoment < now + span

/-- More days than a `timedelta` holds, or a span of that many seconds that is beyond. -/
def Endless (now : ℤ) (seconds : ℕ) : Prop :=
  999999999 < seconds / 86400 ∨ Beyond now (seconds * 1000000)

section

variable (py : Python) (now : ℤ) (t : List Char)

/-- An epoch is written. -/
def SaysEpoch : Prop := (epochPattern py).search t ≠ none

/-- An epoch, of seconds or milliseconds, that no `datetime` reaches. -/
def EpochRaises : Prop :=
  ∃ found, (epochPattern py).search t = some found ∧ (TooLong (taken found .epoch) ∨
    Beyond 0 ((if 10000000000 < written py (taken found .epoch) then
      written py (taken found .epoch) / 1000 else written py (taken found .epoch)) * 1000000))

/-- A date of the calendar and a time of the day. -/
def SaysDate : Prop :=
  ∃ found month, (absolutePattern py).search t = some found ∧
    monthNumber (taken found .month) = some month ∧ 1 ≤ number py found .year ∧
      1 ≤ number py found .day ∧ number py found .day ≤ daysIn (number py found .year) month ∧
        to24h (number py found .hour) (found.lookup .ampm) < 24 ∧ number py found .minute < 60

/-- A day of a month. -/
def SaysDay : Prop :=
  ∃ found month, (datePattern py).search t = some found ∧
    monthNumber (taken found .month) = some month

/-- The digits of a wait: of milliseconds or, where there are none, of seconds. -/
inductive Waits : List Char → Bool → Prop where
  | ms {found : Captures Group Char} (hms : (retryAfterMsPattern py).search t = some found) :
      Waits (taken found .ms) true
  | seconds {found : Captures Group Char} (hms : (retryAfterMsPattern py).search t = none)
      (hseconds : (retryAfterSPattern py).search t = some found) :
      Waits (taken found .seconds) false

/-- A wait, and not one of nothing. -/
def SaysWait : Prop := ∃ digits ms, Waits py t digits ms ∧ (TooLong digits ∨ written py digits ≠ 0)

def WaitRaises : Prop :=
  ∃ digits ms, Waits py t digits ms ∧ (TooLong digits ∨ written py digits ≠ 0 ∧
    if ms then ∀ span, py.fromMs (written py digits) = some span → Beyond now span
    else Endless now (written py digits))

/-- A part of a span whose digits or unit are not read. -/
def Unread (part : Captures Group Char) : Prop :=
  TooLong (taken part .value) ∨
    spanSeconds.lookup (String.ofList (py.lower (taken part .unit))) = none

/-- The parts of the span that the text tells to wait for. -/
def Spans (parts : List (Captures Group Char)) : Prop :=
  ∃ found, relativePattern.search t = some found ∧ (spanPart py).findall (taken found .span) = parts

/-- The seconds of the parts. -/
def total (parts : List (Captures Group Char)) : ℕ :=
  (parts.map fun part => written py (taken part .value) *
    (spanSeconds.lookup (String.ofList (py.lower (taken part .unit)))).getD 0).sum

def SaysSpan : Prop :=
  ∃ parts, Spans py t parts ∧ ((∃ part ∈ parts, Unread py part) ∨ total py parts ≠ 0)

def SpanRaises : Prop :=
  ∃ parts, Spans py t parts ∧ ((∃ part ∈ parts, Unread py part) ∨
    total py parts ≠ 0 ∧ Endless now (total py parts))

/-- A time of the day. -/
def SaysClock : Prop :=
  ∃ found, (clockPattern py).search t = some found ∧
    to24h (number py found .hour) (found.lookup .ampm) < 24 ∧ number py found .minute < 60

/-- Nothing is said of a reset before a wait is. -/
def Undated : Prop := ¬ SaysEpoch py t ∧ ¬ SaysDate py t ∧ ¬ SaysDay py t

/-- **To read the reset raises**: what is read first is no moment of a `datetime`, or no number. -/
inductive Raises : Prop where
  | epoch (hraises : EpochRaises py t)
  | wait (hdates : Undated py t) (hraises : WaitRaises py now t)
  | span (hdates : Undated py t) (hwait : ¬ SaysWait py t) (hraises : SpanRaises py now t)

/-- Nothing is said of a reset. -/
def Silent : Prop := Undated py t ∧ ¬ SaysWait py t ∧ ¬ SaysSpan py t ∧ ¬ SaysClock py t

end

/-- When the scan settles on the first refusal, or passes over a text without one. -/
structure Settles (py : Python) (now : ℤ) (t : List Char) : Prop where
  /-- Without a refusal, every sentence around the first place of a phrase shows a marker. -/
  passes : firstOf py t = none → ∀ place, FirstPlace (py.lower t) place → Warned py t place
  /-- The first refusal is around the first place of a phrase, as that is looked up; around the
      first places before it there are warnings that show it. -/
  reaches : ∀ sentence ∈ firstOf py t, ∃ place piece, FirstPlace (py.lower t) place ∧
    Around t place piece ∧ shown piece = shown sentence ∧ warns py (shown sentence) = false ∧
      ∀ before < place, FirstPlace (py.lower t) before → Warned py t before
  /-- No reader raises on the refusal or, where that says nothing of a reset, on the text. -/
  quiet : ∀ sentence ∈ firstOf py t, ¬ Raises py now (shown sentence) ∧
    (Silent py (shown sentence) → ¬ Raises py now t)

/-! ## The code reads the text so -/

theorem find_eq_some_iff {p t : List Char} (hp : p ≠ []) {k : ℕ} :
    find p t = some k ↔ p <+: t.drop k ∧ ∀ j < k, ¬ p <+: t.drop j := by
  induction t generalizing k with
  | nil =>
    rw [find, if_neg hp]
    simp [hp]
  | cons c rest ih =>
    rw [find]
    by_cases hhere : p <+: c :: rest
    · rw [if_pos hhere, Option.some.injEq]
      constructor
      · rintro rfl
        exact ⟨hhere, fun j hj => absurd hj (Nat.not_lt_zero j)⟩
      · rintro ⟨-, hfirst⟩
        by_contra hne
        exact hfirst 0 (Nat.pos_of_ne_zero fun h => hne h.symm) hhere
    · rw [if_neg hhere, map_eq_some_iff]
      constructor
      · rintro ⟨m, hm, rfl⟩
        obtain ⟨hthere, hfirst⟩ := ih.mp hm
        refine ⟨hthere, fun j hj => ?_⟩
        cases j with
        | zero => exact hhere
        | succ j => exact hfirst j (Nat.lt_of_succ_lt_succ hj)
      · rintro ⟨hthere, hfirst⟩
        cases k with
        | zero => exact absurd hthere hhere
        | succ k =>
          refine ⟨k, ih.mpr ⟨hthere, fun j hj => ?_⟩, rfl⟩
          exact hfirst (j + 1) (Nat.succ_lt_succ hj)

theorem find_eq_none {p t : List Char} (hp : p ≠ []) (h : find p t = none) (k : ℕ) :
    ¬ p <+: t.drop k := by
  induction t generalizing k with
  | nil => simp [hp]
  | cons c rest ih =>
    rw [find] at h
    by_cases hhere : p <+: c :: rest
    · rw [if_pos hhere] at h
      cases h
    · rw [if_neg hhere, map_eq_none_iff] at h
      cases k with
      | zero => exact hhere
      | succ k => exact ih h k

theorem phrases_ne_nil {p : String} (hp : p ∈ phrases) : p.toList ≠ [] := by
  revert p
  decide

theorem firstPlace_iff {lower : List Char} {place : ℕ} :
    place ∈ limitIndexes lower ↔ FirstPlace lower place := by
  rw [limitIndexes, mem_insertionSort, mem_dedup, mem_filterMap, FirstPlace]
  exact exists_congr fun p => and_congr_right fun hp => find_eq_some_iff (phrases_ne_nil hp)

theorem find?_reverse_range {q : ℕ → Bool} {n k : ℕ} :
    (range n).reverse.find? q = some k ↔ k < n ∧ q k = true ∧ ∀ j < n, q j = true → j ≤ k := by
  induction n with
  | zero => simp
  | succ n ih =>
    rw [range_succ, reverse_concat]
    by_cases hq : q n = true
    · rw [List.find?_cons_of_pos hq, Option.some.injEq]
      constructor
      · rintro rfl
        exact ⟨Nat.lt_succ_self _, hq, fun j hj _ => Nat.lt_succ_iff.mp hj⟩
      · rintro ⟨hk, -, hlast⟩
        exact le_antisymm (hlast n (Nat.lt_succ_self n) hq) (Nat.lt_succ_iff.mp hk)
    · rw [List.find?_cons_of_neg hq, ih]
      constructor
      · rintro ⟨hk, hthere, hlast⟩
        refine ⟨hk.trans (Nat.lt_succ_self n), hthere, fun j hj hthere' => ?_⟩
        rcases Nat.lt_succ_iff_lt_or_eq.mp hj with hj | rfl
        · exact hlast j hj hthere'
        · exact absurd hthere' hq
      · rintro ⟨hk, hthere, hlast⟩
        have hne : k ≠ n := fun h => hq (h ▸ hthere)
        exact ⟨lt_of_le_of_ne (Nat.lt_succ_iff.mp hk) hne, hthere,
          fun j hj => hlast j (hj.trans (Nat.lt_succ_self n))⟩

section

variable {p : List Char} (hp : p ≠ []) {place : ℕ}
include hp

theorem prefix_drop_lt {s : List Char} {k : ℕ} (h : p <+: s.drop k) : k < s.length := by
  by_contra hle
  rw [drop_of_length_le (not_lt.mp hle), prefix_nil] at h
  exact hp h

/-- The last place of a text in the part before `place`, or none. -/
theorem rfindTo_isGreatest (f : ℕ → ℕ) (hf : StrictMono f) :
    IsGreatest {k | k = 0 ∨ ∃ j, k = f j ∧ p <+: (t.take place).drop j}
      (((rfindTo p t place).map f).getD 0) := by
  have hle : ∀ j, p <+: (t.take place).drop j → j < place + 1 := by
    intro j hj
    have hlt := prefix_drop_lt hp hj
    have htake := length_take_le place t
    omega
  cases hfound : rfindTo p t place with
  | none =>
    refine ⟨.inl rfl, ?_⟩
    rintro k (rfl | ⟨j, rfl, hj⟩)
    · exact le_rfl
    · rw [rfindTo, List.find?_eq_none] at hfound
      exact absurd (decide_eq_true hj) (hfound j (by simpa using hle j hj))
  | some m =>
    obtain ⟨-, hm, hlast⟩ := find?_reverse_range.mp hfound
    refine ⟨.inr ⟨m, rfl, of_decide_eq_true hm⟩, ?_⟩
    rintro k (rfl | ⟨j, rfl, hj⟩)
    · exact Nat.zero_le _
    · exact hf.monotone (hlast j (hle j hj) (decide_eq_true hj))

/-- The first place of a text from `place` on, or the end. -/
theorem findFrom_isLeast (f : ℕ → ℕ) (hf : StrictMono f)
    (hend : ∀ j, p <+: t.drop j → f j ≤ t.length) :
    IsLeast {k | k = t.length ∨ ∃ j, place ≤ j ∧ k = f j ∧ p <+: t.drop j}
      (((findFrom p t place).map f).getD t.length) := by
  have hdrop : ∀ j, place ≤ j → (t.drop place).drop (j - place) = t.drop j := by
    intro j hj
    rw [drop_drop, Nat.add_sub_cancel' hj]
  rw [findFrom]
  cases hfound : find p (t.drop place) with
  | none =>
    refine ⟨.inl rfl, ?_⟩
    rintro k (rfl | ⟨j, hj, rfl, hthere⟩)
    · exact le_rfl
    · rw [← hdrop j hj] at hthere
      exact absurd hthere (find_eq_none hp hfound _)
  | some m =>
    obtain ⟨hm, hfirst⟩ := (find_eq_some_iff hp).mp hfound
    rw [drop_drop, Nat.add_comm] at hm
    refine ⟨.inr ⟨m + place, Nat.le_add_left _ _, rfl, hm⟩, ?_⟩
    rintro k (rfl | ⟨j, hj, rfl, hthere⟩)
    · exact hend _ hm
    · refine hf.monotone ?_
      by_contra hlt
      rw [← hdrop j hj] at hthere
      exact hfirst (j - place) (by have := not_le.mp hlt; dsimp only at this; omega) hthere

end

theorem newline_prefix_iff {s : List Char} {k : ℕ} {c : Char} :
    [c] <+: s.drop k ↔ s[k]? = some c := by
  rw [← head?_drop]
  cases s.drop k with
  | nil => simp
  | cons d rest => simp [cons_prefix_iff, eq_comm]

theorem stop_prefix_iff {s : List Char} {k : ℕ} {c d : Char} :
    [c, d] <+: s.drop k ↔ s[k]? = some c ∧ s[k + 1]? = some d := by
  rw [← newline_prefix_iff, ← newline_prefix_iff, ← drop_drop]
  cases s.drop k with
  | nil => simp
  | cons e rest => simp [cons_prefix_iff, eq_comm]

theorem sentenceStart_isGreatest (t : List Char) (place : ℕ) :
    IsGreatest {k | k = 0 ∨ k < place ∧ Opens t k} (sentenceStart t place) := by
  have hnewline := @rfindTo_isGreatest t ['\n'] (by simp) place id strictMono_id
  have hstop := @rfindTo_isGreatest t ['.', ' '] (by simp) place (· + 1)
    fun _ _ => Nat.succ_lt_succ
  rw [Option.map_id] at hnewline
  have hplaces : {k | k = 0 ∨ k < place ∧ Opens t k} =
      {k | k = 0 ∨ ∃ j, k = id j ∧ ['\n'] <+: (t.take place).drop j} ∪
        {k | k = 0 ∨ ∃ j, k = j + 1 ∧ ['.', ' '] <+: (t.take place).drop j} := by
    ext k
    simp only [Set.mem_union, Set.mem_ofPred_eq, newline_prefix_iff, stop_prefix_iff, id,
      getElem?_take]
    constructor
    · rintro (rfl | ⟨hk, hnl | ⟨hblank, j, rfl, hdot⟩⟩)
      · exact .inl (.inl rfl)
      · exact .inl (.inr ⟨k, rfl, by rw [if_pos hk, hnl]⟩)
      · refine .inr (.inr ⟨j, rfl, ?_, ?_⟩)
        · rw [if_pos (Nat.lt_of_succ_lt hk), hdot]
        · rw [if_pos hk, hblank]
    · rintro ((rfl | ⟨j, rfl, hnl⟩) | (rfl | ⟨j, rfl, hdot, hblank⟩))
      · exact .inl rfl
      · split at hnl
        · rename_i hk
          exact .inr ⟨hk, .inl hnl⟩
        · cases hnl
      · exact .inl rfl
      · split at hblank
        · rename_i hk
          rw [if_pos (Nat.lt_of_succ_lt hk)] at hdot
          exact .inr ⟨hk, .inr ⟨hblank, j, rfl, hdot⟩⟩
        · cases hblank
  rw [hplaces]
  exact hnewline.union hstop

theorem sentenceEnd_isLeast (t : List Char) (place : ℕ) :
    IsLeast {k | k = t.length ∨ Closes t place k} (sentenceEnd t place) := by
  have hstop := @findFrom_isLeast t ['.', ' '] (by simp) place (· + 2)
    (fun _ _ h => Nat.add_lt_add_right h 2) fun j hj => by
      obtain ⟨rest, hrest⟩ := hj
      have hlength := congrArg List.length hrest
      simp only [length_append, length_cons, length_nil, length_drop] at hlength
      show j + 2 ≤ t.length
      omega
  have hnewline := @findFrom_isLeast t ['\n'] (by simp) place (· + 1)
    (fun _ _ => Nat.succ_lt_succ) fun j hj => prefix_drop_lt (by simp) hj
  have hplaces : {k | k = t.length ∨ Closes t place k} =
      {k | k = t.length ∨ ∃ j, place ≤ j ∧ k = j + 2 ∧ ['.', ' '] <+: t.drop j} ∪
        {k | k = t.length ∨ ∃ j, place ≤ j ∧ k = j + 1 ∧ ['\n'] <+: t.drop j} := by
    ext k
    simp only [Set.mem_union, Set.mem_ofPred_eq, newline_prefix_iff, stop_prefix_iff, Closes]
    constructor
    · rintro (hend | hnewline | hstop)
      · exact .inl (.inl hend)
      · exact .inr (.inr hnewline)
      · exact .inl (.inr hstop)
    · rintro ((hend | hstop) | hend | hnewline)
      · exact .inl hend
      · exact .inr (.inr hstop)
      · exact .inl hend
      · exact .inr (.inl hnewline)
  rw [hplaces]
  exact hstop.union hnewline

/-- **The sentence around a place**, as the code cuts it. -/
theorem around_iff {place : ℕ} {piece : List Char} : Around t place piece ↔
    piece = (t.drop (sentenceStart t place)).take
      (sentenceEnd t place - sentenceStart t place) := by
  constructor
  · rintro ⟨start, stop, rfl, hstart, hstop⟩
    rw [hstart.unique (sentenceStart_isGreatest t place),
      hstop.unique (sentenceEnd_isLeast t place)]
  · rintro rfl
    exact ⟨_, _, rfl, sentenceStart_isGreatest t place, sentenceEnd_isLeast t place⟩

theorem warned_iff {place : ℕ} :
    Warned py t place ↔ warns py (sentenceAround t place) = true := by
  constructor
  · rintro ⟨piece, hpiece, hwarns⟩
    rw [around_iff.mp hpiece] at hwarns
    exact hwarns
  · exact fun hwarns => ⟨_, around_iff.mpr rfl, hwarns⟩

/-! ### The readers of resets -/

theorem intOf_eq (py : Python) (digits : List Char) :
    intOf py digits = if 4300 < digits.length then none else some (written py digits) := by
  have hvalue : ∀ (digits : List Char) (value : ℕ),
      digits.foldl (fun value c => 10 * value + (py.decimal c).getD 0) value =
        10 ^ digits.length * value + written py digits := by
    intro digits
    induction digits with
    | nil => simp [written]
    | cons c rest ih =>
      intro value
      rw [foldl_cons, ih, written, written, reverse_cons, map_append, Nat.ofDigits_append,
        length_map, length_reverse, map_singleton, Nat.ofDigits_singleton, length_cons, pow_succ]
      ring
  rw [intOf, hvalue, Nat.mul_zero, Nat.zero_add]

theorem epochReset_eq_none : epochReset py t = none ↔ EpochRaises py t := by
  rw [epochReset, EpochRaises]
  cases (epochPattern py).search t with
  | none => simp
  | some found =>
    simp only [Option.some.injEq, exists_eq_left']
    rw [intOf_eq, TooLong]
    split
    · simp [*]
    · simp [*, fromTimestamp, Beyond]

theorem epochReset_eq_blank : epochReset py t = some none ↔ ¬ SaysEpoch py t := by
  rw [epochReset, SaysEpoch, not_ne_iff]
  cases (epochPattern py).search t with
  | none => simp
  | some found =>
    simp only [reduceCtorEq, iff_false]
    intro hread
    obtain ⟨value, -, hvalue⟩ := bind_eq_some_iff.mp hread
    obtain ⟨moment, -, hmoment⟩ := map_eq_some_iff.mp hvalue
    cases hmoment

theorem absoluteReset_eq_blank : absoluteReset py t = some none ↔ ¬ SaysDate py t := by
  rw [absoluteReset, SaysDate, Option.some.injEq]
  cases (absolutePattern py).search t with
  | none => simp
  | some found =>
    cases hmonth : monthNumber (taken found .month) with
    | none => simp [hmonth]
    | some month => simp [hmonth]

theorem dateReset_eq_blank : dateReset py t = some none ↔ ¬ SaysDay py t := by
  rw [dateReset, SaysDay, Option.some.injEq]
  cases (datePattern py).search t with
  | none => simp
  | some found => simp [Option.eq_none_iff_forall_ne_some]

theorem clockReset_eq_blank : clockReset py t = some none ↔ ¬ SaysClock py t := by
  rw [clockReset, SaysClock, Option.some.injEq]
  cases (clockPattern py).search t with
  | none => simp
  | some found => simp

theorem later_eq_none {span : ℕ} : later now span = none ↔ Beyond now span := by
  rw [later, Beyond]
  split <;> simp_all

theorem timedelta_eq_none {seconds : ℕ} :
    timedelta seconds = none ↔ 999999999 < seconds / 86400 := by
  rw [timedelta]
  split <;> simp_all

theorem wait_cases : (∃ digits ms, Waits py t digits ms ∧
      retryAfterSpan py t = (intOf py digits).bind fun value =>
        if value = 0 then some none
        else if ms then (py.fromMs value).map some else (timedelta value).map some) ∨
    (∀ digits ms, ¬ Waits py t digits ms) ∧ retryAfterSpan py t = some none := by
  rw [retryAfterSpan]
  cases hms : (retryAfterMsPattern py).search t with
  | some found => exact .inl ⟨_, true, .ms hms, rfl⟩
  | none =>
    cases hseconds : (retryAfterSPattern py).search t with
    | some found => exact .inl ⟨_, false, .seconds hms hseconds, rfl⟩
    | none =>
      refine .inr ⟨fun digits ms hwaits => ?_, rfl⟩
      cases hwaits with
      | ms h =>
        rw [hms] at h
        cases h
      | seconds _ h =>
        rw [hseconds] at h
        cases h

theorem Waits.unique {digits digits' : List Char} {ms ms' : Bool} (h : Waits py t digits ms)
    (h' : Waits py t digits' ms') : digits = digits' ∧ ms = ms' := by
  cases h with
  | ms hms =>
    cases h' with
    | ms hms' =>
      obtain rfl := Option.some.inj (hms.symm.trans hms')
      exact ⟨rfl, rfl⟩
    | seconds hnone =>
      rw [hms] at hnone
      cases hnone
  | seconds hnone hseconds =>
    cases h' with
    | ms hms =>
      rw [hms] at hnone
      cases hnone
    | seconds _ hseconds' =>
      obtain rfl := Option.some.inj (hseconds.symm.trans hseconds')
      exact ⟨rfl, rfl⟩

theorem retryAfterReset_eq_none : retryAfterReset py now t = none ↔ WaitRaises py now t := by
  rw [retryAfterReset, WaitRaises]
  rcases wait_cases with ⟨digits, ms, hwaits, hspan⟩ | ⟨hnone, hspan⟩
  · have hsame : ∀ raises : List Char → Bool → Prop,
        (∃ digits ms, Waits py t digits ms ∧ raises digits ms) ↔ raises digits ms := by
      intro raises
      constructor
      · rintro ⟨digits', ms', hwaits', hraises⟩
        obtain ⟨rfl, rfl⟩ := hwaits.unique hwaits'
        exact hraises
      · exact fun hraises => ⟨digits, ms, hwaits, hraises⟩
    rw [hsame, hspan, intOf_eq, TooLong]
    split
    · simp [*]
    · rename_i hshort
      by_cases hzero : written py digits = 0
      · simp [hshort, hzero]
      · cases ms with
        | true =>
          cases hms : py.fromMs (written py digits) <;> simp [hshort, hzero, hms, later_eq_none]
        | false =>
          cases hdelta : timedelta (written py digits) with
          | none => simp [hshort, hzero, hdelta, Endless, timedelta_eq_none.mp hdelta]
          | some span =>
            have hdays := mt timedelta_eq_none.mpr (by rw [hdelta]; exact some_ne_none _)
            have hspan : span = written py digits * 1000000 := by
              rw [timedelta, if_pos (not_lt.mp hdays)] at hdelta
              exact (Option.some.inj hdelta).symm
            simp [hshort, hzero, hdelta, Endless, hdays, hspan, later_eq_none]
  · rw [hspan]
    simp [hnone]

theorem retryAfterReset_eq_blank : retryAfterReset py now t = some none ↔ ¬ SaysWait py t := by
  have hspan : retryAfterReset py now t = some none ↔ retryAfterSpan py t = some none := by
    rw [retryAfterReset]
    cases retryAfterSpan py t with
    | none => simp
    | some span =>
      cases span with
      | none => simp
      | some span => cases hlater : later now span <;> simp [hlater]
  rw [hspan, SaysWait]
  rcases wait_cases with ⟨digits, ms, hwaits, hspan⟩ | ⟨hnone, hspan⟩
  · have hsame : (∃ digits ms, Waits py t digits ms ∧ (TooLong digits ∨ written py digits ≠ 0)) ↔
        TooLong digits ∨ written py digits ≠ 0 := by
      constructor
      · rintro ⟨digits', ms', hwaits', htext⟩
        obtain ⟨rfl, rfl⟩ := hwaits.unique hwaits'
        exact htext
      · exact fun htext => ⟨digits, ms, hwaits, htext⟩
    rw [hsame, hspan, intOf_eq, TooLong]
    split
    · simp [*]
    · rename_i hshort
      by_cases hzero : written py digits = 0
      · simp [hshort, hzero]
      · cases ms with
        | true | false => simp [hshort, hzero]
  · rw [hspan]
    simp [hnone]

/-- The seconds of a part that is read. -/
theorem partSeconds_cases (part : Captures Group Char) :
    (Unread py part ∧ partSeconds py part = none) ∨
      (¬ Unread py part ∧ partSeconds py part = some (written py (taken part .value) *
        (spanSeconds.lookup (String.ofList (py.lower (taken part .unit)))).getD 0)) := by
  rw [Unread, TooLong, partSeconds, intOf_eq]
  split
  · simp [*]
  · cases hunit : spanSeconds.lookup (String.ofList (py.lower (taken part .unit))) with
    | none => simp
    | some unit => simp [*]

theorem parts_cases (parts : List (Captures Group Char)) :
    ((∃ part ∈ parts, Unread py part) ∧ parts.mapM (partSeconds py) = none) ∨
      ((∀ part ∈ parts, ¬ Unread py part) ∧ ∃ values, parts.mapM (partSeconds py) = some values ∧
        values.sum = total py parts) := by
  induction parts with
  | nil => exact .inr ⟨forall_mem_nil _, [], rfl, rfl⟩
  | cons part parts ih =>
    rw [mapM_cons]
    rcases partSeconds_cases part with ⟨hunread, hpart⟩ | ⟨hread, hpart⟩
    · rw [hpart]
      exact .inl ⟨⟨part, mem_cons_self, hunread⟩, rfl⟩
    · rw [hpart]
      rcases ih with ⟨⟨other, hother, hunread⟩, hparts⟩ | ⟨hall, values, hparts, hsum⟩
      · rw [hparts]
        exact .inl ⟨⟨other, mem_cons_of_mem part hother, hunread⟩, rfl⟩
      · rw [hparts]
        refine .inr ⟨forall_mem_cons.mpr ⟨hread, hall⟩, _, rfl, ?_⟩
        rw [sum_cons, hsum, total, total, map_cons, sum_cons]

theorem parseSpan_eq {span : List Char} {parts : List (Captures Group Char)}
    (hparts : (spanPart py).findall span = parts) :
    (parseSpan py span = some none ↔
      ¬ ((∃ part ∈ parts, Unread py part) ∨ total py parts ≠ 0)) ∧
    ((parseSpan py span).bind (fun span : Option ℕ => span.elim (some ()) fun span =>
        (later now span).map fun _ => ()) = none ↔
      (∃ part ∈ parts, Unread py part) ∨ total py parts ≠ 0 ∧ Endless now (total py parts)) := by
  rw [parseSpan, hparts]
  rcases @parts_cases py parts with ⟨hunread, hnone⟩ | ⟨hread, values, hvalues, hsum⟩
  · simp [hnone, hunread]
  · have hall : ¬ ∃ part ∈ parts, Unread py part := fun ⟨part, hpart, h⟩ => hread part hpart h
    simp only [hvalues, hall, false_or, hsum, Option.bind_some]
    by_cases hzero : total py parts = 0
    · simp [hzero]
    · cases hdelta : timedelta (total py parts) with
      | none => simp [hzero, Endless, timedelta_eq_none.mp hdelta]
      | some span =>
        have hdays := mt timedelta_eq_none.mpr (by rw [hdelta]; exact some_ne_none _)
        have hspan : span = total py parts * 1000000 := by
          rw [timedelta, if_pos (not_lt.mp hdays)] at hdelta
          exact (Option.some.inj hdelta).symm
        simp [hzero, Endless, hdays, hspan, later_eq_none]

theorem relativeReset_eq_blank : relativeReset py now t = some none ↔ ¬ SaysSpan py t := by
  rw [relativeReset, SaysSpan]
  simp only [Spans]
  cases relativePattern.search t with
  | none => simp
  | some found =>
    simp only [Option.some.injEq, exists_eq_left']
    rw [← (@parseSpan_eq py now _ _ rfl).1]
    cases parseSpan py (taken found .span) with
    | none => simp
    | some span =>
      cases span with
      | none => simp
      | some span => cases hlater : later now span <;> simp [hlater]

theorem relativeReset_eq_none : relativeReset py now t = none ↔ SpanRaises py now t := by
  rw [relativeReset, SpanRaises]
  simp only [Spans]
  cases relativePattern.search t with
  | none => simp
  | some found =>
    simp only [Option.some.injEq, exists_eq_left']
    rw [← (@parseSpan_eq py now _ _ rfl).2]
    cases parseSpan py (taken found .span) with
    | none => simp
    | some span =>
      cases span with
      | none => simp
      | some span => cases hlater : later now span <;> simp [hlater]

theorem firstRead_nil : firstRead [] = some none := rfl

theorem firstRead_cons_eq_none {reading : Reading} {rest : List Reading} :
    firstRead (reading :: rest) = none ↔
      reading = none ∨ reading = some none ∧ firstRead rest = none := by
  rcases reading with _ | _ | reset <;> simp [firstRead]

theorem firstRead_cons_eq_blank {reading : Reading} {rest : List Reading} :
    firstRead (reading :: rest) = some none ↔
      reading = some none ∧ firstRead rest = some none := by
  rcases reading with _ | _ | reset <;> simp [firstRead]

/-- **What is read first** of a text raises, or nothing is read. -/
theorem raises_iff : resolveReset py now t = none ↔ Raises py now t := by
  simp only [resolveReset, firstRead_cons_eq_none, epochReset_eq_none, epochReset_eq_blank,
    absoluteReset_eq_blank, dateReset_eq_blank, retryAfterReset_eq_none, retryAfterReset_eq_blank,
    relativeReset_eq_none]
  have habsolute : absoluteReset py t ≠ none := some_ne_none _
  have hdate : dateReset py t ≠ none := some_ne_none _
  have hclock : clockReset py t ≠ none := some_ne_none _
  simp only [habsolute, hdate, hclock, false_or, firstRead]
  constructor
  · rintro (hepoch | ⟨hepoch, hdate, hday, hwait | ⟨hwait, hspan | h⟩⟩)
    · exact .epoch hepoch
    · exact .wait ⟨hepoch, hdate, hday⟩ hwait
    · exact .span ⟨hepoch, hdate, hday⟩ hwait hspan
    · simp at h
  · rintro (hepoch | ⟨⟨hepoch, hdate, hday⟩, hwait⟩ | ⟨⟨hepoch, hdate, hday⟩, hwait, hspan⟩)
    · exact .inl hepoch
    · exact .inr ⟨hepoch, hdate, hday, .inl hwait⟩
    · exact .inr ⟨hepoch, hdate, hday, .inr ⟨hwait, .inl hspan⟩⟩

theorem silent_iff : resolveReset py now t = some none ↔ Silent py t := by
  simp only [resolveReset, firstRead_cons_eq_blank, epochReset_eq_blank, absoluteReset_eq_blank,
    dateReset_eq_blank, retryAfterReset_eq_blank, relativeReset_eq_blank, clockReset_eq_blank,
    firstRead_nil, Silent, Undated]
  tauto

/-- A reset is read of the sentence, or of the text where the sentence says nothing. -/
theorem resetOf_eq_none {sentence : List Char} : resetOf py now t sentence = none ↔
    Raises py now sentence ∨ Silent py sentence ∧ Raises py now t := by
  rw [resetOf, ← raises_iff, ← raises_iff, ← @silent_iff py now]
  cases resolveReset py now sentence with
  | none => simp
  | some reset => cases reset <;> simp

/-! ## The scan -/

def stopsAt (py : Python) (t : List Char) : Option ℕ :=
  (limitIndexes (py.lower t)).find? fun index => !warns py (sentenceAround t index)

def outcomeAt (py : Python) (now : ℤ) (t : List Char) : Option ℕ → Option (Option UsageLimit)
  | none => some none
  | some index => (refusal py now t (sentenceAround t index)).map some

theorem refusalAmong_eq (indexes : List ℕ) : refusalAmong py now t indexes =
      outcomeAt py now t (indexes.find? fun index => !warns py (sentenceAround t index)) := by
  induction indexes with
  | nil => rfl
  | cons index rest ih =>
    rw [refusalAmong]
    by_cases hwarns : warns py (sentenceAround t index) = true
    · rw [if_pos hwarns, ih, List.find?_cons_of_neg (by simp [hwarns])]
    · rw [if_neg hwarns, List.find?_cons_of_pos (by simp [hwarns])]
      rfl

theorem limitIndexes_nil : limitIndexes (py.lower []) = [] := by
  rw [py.lower_nil]
  decide

theorem detect_eq : detectUsageLimit py now [t] = outcomeAt py now t (stopsAt py t) := by
  rw [detectUsageLimit]
  by_cases hempty : t = []
  · rw [if_pos hempty, hempty, stopsAt, limitIndexes_nil]
    rfl
  · rw [if_neg hempty, firstRefusal, refusalAmong_eq]
    cases hfound : outcomeAt py now t (stopsAt py t) with
    | none =>
      rw [stopsAt] at hfound
      rw [hfound]
    | some found =>
      rw [stopsAt] at hfound
      rw [hfound]
      cases found <;> rfl

theorem limitIndexes_pairwise (lower : List Char) :
    (limitIndexes lower).Pairwise fun i j => i < j := by
  have hsorted := pairwise_insertionSort (fun i j : ℕ => i ≤ j)
    (phrases.filterMap fun p => find p.toList lower).dedup
  have hnodup : (limitIndexes lower).Nodup := (perm_insertionSort _ _).nodup_iff.mpr (nodup_dedup _)
  exact hsorted.imp₂ (fun i j hle hne => lt_of_le_of_ne hle hne) hnodup

/-- **Where the scan stops**: at a sentence that shows no marker, those before it showing one. -/
theorem stopsAt_eq_some {index : ℕ} : stopsAt py t = some index ↔
      index ∈ limitIndexes (py.lower t) ∧ warns py (sentenceAround t index) = false ∧
        ∀ before ∈ limitIndexes (py.lower t), before < index →
          warns py (sentenceAround t before) = true := by
  rw [stopsAt, List.find?_eq_some_iff_append]
  have hordered := limitIndexes_pairwise (py.lower t)
  constructor
  · rintro ⟨hshows, front, back, hsplit, hfront⟩
    rw [hsplit, pairwise_append, pairwise_cons] at hordered
    refine ⟨by rw [hsplit]; simp, by simpa using hshows, ?_⟩
    intro before hbefore hlt
    rw [hsplit] at hbefore
    rcases mem_append.mp hbefore with hbefore | hbefore
    · simpa using hfront before hbefore
    · rcases mem_cons.mp hbefore with rfl | hbehind
      · exact absurd hlt (lt_irrefl _)
      · exact absurd hlt (not_lt.mpr (hordered.2.1.1 before hbehind).le)
  · rintro ⟨hmem, hshows, hbefore⟩
    obtain ⟨front, back, hsplit⟩ := append_of_mem hmem
    refine ⟨by simpa using hshows, front, back, hsplit, ?_⟩
    intro before hfront
    rw [hsplit, pairwise_append] at hordered
    have hlt := hordered.2.2 before hfront index mem_cons_self
    simpa using hbefore before (by rw [hsplit]; exact mem_append_left _ hfront) hlt

theorem stopsAt_eq_none : stopsAt py t = none ↔
      ∀ index ∈ limitIndexes (py.lower t), warns py (sentenceAround t index) = true := by
  rw [stopsAt, List.find?_eq_none]
  simp

/-- **A limit is returned with the first refusal exactly where the scan settles on it.** -/
theorem returns_first_iff (py : Python) (now : ℤ) (t : List Char) :
    ReturnsFirst py now t ↔ Settles py now t := by
  rw [ReturnsFirst, detect_eq]
  cases hstops : stopsAt py t with
  | none =>
    have hall := stopsAt_eq_none.mp hstops
    constructor
    · rintro ⟨found, hfound, hquote⟩
      obtain rfl : none = found := some.inj hfound
      have hnone : firstOf py t = none := map_eq_none_iff.mp hquote.symm
      refine ⟨fun _ place hplace => warned_iff.mpr (hall place (firstPlace_iff.mpr hplace)), ?_, ?_⟩
      · intro sentence hsentence
        rw [hnone] at hsentence
        cases hsentence
      · intro sentence hsentence
        rw [hnone] at hsentence
        cases hsentence
    · intro hsettles
      cases hfirst : firstOf py t with
      | none => exact ⟨none, rfl, rfl⟩
      | some sentence =>
        obtain ⟨place, piece, hplace, hpiece, heq, hshows, -⟩ := hsettles.reaches sentence hfirst
        have hwarns := hall place (firstPlace_iff.mpr hplace)
        rw [sentenceAround, ← around_iff.mp hpiece, heq, hshows] at hwarns
        cases hwarns
  | some index =>
    obtain ⟨hmem, hshows, hbefore⟩ := stopsAt_eq_some.mp hstops
    constructor
    · rintro ⟨found, hfound, hquote⟩
      rw [outcomeAt] at hfound
      obtain ⟨limit, hlimit, rfl⟩ := map_eq_some_iff.mp hfound
      rw [refusal] at hlimit
      obtain ⟨reset, hreset, hquoted⟩ := map_eq_some_iff.mp hlimit
      have hshown : limit.quote = sentenceAround t index := by
        rw [← hquoted]
      obtain ⟨sentence, hfirst, heq⟩ := map_eq_some_iff.mp hquote.symm
      rw [hshown] at heq
      refine ⟨fun hnone => ?_, ?_, ?_⟩
      · rw [hfirst] at hnone
        cases hnone
      · intro other hother
        obtain rfl : sentence = other := some.inj (hfirst.symm.trans hother)
        refine ⟨index, _, firstPlace_iff.mp hmem, around_iff.mpr rfl, heq.symm, ?_, ?_⟩
        · rw [heq]
          exact hshows
        · exact fun before hlt hplace =>
            warned_iff.mpr (hbefore before (firstPlace_iff.mpr hplace) hlt)
      · intro other hother
        obtain rfl : sentence = other := some.inj (hfirst.symm.trans hother)
        have hquiet : ¬ (Raises py now (shown sentence) ∨
            Silent py (shown sentence) ∧ Raises py now t) := by
          rw [← resetOf_eq_none, heq, hreset]
          exact some_ne_none _
        rw [not_or, not_and] at hquiet
        exact hquiet
    · intro hsettles
      cases hfirst : firstOf py t with
      | none =>
        have hwarns := warned_iff.mp (hsettles.passes hfirst index (firstPlace_iff.mp hmem))
        rw [hshows] at hwarns
        cases hwarns
      | some sentence =>
        obtain ⟨place, piece, hplace, hpiece, heq, hrefuses, hwarned⟩ :=
          hsettles.reaches sentence hfirst
        rw [around_iff.mp hpiece, ← sentenceAround] at heq
        rw [← heq] at hrefuses
        have hsame : stopsAt py t = some place :=
          stopsAt_eq_some.mpr ⟨firstPlace_iff.mpr hplace, hrefuses, fun before hmem hlt =>
            warned_iff.mp (hwarned before hlt (firstPlace_iff.mp hmem))⟩
        obtain rfl : index = place := some.inj (hstops.symm.trans hsame)
        cases hreset : resetOf py now t (shown sentence) with
        | none =>
          obtain ⟨hquiet, htext⟩ := hsettles.quiet sentence hfirst
          rcases resetOf_eq_none.mp hreset with hraises | ⟨hsilent, hraises⟩
          · exact absurd hraises hquiet
          · exact absurd hraises (htext hsilent)
        | some reset =>
          rw [outcomeAt, heq, refusal, hreset]
          exact ⟨_, rfl, rfl⟩

def asciiPython : Python where
  lower := List.map Char.toLower
  lower_nil := rfl
  decimal := fun c => if c.isDigit then some (c.toNat - '0'.toNat) else none
  fromMs := fun ms => some (ms * 1000)
  roundMinutes := fun span => (span + 30000000) / 60000000

def warnedThenRefused : List Char := "Approaching usage limit\nusage limit\n".toList

/-- The refusal repeats the phrase of the warning, and is missed. -/
theorem refusal_missed_behind_warning :
    ¬ ∀ (py : Python) (now : ℤ) (t : List Char), ReturnsFirst py now t := by
  intro hclaim
  obtain ⟨found, hfound, hquote⟩ := hclaim asciiPython 0 warnedThenRefused
  have hnone : stopsAt asciiPython warnedThenRefused = none := by decide +kernel
  have hfirst : firstOf asciiPython warnedThenRefused = some "usage limit\n".toList := by
    decide +kernel
  rw [detect_eq, hnone] at hfound
  rw [← some.inj hfound, hfirst] at hquote
  cases hquote

end Loregarden.UsageLimits
