import Loregarden.StageReportModel
import Mathlib.Data.Prod.Lex
import Mathlib.Data.Finset.Max

/-! # Which report block is the last

A report block of the output, or of a string in one of its stream-json lines, is at a place of the
output (`Block.place`), and the last report is the one at the last place (`IsLast`). The parser sees
a block only where no opener before it reaches over it and no closer is within it, and only in lines
that spell the sentinel (`IsSeen`); and it takes the blocks of all lines for later than those of the
output itself (`IsTaken`). What it returns is the report of the block it takes, which need not be
the last. -/

namespace Loregarden.AgentOutput

open Text BlockScan List

variable {py : Library} {stdout : List Char}

/-- The lines of a text with their offsets; `line` is read already. -/
def linesAtFrom (start : ℕ) (line : List Char) : List Char → List (ℕ × List Char)
  | [] => if line.isEmpty then [] else [(start, line)]
  | '\r' :: '\n' :: rest => (start, line) :: linesAtFrom (start + line.length + 2) [] rest
  | c :: rest =>
    if isLineBreak c then (start, line) :: linesAtFrom (start + line.length + 1) [] rest
    else linesAtFrom start (line ++ [c]) rest

/-- `str.splitlines`, with the offset of each line. -/
def linesAt (t : List Char) : List (ℕ × List Char) := linesAtFrom 0 [] t

structure Source where
  /-- Where the line of the text starts; the output itself is of no line. -/
  line : Option ℕ := none
  /-- Whether the line spells the sentinel. -/
  searched : Bool := true
  text : List Char
  deriving DecidableEq

/-- The strings of a line, if it is a stream-json line. -/
def lineSources (py : Library) (line : ℕ × List Char) : List Source :=
  let text := strip isSpace line.2
  if text.head? = some '{' then
    match py.loads text with
    | .data data =>
      (embeddedStrings data).map fun s => ⟨some line.1, decide (sentinel <:+: text), s⟩
    | _ => []
  else []

/-- The output, and the strings of its stream-json lines. -/
def sources (py : Library) (stdout : List Char) : List Source :=
  { text := stdout } :: (linesAt stdout).flatMap (lineSources py)

/-! ## Blocks -/

/-- An opener, a payload between braces, and a closer. -/
def IsBlock (t : List Char) (found : Found) : Prop :=
  ∃ n m, opens (t.drop found.start) = some n ∧ found.inside = found.start + n ∧
    found.inside < found.close ∧ closes (t.drop found.close) = some m ∧ found.stop = found.close + m

structure Block where
  index : ℕ
  source : Source
  found : Found
  deriving DecidableEq

namespace Block

variable (b : Block)

def report (py : Library) : Option StageReport := buildReport py (payloadOf b.source.text b.found)

/-- **Its place in the output**: that of its opener, or of the line it is in. -/
def place : ℕ ×ₗ ℕ ×ₗ ℕ :=
  match b.source.line with
  | none => toLex (b.found.start, toLex (0, 0))
  | some line => toLex (line, toLex (b.index, b.found.start))

/-- Its place among the matches: behind all of the texts before. -/
def matchPlace : ℕ ×ₗ ℕ := toLex (b.index, b.found.start)

end Block

/-- The object is one `model_validate_json` takes, and its status is known. -/
def StatusKnown (py : Library) (payload : List Char) : Prop :=
  ∃ parsed text, py.report payload = some parsed ∧ parsed.status = some text ∧
    text ∈ ["pass".toList, "fail".toList, "needs_rework".toList, "blocked".toList]

/-- A line within a report of the output is part of that report. -/
def WithinReport (py : Library) (stdout : List Char) (line : ℕ) : Prop :=
  ∃ found, IsBlock stdout found ∧ StatusKnown py (payloadOf stdout found) ∧
    found.start < line ∧ line < found.stop

/-- A report block of the output: its object is a valid report with a known status. -/
structure IsReport (py : Library) (stdout : List Char) (b : Block) : Prop where
  source : (sources py stdout)[b.index]? = some b.source
  block : IsBlock b.source.text b.found
  valid : StatusKnown py (payloadOf b.source.text b.found)
  own : ∀ line ∈ b.source.line, ¬ WithinReport py stdout line

/-- **The last report block**, in output order. -/
def IsLast (py : Library) (stdout : List Char) (b : Block) : Prop :=
  IsReport py stdout b ∧ ∀ other, IsReport py stdout other → other.place ≤ b.place

structure IsSeen (py : Library) (stdout : List Char) (b : Block) : Prop where
  source : (sources py stdout)[b.index]? = some b.source
  searched : b.source.searched = true
  seen : sentinelRe.Seen b.source.text b.found
  valid : StatusKnown py (payloadOf b.source.text b.found)

/-- **The report block the parser takes**: the last it sees, those of all lines being later than
    those of the output itself. -/
def IsTaken (py : Library) (stdout : List Char) (b : Block) : Prop :=
  IsSeen py stdout b ∧ ∀ other, IsSeen py stdout other → other.matchPlace ≤ b.matchPlace

/-- A line that spells the sentinel makes `json.loads` raise what is not caught. -/
def Raises (py : Library) (stdout : List Char) : Prop :=
  ∃ line ∈ splitLines stdout, (strip isSpace line).head? = some '{' ∧
    sentinel <:+: strip isSpace line ∧ py.loads (strip isSpace line) = .raised

/-- **The parser returns the report of the last report block**, and none only if there is none. -/
def ReturnsLast (py : Library) (stdout : List Char) : Prop :=
  (∃ b, IsLast py stdout b ∧ parseStageReport py stdout = some (b.report py)) ∨
    (∀ b, ¬ IsReport py stdout b) ∧ parseStageReport py stdout = some none

/-- A block is a report where the code makes one of its payload. -/
theorem statusKnown_iff {payload : List Char} :
    StatusKnown py payload ↔ (buildReport py payload).isSome := by
  have htext : ∀ text : List Char, (Status.ofText text).isSome ↔
      text ∈ ["pass".toList, "fail".toList, "needs_rework".toList, "blocked".toList] := by
    intro text
    rw [Status.ofText]
    simp only [mem_cons, not_mem_nil, or_false]
    split_ifs <;> grind
  rw [buildReport, StatusKnown]
  cases py.report payload with
  | none => simp
  | some parsed =>
    cases hstatus : parsed.status with
    | none => simp [hstatus]
    | some text => simp [hstatus, htext]

/-! ## Lines -/

theorem map_snd_linesAtFrom (start : ℕ) (line t : List Char) :
    (linesAtFrom start line t).map Prod.snd = linesFrom line t := by
  fun_induction linesAtFrom start line t with
  | case1 start line h => rw [linesFrom, if_pos h]; rfl
  | case2 start line h => rw [linesFrom, if_neg h]; rfl
  | case3 start line rest ih => rw [map_cons, ih, linesFrom]
  | case4 start line c rest hnot hbreak ih =>
    rw [map_cons, ih, linesFrom, if_pos hbreak]
    exact hnot
  | case5 start line c rest hnot hbreak ih =>
    rw [ih, linesFrom, if_neg hbreak]
    exact hnot

theorem map_snd_linesAt (t : List Char) : (linesAt t).map Prod.snd = splitLines t :=
  map_snd_linesAtFrom 0 [] t

theorem isInfix_of_mem_linesFrom {line t piece : List Char} (h : piece ∈ linesFrom line t) :
    piece <:+: line ++ t := by
  fun_induction linesFrom line t with
  | case1 line hempty => cases h
  | case2 line hempty =>
    rw [mem_singleton.mp h]
    exact (prefix_append _ _).isInfix
  | case3 line rest ih =>
    rcases mem_cons.mp h with rfl | h
    · exact (prefix_append _ _).isInfix
    · have hrest : piece <:+: rest := ih h
      exact hrest.trans ((suffix_append ['\r', '\n'] rest).trans
        (suffix_append line _)).isInfix
  | case4 line c rest hnot hbreak ih =>
    rcases mem_cons.mp h with rfl | h
    · exact (prefix_append _ _).isInfix
    · have hrest : piece <:+: rest := ih h
      exact hrest.trans ((suffix_cons c rest).trans (suffix_append line _)).isInfix
  | case5 line c rest hnot hbreak ih =>
    have hrest := ih h
    rwa [append_assoc] at hrest

theorem sentinel_of_line {line : List Char} (hline : line ∈ splitLines stdout)
    (h : sentinel <:+: strip isSpace line) : sentinel <:+: stdout :=
  (h.trans (strip_isInfix isSpace line)).trans (isInfix_of_mem_linesFrom hline)

theorem lineTexts_eq {line : ℕ × List Char}
    (h : ¬ ((strip isSpace line.2).head? = some '{' ∧ sentinel <:+: strip isSpace line.2 ∧
      py.loads (strip isSpace line.2) = .raised)) :
    lineTexts py line.2 =
      some (((lineSources py line).filter Source.searched).map Source.text) := by
  rw [lineTexts, lineSources]
  obtain ⟨text, htext⟩ : ∃ text, text = strip isSpace line.2 := ⟨_, rfl⟩
  rw [← htext] at h ⊢
  by_cases hbrace : text.head? = some '{'
  · rw [if_pos hbrace]
    by_cases hspelled : sentinel <:+: text
    · rw [if_pos ⟨hbrace, hspelled⟩]
      cases hload : py.loads text with
      | data data =>
        rw [filter_eq_self.mpr, map_map]
        · exact congrArg some (map_id _).symm
        · intro source hsource
          obtain ⟨s, -, rfl⟩ := mem_map.mp hsource
          exact decide_eq_true hspelled
      | decodeError => rfl
      | raised => exact absurd ⟨hbrace, hspelled, hload⟩ h
    · rw [if_neg fun hboth => hspelled hboth.2]
      cases hload : py.loads text with
      | data data =>
        rw [filter_eq_nil_iff.mpr]
        · rfl
        · intro source hsource
          obtain ⟨s, -, rfl⟩ := mem_map.mp hsource
          simpa using hspelled
      | decodeError | raised => rfl
  · rw [if_neg hbrace, if_neg fun hboth => hbrace hboth.1]
    rfl

def searchedTexts (py : Library) (stdout : List Char) : List (List Char) :=
  ((sources py stdout).filter Source.searched).map Source.text

theorem candidateTexts_eq (h : ¬ Raises py stdout) :
    candidateTexts py stdout = some (searchedTexts py stdout) := by
  have hlines : ∀ lines : List (ℕ × List Char), (∀ line ∈ lines, line ∈ linesAt stdout) →
      (lines.map Prod.snd).mapM (lineTexts py) = some (lines.map fun line =>
        ((lineSources py line).filter Source.searched).map Source.text) := by
    intro lines hmem
    induction lines with
    | nil => rfl
    | cons line rest ih =>
      have hline : line.2 ∈ splitLines stdout := by
        rw [← map_snd_linesAt]
        exact mem_map_of_mem (hmem line mem_cons_self)
      rw [map_cons, mapM_cons, lineTexts_eq fun hraises => h ⟨line.2, hline, hraises⟩,
        ih fun other hother => hmem other (mem_cons_of_mem _ hother)]
      rfl
  rw [candidateTexts, ← map_snd_linesAt, hlines _ fun _ hline => hline, searchedTexts, sources,
    filter_cons_of_pos rfl, filter_flatMap, map_cons, map_flatMap,
    flatMap_def]
  rfl

theorem candidateTexts_none (h : Raises py stdout) : candidateTexts py stdout = none := by
  obtain ⟨line, hline, hbrace, hspelled, hload⟩ := h
  have hraised : lineTexts py line = none := by
    rw [lineTexts, if_pos ⟨hbrace, hspelled⟩, hload]
  have hnone : ∀ lines : List (List Char), line ∈ lines → lines.mapM (lineTexts py) = none := by
    intro lines hmem
    induction lines with
    | nil => cases hmem
    | cons first rest ih =>
      rw [mapM_cons]
      rcases mem_cons.mp hmem with rfl | hmem
      · rw [hraised]
        rfl
      · rw [ih hmem]
        cases lineTexts py first <;> rfl
  rw [candidateTexts, hnone _ hline]
  rfl

def blocksOf (source : Source × ℕ) : List Block :=
  (sentinelRe.scan source.1.text).map fun found => ⟨source.2, source.1, found⟩

def matchedBlocks (py : Library) (stdout : List Char) : List Block :=
  ((sources py stdout).zipIdx.filter fun source => source.1.searched).flatMap blocksOf

theorem mem_matchedBlocks {b : Block} : b ∈ matchedBlocks py stdout ↔
      (sources py stdout)[b.index]? = some b.source ∧ b.source.searched = true ∧
        sentinelRe.Seen b.source.text b.found := by
  rw [matchedBlocks, mem_flatMap]
  constructor
  · rintro ⟨⟨source, index⟩, hsource, hb⟩
    obtain ⟨hmem, hsearched⟩ := mem_filter.mp hsource
    obtain ⟨found, hfound, rfl⟩ := mem_map.mp hb
    exact ⟨mk_mem_zipIdx_iff_getElem?.mp hmem, hsearched, Delimiters.mem_scan.mp hfound⟩
  · rintro ⟨hsource, hsearched, hseen⟩
    exact ⟨(b.source, b.index), mem_filter.mpr ⟨mk_mem_zipIdx_iff_getElem?.mpr hsource, hsearched⟩,
      mem_map.mpr ⟨b.found, Delimiters.mem_scan.mpr hseen, rfl⟩⟩

theorem isSeen_iff {b : Block} :
    IsSeen py stdout b ↔ b ∈ matchedBlocks py stdout ∧ (b.report py).isSome := by
  rw [mem_matchedBlocks]
  exact ⟨fun h => ⟨⟨h.source, h.searched, h.seen⟩, statusKnown_iff.mp h.valid⟩,
    fun h => ⟨h.1.1, h.1.2.1, h.1.2.2, statusKnown_iff.mpr h.2⟩⟩

theorem payloads_matchedBlocks :
    (matchedBlocks py stdout).map (fun b => payloadOf b.source.text b.found) =
      (searchedTexts py stdout).flatMap findall := by
  have hblocks : ∀ source : Source × ℕ,
      (blocksOf source).map (fun b => payloadOf b.source.text b.found) = findall source.1.text := by
    intro source
    rw [blocksOf, map_map]
    rfl
  have hindexed : ∀ (l : List Source) (k : ℕ),
      ((l.zipIdx k).filter fun source => source.1.searched).flatMap
          (fun source => findall source.1.text) =
        ((l.filter Source.searched).map Source.text).flatMap findall := by
    intro l
    induction l with
    | nil =>
      intro k
      rfl
    | cons source rest ih =>
      intro k
      rw [zipIdx_cons]
      by_cases hsearched : source.searched = true
      · rw [filter_cons_of_pos (a := (source, k)) hsearched, filter_cons_of_pos hsearched,
          map_cons, flatMap_cons, flatMap_cons, ih]
      · rw [filter_cons_of_neg (a := (source, k)) hsearched, filter_cons_of_neg hsearched, ih]
  rw [matchedBlocks, map_flatMap, searchedTexts, ← hindexed _ 0]
  exact flatMap_congr fun source _ => hblocks source

theorem matchedBlocks_pairwise (py : Library) (stdout : List Char) :
    (matchedBlocks py stdout).Pairwise fun b c => b.matchPlace < c.matchPlace := by
  rw [matchedBlocks, pairwise_flatMap]
  constructor
  · rintro ⟨source, index⟩ -
    rw [blocksOf, pairwise_map]
    refine (Delimiters.scanFrom_pairwise 0 0 _).imp fun hlt => ?_
    exact Prod.Lex.toLex_lt_toLex.mpr (.inr ⟨rfl, hlt⟩)
  · have hindexes : ((sources py stdout).zipIdx).Pairwise fun a b => a.2 < b.2 := by
      have hrange := pairwise_lt_range' (s := 0) (n := (sources py stdout).length)
      rw [← zipIdx_map_snd 0 (sources py stdout), pairwise_map] at hrange
      exact hrange
    refine (hindexes.filter _).imp ?_
    rintro ⟨source, index⟩ ⟨other, otherIndex⟩ hlt b hb c hc
    obtain ⟨found, -, rfl⟩ := mem_map.mp hb
    obtain ⟨otherFound, -, rfl⟩ := mem_map.mp hc
    exact Prod.Lex.toLex_lt_toLex.mpr (.inl hlt)

/-! ## What is returned -/

theorem sentinel_of_matched {b : Block} (hb : b ∈ matchedBlocks py stdout) :
    sentinel <:+: stdout := by
  obtain ⟨hsource, hsearched, hseen⟩ := mem_matchedBlocks.mp hb
  have hmem := mem_of_getElem? hsource
  rcases mem_cons.mp hmem with heq | hmem
  · obtain ⟨n, j, m, hopens, -⟩ := Delimiters.blockAt_eq_some.mp hseen.1
    rw [heq] at hopens
    exact ((opens_eq_some hopens).1.isInfix).trans (drop_suffix _ _).isInfix
  · obtain ⟨line, hline, hmem⟩ := mem_flatMap.mp hmem
    have hsplit : line.2 ∈ splitLines stdout := by
      rw [← map_snd_linesAt]
      exact mem_map_of_mem hline
    rw [lineSources] at hmem
    split at hmem
    · split at hmem
      · obtain ⟨s, -, heq⟩ := mem_map.mp hmem
        rw [← heq] at hsearched
        exact sentinel_of_line hsplit (of_decide_eq_true hsearched)
      · cases hmem
    · cases hmem

theorem parse_of_raises (h : Raises py stdout) : parseStageReport py stdout = none := by
  obtain ⟨line, hline, -, hspelled, -⟩ := id h
  rw [parseStageReport, if_pos (sentinel_of_line hline hspelled), candidateTexts_none h]
  rfl

theorem parse_eq (h : ¬ Raises py stdout) : parseStageReport py stdout =
      some ((matchedBlocks py stdout).reverse.findSome? fun b => b.report py) := by
  rw [parseStageReport]
  split
  · rw [candidateTexts_eq h, Option.map_some, ← payloads_matchedBlocks, ← map_reverse,
      List.findSome?_map]
    rfl
  · rename_i hspelled
    have hnil : matchedBlocks py stdout = [] := by
      refine eq_nil_iff_forall_not_mem.mpr fun b hb => ?_
      exact hspelled (sentinel_of_matched hb)
    rw [hnil]
    rfl

/-- **What the parser returns is the report of the block it takes.** -/
theorem parse_of_taken {t : Block} (h : ¬ Raises py stdout) (ht : IsTaken py stdout t) :
    parseStageReport py stdout = some (t.report py) := by
  obtain ⟨hmem, hvalid⟩ := isSeen_iff.mp ht.1
  obtain ⟨before, behind, hsplit⟩ := append_of_mem hmem
  have hordered := matchedBlocks_pairwise py stdout
  rw [hsplit, pairwise_append, pairwise_cons] at hordered
  have hnone : behind.reverse.findSome? (fun b => b.report py) = none := by
    rw [List.findSome?_eq_none_iff]
    intro b hb
    rw [mem_reverse] at hb
    by_contra hsome
    have hseen : IsSeen py stdout b := by
      refine isSeen_iff.mpr ⟨?_, Option.isSome_iff_ne_none.mpr hsome⟩
      rw [hsplit]
      exact mem_append_right _ (mem_cons_of_mem _ hb)
    exact absurd (hordered.2.1.1 b hb) (not_lt.mpr (ht.2 b hseen))
  obtain ⟨r, hr⟩ := Option.isSome_iff_exists.mp hvalid
  rw [parse_eq h, hsplit, reverse_append, reverse_cons, append_assoc,
    List.findSome?_append, hnone, Option.none_or, singleton_append, List.findSome?_cons, hr]

theorem exists_taken {b : Block} (hb : IsSeen py stdout b) : ∃ t, IsTaken py stdout t := by
  have hseen : ∀ c : Block,
      c ∈ (matchedBlocks py stdout).toFinset.filter (fun c => (c.report py).isSome = true) ↔
        IsSeen py stdout c := by
    intro c
    rw [Finset.mem_filter, mem_toFinset, isSeen_iff]
  obtain ⟨t, ht, hmax⟩ := Finset.exists_max_image _ Block.matchPlace ⟨b, (hseen b).mpr hb⟩
  exact ⟨t, (hseen t).mp ht, fun other hother => hmax other ((hseen other).mpr hother)⟩

theorem parse_of_unseen (h : ¬ Raises py stdout) (hnone : ∀ b, ¬ IsSeen py stdout b) :
    parseStageReport py stdout = some none := by
  rw [parse_eq h, Option.some_inj, List.findSome?_eq_none_iff]
  intro b hb
  by_contra hsome
  exact hnone b (isSeen_iff.mpr ⟨mem_reverse.mp hb, Option.isSome_iff_ne_none.mpr hsome⟩)

theorem isBlock_of_seen {t : List Char} {found : Found} (h : sentinelRe.Seen t found) :
    IsBlock t found := by
  obtain ⟨n, j, m, hopens, hclose, hnone, heq⟩ := Delimiters.blockAt_eq_some.mp h.1
  have hinside : n < j := by
    by_contra hle
    have hapart := sentinelRe.apart _ n hopens j (not_lt.mp hle)
    rw [hapart] at hclose
    cases hclose
  rw [drop_drop] at hclose
  refine ⟨n, m, hopens, congrArg Found.inside heq, ?_, ?_, ?_⟩
  · rw [congrArg Found.inside heq, congrArg Found.close heq]
    exact Nat.add_lt_add_left hinside _
  · rw [congrArg Found.close heq]
    exact hclose
  · rw [congrArg Found.stop heq, congrArg Found.close heq]

theorem unseen_of_none (hnone : ∀ b, ¬ IsReport py stdout b) : ∀ b, ¬ IsSeen py stdout b := by
  intro b hb
  refine hnone b ⟨hb.source, isBlock_of_seen hb.seen, hb.valid, ?_⟩
  -- a line could only be part of a report of the output
  rintro line - ⟨found, hblock, hvalid, -⟩
  refine hnone ⟨0, { text := stdout }, found⟩ ⟨rfl, hblock, hvalid, ?_⟩
  intro line hline
  cases hline

/-- **The last report is returned exactly where the block that is taken says what the last one
    does**, and no line makes the reading fail. -/
theorem returns_last_iff (py : Library) (stdout : List Char) : ReturnsLast py stdout ↔
      ¬ Raises py stdout ∧ ((∃ b, IsReport py stdout b) →
        ∃ b t, IsLast py stdout b ∧ IsTaken py stdout t ∧ t.report py = b.report py) := by
  by_cases hraises : Raises py stdout
  · constructor
    · rintro (⟨b, -, hparse⟩ | ⟨-, hparse⟩)
      · rw [parse_of_raises hraises] at hparse
        cases hparse
      · rw [parse_of_raises hraises] at hparse
        cases hparse
    · exact fun h => absurd hraises h.1
  · constructor
    · intro hreturns
      refine ⟨hraises, ?_⟩
      rintro ⟨first, hfirst⟩
      rcases hreturns with ⟨b, hlast, hparse⟩ | ⟨hnone, -⟩
      · by_cases hseen : ∃ c, IsSeen py stdout c
        · obtain ⟨c, hc⟩ := hseen
          obtain ⟨t, ht⟩ := exists_taken hc
          rw [parse_of_taken hraises ht] at hparse
          exact ⟨b, t, hlast, ht, Option.some.inj hparse⟩
        · have hunseen := parse_of_unseen hraises fun c hc => hseen ⟨c, hc⟩
          rw [hunseen] at hparse
          have hvalid : (b.report py).isSome := statusKnown_iff.mp hlast.1.valid
          rw [← Option.some.inj hparse] at hvalid
          cases hvalid
      · exact absurd hfirst (hnone first)
    · rintro ⟨-, hcond⟩
      by_cases hexists : ∃ b, IsReport py stdout b
      · obtain ⟨b, t, hlast, ht, heq⟩ := hcond hexists
        exact .inl ⟨b, hlast, (parse_of_taken hraises ht).trans (congrArg some heq)⟩
      · have hnone : ∀ b, ¬ IsReport py stdout b := fun b hb => hexists ⟨b, hb⟩
        exact .inr ⟨hnone, parse_of_unseen hraises (unseen_of_none hnone)⟩

def passes : List Char := "\x7b\"status\": \"pass\"\x7d".toList

def passesOnly : Library where
  report := fun payload => if payload = passes then some { status := some "pass".toList } else none
  criteria := fun _ => some none
  waivers := fun _ => some none
  block := fun _ => some {}
  loads := fun line =>
    if line = passes then .data (.obj [("status".toList, .str "pass".toList)]) else .decodeError
  lower := id

/-- A report that broke off, and the whole one behind it. -/
def brokenOff : List Char :=
  sentinel ++ "\n\x7b\"status\": \n".toList ++ sentinel ++ "\n".toList ++ passes ++
    "\n<<<END_STAGE_REPORT>>>\n".toList

theorem parse_brokenOff : parseStageReport passesOnly brokenOff = some none := by
  decide +kernel

/-- The opener of a report that broke off reaches over the whole one. -/
theorem report_hidden_by_brokenOff :
    ¬ ∀ (py : Library) (stdout : List Char), ReturnsLast py stdout := by
  intro hclaim
  have hreport : IsReport passesOnly brokenOff ⟨0, { text := brokenOff }, ⟨42, 72, 89, 113⟩⟩ := by
    have hpayload : payloadOf brokenOff ⟨42, 72, 89, 113⟩ = passes := by decide +kernel
    have hstatus : passesOnly.report (payloadOf brokenOff ⟨42, 72, 89, 113⟩) =
        some { status := some "pass".toList } := by simp [passesOnly, hpayload]
    refine ⟨rfl, ⟨30, 24, by decide +kernel, rfl, by decide, by decide +kernel, rfl⟩,
      ⟨_, _, hstatus, rfl, mem_cons_self⟩, ?_⟩
    intro line hline
    cases hline
  rcases hclaim passesOnly brokenOff with ⟨b, hlast, hparse⟩ | ⟨hnone, -⟩
  · have hvalid : (b.report passesOnly).isSome := statusKnown_iff.mp hlast.1.valid
    rw [parse_brokenOff] at hparse
    rw [← Option.some.inj hparse] at hvalid
    cases hvalid
  · exact hnone _ hreport

end Loregarden.AgentOutput
