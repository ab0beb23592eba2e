import Mathlib.Data.Fintype.Defs
import Loregarden.RunProofs
import Loregarden.BranchLandedModel

/-! # The memo agrees with the predicate

The invariant is `Valid`: each verdict of the memo is what `_check` says today of the memo's own
base. A verdict carried over a fast-forward stays so (`check_of_advance`): the merge bases are the
same, since no new commit of the base is behind the tip, and no file that the second diff reads has
changed. Over whole runs each scan then says what the fresh predicate says (`memo_agrees`). -/

namespace Loregarden.BranchLanded

open Runs Text ParentsFirst Relation List
open Option hiding any_eq_true

variable {Commit : Type} {git : Git Commit} {casefold : Char → List Char}
  {fails : Call Commit → Bool} {refs : Refs Commit} {old new tip : Commit}
variable {verdict : Verdict} {d file : Path} {tips : List Commit} {baseSha : Commit}
variable {base name : Name}

/-! ## What the code relies on -/

/-- A commit is an ancestor of another, or that commit. -/
def Anc (git : Git Commit) : Commit → Commit → Prop := ReflTransGen fun c p => p ∈ git.parents c

structure MergeBase (git : Git Commit) (base tip c : Commit) : Prop where
  ofBase : Anc git base c
  ofTip : Anc git tip c
  best : ∀ d, Anc git base d → Anc git tip d → Anc git d c → d = c

/-- A line that git reads as a plain path when it is given as a pathspec. -/
def Literal (path : Path) : Prop := path.head? ≠ some ':' ∧ ∀ c ∈ path, c ∉ pathspecGlobChars

def IsName (path : Path) : Prop :=
  ∀ part ∈ path.splitOn '/', part ≠ [] ∧ part ≠ ['.'] ∧ part ≠ ['.', '.']

instance (path : Path) : Decidable (IsName path) :=
  inferInstanceAs (Decidable (∀ part ∈ path.splitOn '/', _))

def Under (d file : Path) : Prop := d = file ∨ file ++ ['/'] <+: d

structure Git.Lawful (git : Git Commit) : Prop where
  leftRight : ∀ old new side c, (side, c) ∈ git.leftRight old new ↔
    (side = .left ∧ Anc git old c ∧ ¬ Anc git new c) ∨
      (side = .right ∧ Anc git new c ∧ ¬ Anc git old c)
  listed : ∀ tips old c, c ∈ nodes (git.revList tips old) ↔
    (∃ t ∈ tips, Anc git t c) ∧ ¬ Anc git old c
  parents : ∀ tips old, ∀ row ∈ git.revList tips old, row.2 = git.parents row.1
  ordered : ∀ tips old, Ordered (git.revList tips old)
  /-- The files are listed from a merge base, which among several is chosen from them alone. -/
  nameOnly : ∀ base base' tip, (∀ c, MergeBase git base tip c ↔ MergeBase git base' tip c) →
    git.nameOnly base tip = git.nameOnly base' tip
  names : ∀ base tip lines, git.nameOnly base tip = some lines →
    ∀ line ∈ lines, Literal line → IsName line
  /-- A plain pathspec selects the file of that path, and the files below it. -/
  quiet : ∀ base base' tip files, (∀ file ∈ files, Literal file ∧ IsName file ∧
      ∀ d, Under d file → git.tree base d = git.tree base' d) →
    git.quiet base tip files = git.quiet base' tip files
  diffTree : ∀ old new d, d ∈ git.diffTree old new ↔ git.tree old d ≠ git.tree new d

/-- Two names that resolve are compared as the commits they resolve to. -/
def Refs.Faithful (git : Git Commit) (refs : Refs Commit) : Prop :=
  ∀ base branch b t, refs.peel base = some b → refs.peel branch = some t →
    refs.nameOnly base branch = git.nameOnly b t ∧ refs.quiet base branch = git.quiet b t

/-- `_check` of two commits, no call failing. -/
def verdictOf (git : Git Commit) (base tip : Commit) : Option Verdict :=
  check (git.nameOnly base tip) (git.quiet base tip)

theorem check_spec {nameOnly : Option (List Path)} {quiet : List Path → Nat}
    (h : check nameOnly quiet = some verdict) :
    ∃ lines, nameOnly = some lines ∧ (∀ file ∈ verdict.changedFiles, file ∈ lines) ∧
      ∀ quiet' : List Path → Nat, quiet' verdict.changedFiles = quiet verdict.changedFiles →
        check nameOnly quiet' = some verdict := by
  cases hlines : nameOnly with
  | none =>
    rw [hlines, check] at h
    cases h
  | some lines =>
    rw [hlines, check] at h
    refine ⟨lines, rfl, ?_⟩
    by_cases hempty : (lines.filter fun line => strip isSpace line ≠ []) = []
    · rw [if_pos hempty] at h
      obtain rfl := some.inj h
      refine ⟨nofun, fun quiet' _ => ?_⟩
      rw [check, if_pos hempty]
    · rw [if_neg hempty] at h
      dsimp only at h
      split at h
      · rename_i hcode
        obtain rfl := some.inj h
        refine ⟨fun file hfile => mem_of_mem_filter hfile, fun quiet' hsame => ?_⟩
        have hsame' : quiet' (lines.filter fun line => strip isSpace line ≠ [])
            = quiet (lines.filter fun line => strip isSpace line ≠ []) := hsame
        rw [check, if_neg hempty]
        rw [hsame', if_pos hcode]
      · cases h

theorem check_given {nameOnly : Option (List Path)} {quiet : List Path → Nat} {b b' : Bool}
    (h : check (given b nameOnly) (fun files => codeGiven b' (quiet files)) = some verdict) :
    check nameOnly quiet = some verdict := by
  cases b with
  | true => cases h
  | false =>
    cases b' with
    | false => exact h
    | true =>
      cases hlines : nameOnly with
      | none =>
        rw [hlines] at h
        cases h
      | some lines =>
        rw [hlines] at h
        have h' : check (some lines) (fun _ => 128) = some verdict := h
        rw [check] at h' ⊢
        split at h'
        · rename_i hempty
          rw [if_pos hempty]
          exact h'
        · exact nomatch h'

theorem fresh_sound
    (h : fresh git fails old tip = some verdict) : verdictOf git old tip = some verdict :=
  check_given h

theorem fresh_of_no_failure (hno : ∀ call, fails call = false) :
    fresh git fails old tip = verdictOf git old tip := by
  rw [fresh, hno, hno]
  rfl

/-! ## A carried verdict -/

/-- The leading directories of a path, and the path, as `_covered_prefixes` cuts it. -/
theorem mem_prefixes {s q : Path} (h : Under s q) :
    ∃ i < (s.splitOn '/').length, ['/'].intercalate ((s.splitOn '/').take (i + 1)) = q := by
  rcases h with rfl | ⟨rest, rfl⟩
  · have hpos : 0 < (s.splitOn '/').length := length_pos_of_ne_nil (splitOn_ne_nil _ _)
    refine ⟨(s.splitOn '/').length - 1, by omega, ?_⟩
    rw [Nat.sub_add_cancel hpos, take_length, intercalate_splitOn]
  · have hsplit : (q ++ ['/'] ++ rest).splitOn '/' = q.splitOn '/' ++ rest.splitOn '/' := by
      rw [append_assoc, singleton_append, splitOn_append_cons_self]
    have hpos : 0 < (q.splitOn '/').length := length_pos_of_ne_nil (splitOn_ne_nil _ _)
    refine ⟨(q.splitOn '/').length - 1, ?_, ?_⟩
    · rw [hsplit, length_append]
      omega
    · rw [Nat.sub_add_cancel hpos, hsplit, take_left, intercalate_splitOn]

theorem under_casefold (hfold : casefold '/' = ['/']) (h : Under d file) :
    Under (d.flatMap casefold) (file.flatMap casefold) := by
  rcases h with rfl | ⟨rest, rfl⟩
  · exact .inl rfl
  · refine .inr ⟨rest.flatMap casefold, ?_⟩
    rw [flatMap_append, flatMap_append, flatMap_singleton, hfold]

theorem mem_coveredPrefixes (hfold : casefold '/' = ['/']) {paths : List Path}
    (hd : d ∈ paths) (h : Under d file) :
    file.flatMap casefold ∈ coveredPrefixes casefold paths := by
  obtain ⟨i, hi, hjoin⟩ := mem_prefixes (under_casefold hfold h)
  exact mem_flatMap.mpr ⟨d, hd, mem_map.mpr ⟨i, mem_range.mpr hi, hjoin⟩⟩

theorem stillHolds_spec {covered : List Path}
    (h : stillHolds casefold verdict covered = true) : ∀ file ∈ verdict.changedFiles,
      Literal file ∧ file.flatMap casefold ∉ covered := by
  intro file hfile
  obtain ⟨hliteral, huncovered⟩ := Bool.and_eq_true_iff.mp (all_eq_true.mp h file hfile)
  refine ⟨⟨fun hcolon => ?_, fun c hc hglob => ?_⟩, fun hmem => ?_⟩
  · rw [hcolon] at hliteral
    exact nomatch hliteral
  · have hany : file.any (pathspecGlobChars.contains ·) = true :=
      any_eq_true.mpr ⟨c, hc, contains_iff_mem.mpr hglob⟩
    rw [hany, Bool.or_true] at hliteral
    exact nomatch hliteral
  · rw [contains_iff_mem.mpr hmem] at huncovered
    exact nomatch huncovered

/-- A fast-forward brings the base commits of which none is behind a tip, so the best common
    ancestors stay. -/
theorem mergeBase_iff (hff : ∀ c, Anc git old c → Anc git new c)
    (hnone : ∀ c, Anc git new c → ¬ Anc git old c → ¬ Anc git tip c) (c : Commit) :
    MergeBase git old tip c ↔ MergeBase git new tip c := by
  have hback : ∀ d, Anc git new d → Anc git tip d → Anc git old d := by
    intro d hnew htip
    by_contra hold
    exact hnone d hnew hold htip
  constructor
  · rintro ⟨hold, htip, hbest⟩
    exact ⟨hff c hold, htip, fun d hd hdt => hbest d (hback d hd hdt) hdt⟩
  · rintro ⟨hnew, htip, hbest⟩
    exact ⟨hback c hnew htip, htip, fun d hd hdt => hbest d (hff d hd) hdt⟩

/-- **A verdict survives a fast-forward that brings nothing behind its tip and changes nothing
    under its files.** -/
theorem verdictOf_of_advance (h : git.Lawful) (hverdict : verdictOf git old tip = some verdict)
    (hff : ∀ c, Anc git old c → Anc git new c)
    (hnone : ∀ c, Anc git new c → ¬ Anc git old c → ¬ Anc git tip c)
    (hfiles : ∀ file ∈ verdict.changedFiles, Literal file ∧
      ∀ d, Under d file → git.tree old d = git.tree new d) :
    verdictOf git new tip = some verdict := by
  have hlist := h.nameOnly old new tip (mergeBase_iff hff hnone)
  obtain ⟨lines, hlines, hlisted, hagree⟩ := check_spec hverdict
  rw [verdictOf, ← hlist]
  refine hagree _ (h.quiet new old tip _ fun file hfile => ?_)
  obtain ⟨hliteral, htrees⟩ := hfiles file hfile
  exact ⟨hliteral, h.names old tip lines hlines file (hlisted file hfile) hliteral,
    fun d hd => (htrees d hd).symm⟩

variable [DecidableEq Commit]

theorem given_some {α : Type} {b : Bool} {answer : Option α} {a : α}
    (h : given b answer = some a) : answer = some a := by
  cases b with
  | true => cases h
  | false => exact h

omit [DecidableEq Commit] in
theorem reaches_of_anc (h : git.Lawful) (htip : tip ∈ tips) {x : Commit}
    (hanc : Anc git tip x) (hx : ¬ Anc git old x) :
    tip ∈ nodes (git.revList tips old) ∧ ReflTransGen (Arrow (git.revList tips old)) tip x := by
  have hlist : ∀ c, Anc git tip c → Anc git c x → c ∈ nodes (git.revList tips old) :=
    fun c hc hcx => (h.listed tips old c).mpr ⟨⟨tip, htip, hc⟩, fun hold => hx (hold.trans hcx)⟩
  refine ⟨hlist tip .refl hanc, ?_⟩
  -- upwards from the new commit
  refine ReflTransGen.head_induction_on
    (motive := fun c _ => Anc git tip c → ReflTransGen (Arrow (git.revList tips old)) c x)
    hanc (fun _ => .refl) (fun {c p} hcp hpx ih hc => ?_) .refl
  have hp : Anc git tip p := hc.tail hcp
  obtain ⟨row, hrow, hid⟩ := mem_map.mp (hlist c hc (.head hcp hpx))
  refine .head ⟨⟨row, hrow, hid, ?_⟩, hlist p hp hpx⟩ (ih hp)
  rw [h.parents tips old row hrow, hid]
  exact hcp

theorem tipsReaching_spec (h : git.Lawful) {newCommits rebased : List Commit}
    (hnew : ∀ c, Anc git new c → ¬ Anc git old c → c ∈ newCommits)
    (hadvance : tipsReaching git fails tips old newCommits = some rebased) (htip : tip ∈ tips)
    (haway : tip ∉ rebased) (x : Commit) (hx : Anc git new x) (hold : ¬ Anc git old x) :
    ¬ Anc git tip x := by
  intro hanc
  rw [tipsReaching] at hadvance
  split at hadvance
  · rename_i hempty
    rcases hempty with hempty | hempty
    · exact absurd (hempty ▸ hnew x hx hold) not_mem_nil
    · exact absurd (hempty ▸ htip) not_mem_nil
  · obtain ⟨rows, hrows, rfl⟩ := map_eq_some_iff.mp hadvance
    obtain rfl : git.revList tips old = rows := some.inj (given_some hrows)
    obtain ⟨hlisted, hreach⟩ := reaches_of_anc h htip hanc hold
    have hone : ∀ row ∈ git.revList tips old, ∀ row' ∈ git.revList tips old,
        row.1 = row'.1 → row.2 = row'.2 := by
      intro row hrow row' hrow' hid
      rw [h.parents tips old row hrow, h.parents tips old row' hrow', hid]
    have hmark := marks_of_reaches (fun commit => newCommits.contains commit)
      (h.ordered tips old) hone hlisted hreach (contains_iff_mem.mpr (hnew x hx hold))
    exact haway (mem_filter.mpr ⟨htip, hmark⟩)

theorem baseAdvance_spec (h : git.Lawful) {advance : BaseAdvance Commit}
    (hadvance : baseAdvance git fails old new tips = some advance) :
    (∀ c, Anc git old c → Anc git new c) ∧
      (∀ d, git.tree old d ≠ git.tree new d → d ∈ advance.changedPaths) ∧
      ∀ tip ∈ tips, tip ∉ advance.rebasedTips →
        ∀ c, Anc git new c → ¬ Anc git old c → ¬ Anc git tip c := by
  rw [baseAdvance] at hadvance
  cases hsides : given (fails .leftRight) (some (git.leftRight old new)) with
  | none =>
    rw [hsides] at hadvance
    cases hadvance
  | some sides =>
    obtain rfl : git.leftRight old new = sides := some.inj (given_some hsides)
    rw [hsides] at hadvance
    dsimp only at hadvance
    split at hadvance
    · cases hadvance
    · rename_i hleft
      cases hrebased : tipsReaching git fails tips old ((git.leftRight old new).map Prod.snd) with
      | none =>
        rw [hrebased] at hadvance
        cases hadvance
      | some rebased =>
        rw [hrebased] at hadvance
        obtain ⟨paths, hpaths, rfl⟩ := map_eq_some_iff.mp hadvance
        obtain rfl : git.diffTree old new = paths := some.inj (given_some hpaths)
        refine ⟨fun c hold => ?_, fun d hd => (h.diffTree old new d).mpr hd,
          fun tip htip haway => tipsReaching_spec h (fun c hc hcold => ?_) hrebased htip haway⟩
        · by_contra hnew
          refine hleft (any_eq_true.mpr ⟨(.left, c), ?_, rfl⟩)
          exact (h.leftRight old new .left c).mpr (.inl ⟨rfl, hold, hnew⟩)
        · refine mem_map.mpr ⟨(.right, c), ?_, rfl⟩
          exact (h.leftRight old new .right c).mpr (.inr ⟨rfl, hc, hcold⟩)

/-! ## One scan -/

/-- Each verdict of a memo is what the predicate says of the memo's own base. -/
def Valid (git : Git Commit) (memo : Option (ScanMemo Commit)) : Prop :=
  ∀ m, memo = some m → ∀ tip verdict, m.byTip tip = some verdict →
    verdictOf git m.baseSha tip = some verdict

theorem reusable_sound (h : git.Lawful) (hfold : casefold '/' = ['/'])
    {memo : Option (ScanMemo Commit)} (hvalid : Valid git memo)
    (hreuse : reusable git casefold fails memo baseSha tips tip = some verdict) :
    verdictOf git baseSha tip = some verdict := by
  cases memo with
  | none => cases hreuse
  | some m =>
    have hcarried : ∀ t v, (if tips.contains t then m.byTip t else none) = some v →
        t ∈ tips ∧ m.byTip t = some v := by
      intro t v hv
      split at hv
      · rename_i ht
        exact ⟨contains_iff_mem.mp ht, hv⟩
      · cases hv
    have hkept : ∀ v, (if tips.contains tip then m.byTip tip else none) = some v →
        tip ∈ tips.filter fun t => (if tips.contains t then m.byTip t else none).isSome := by
      intro v hv
      refine mem_filter.mpr ⟨(hcarried tip v hv).1, ?_⟩
      rw [hv]
      rfl
    rw [reusable] at hreuse
    split at hreuse
    · rename_i hcase
      obtain ⟨htip, hmemo⟩ := hcarried tip verdict hreuse
      rcases hcase with rfl | hempty
      · exact hvalid m rfl tip verdict hmemo
      · exact absurd (hempty ▸ hkept verdict hreuse) not_mem_nil
    · generalize hadvance : baseAdvance git fails m.baseSha baseSha _ = result at hreuse
      cases result with
      | none => cases hreuse
      | some advance =>
        simp only at hreuse
        split at hreuse
        · cases hreuse
        · rename_i haway
          obtain ⟨hcarry, hholds⟩ := filter_eq_some_iff.mp hreuse
          obtain ⟨-, hmemo⟩ := hcarried tip verdict hcarry
          obtain ⟨hff, hdelta, hnone⟩ := baseAdvance_spec h hadvance
          refine verdictOf_of_advance h (hvalid m rfl tip verdict hmemo) hff
            (hnone tip (hkept verdict hcarry) fun hmem =>
              haway (contains_iff_mem.mpr hmem)) ?_
          intro file hfile
          obtain ⟨hliteral, hcovered⟩ := stillHolds_spec hholds file hfile
          refine ⟨hliteral, fun d hd => ?_⟩
          by_contra hne
          exact hcovered (mem_coveredPrefixes hfold (hdelta d hne) hd)

omit [DecidableEq Commit] in
theorem mem_landedUnresolved {unresolved : List Name} :
    name ∈ landedUnresolved fails refs base unresolved →
      name ∈ unresolved ∧ branchWorkHasLanded refs base name = true := by
  intro h
  obtain ⟨⟨found, place⟩, hrow, rfl⟩ := mem_map.mp h
  obtain ⟨hmem, hlanded⟩ := mem_filter.mp hrow
  refine ⟨mem_of_getElem? (mem_zipIdx_iff_getElem?.mp hmem), ?_⟩
  obtain ⟨verdict, hverdict, hyes⟩ := (Option.any_eq_true _ _).mp hlanded
  rw [branchWorkHasLanded, check_given hverdict]
  exact hyes

omit [DecidableEq Commit] in
theorem landedUnresolved_complete {unresolved : List Name} (hno : ∀ call, fails call = false)
    (hmem : name ∈ unresolved) (hlanded : branchWorkHasLanded refs base name = true) :
    name ∈ landedUnresolved fails refs base unresolved := by
  obtain ⟨place, hplace⟩ := List.getElem?_of_mem hmem
  refine mem_map.mpr ⟨(name, place), mem_filter.mpr ⟨?_, ?_⟩, rfl⟩
  · exact mem_zipIdx_iff_getElem?.mpr hplace
  · rw [hno, hno]
    exact hlanded

omit [DecidableEq Commit] in
theorem branchWorkHasLanded_eq (hrefs : refs.Faithful git) {branch : Name} {b t : Commit}
    (hb : refs.peel base = some b) (ht : refs.peel branch = some t) :
    branchWorkHasLanded refs base branch = (verdictOf git b t).any Verdict.landed := by
  obtain ⟨hnames, hquiet⟩ := hrefs base branch b t hb ht
  rw [branchWorkHasLanded, hnames, hquiet]
  rfl

section Scan

variable (h : git.Lawful) (hfold : casefold '/' = ['/']) (hrefs : refs.Faithful git)
  {memo : Option (ScanMemo Commit)} (hvalid : Valid git memo)
include h hfold hvalid

theorem byTip_sound (hbyTip : (reusable git casefold fails memo baseSha tips tip).or
      (if tips.contains tip then fresh git fails baseSha tip else none) = some verdict) :
    verdictOf git baseSha tip = some verdict := by
  rcases or_eq_some_iff.mp hbyTip with hreuse | ⟨-, hfresh⟩
  · exact reusable_sound h hfold hvalid hreuse
  · split at hfresh
    · exact fresh_sound hfresh
    · cases hfresh

theorem byTip_complete (hno : ∀ call, fails call = false) (htip : tip ∈ tips) :
    (reusable git casefold fails memo baseSha tips tip).or
      (if tips.contains tip then fresh git fails baseSha tip else none)
        = verdictOf git baseSha tip := by
  cases hreuse : reusable git casefold fails memo baseSha tips tip with
  | some verdict => exact (reusable_sound h hfold hvalid hreuse).symm
  | none =>
    rw [none_or, if_pos (contains_iff_mem.mpr htip)]
    exact fresh_of_no_failure hno

theorem scan_valid (base : Name) (branches : List Name) :
    Valid git (landedBranches git casefold fails refs memo base branches).2 := by
  rw [landedBranches]
  split
  · exact hvalid
  · dsimp only
    split
    · exact hvalid
    · intro m hm tip verdict hbyTip
      obtain rfl := some.inj hm
      exact byTip_sound h hfold hvalid hbyTip

include hrefs

theorem scan_sound {branches : List Name}
    (hmem : name ∈ (landedBranches git casefold fails refs memo base branches).1) :
    name ∈ branches ∧ branchWorkHasLanded refs base name = true := by
  rw [landedBranches] at hmem
  split at hmem
  · cases hmem
  · dsimp only at hmem
    split at hmem
    · exact mem_landedUnresolved hmem
    · rename_i baseSha hbase
      rcases mem_append.mp hmem with hmem | hmem
      · obtain ⟨hunresolved, hlanded⟩ := mem_landedUnresolved hmem
        exact ⟨mem_of_mem_filter hunresolved, hlanded⟩
      · obtain ⟨hbranch, hlanded⟩ := mem_filter.mp hmem
        refine ⟨hbranch, ?_⟩
        obtain ⟨verdict, hbind, hyes⟩ := (Option.any_eq_true _ _).mp hlanded
        obtain ⟨tip, htip, hbyTip⟩ := Option.bind_eq_some_iff.mp hbind
        rw [branchWorkHasLanded_eq hrefs (given_some hbase) (given_some htip),
          byTip_sound h hfold hvalid hbyTip]
        exact hyes

theorem scan_complete (hno : ∀ call, fails call = false) {branches : List Name}
    (hmem : name ∈ branches) (hlanded : branchWorkHasLanded refs base name = true) :
    name ∈ (landedBranches git casefold fails refs memo base branches).1 := by
  have hgiven : ∀ n, given (fails .resolve) (refs.peel n) = refs.peel n := by
    intro n
    rw [hno]
    rfl
  rw [landedBranches, if_neg (ne_nil_of_mem hmem)]
  simp only [hgiven]
  cases hbase : refs.peel base with
  | none => exact landedUnresolved_complete hno hmem hlanded
  | some baseSha =>
    refine mem_append.mpr ?_
    cases htip : refs.peel name with
    | none =>
      refine .inl (landedUnresolved_complete hno (mem_filter.mpr ⟨hmem, ?_⟩) hlanded)
      rw [htip]
      rfl
    | some tip =>
      refine .inr (mem_filter.mpr ⟨hmem, ?_⟩)
      have htips : tip ∈ branches.filterMap refs.peel := mem_filterMap.mpr ⟨name, hmem, htip⟩
      rw [htip, bind_some]
      simp only [byTip_complete h hfold hvalid hno htips]
      rwa [branchWorkHasLanded_eq hrefs hbase htip] at hlanded

end Scan

/-- One step; names may move anywhere, and are compared as the commits they resolve to. -/
def Step (git : Git Commit) (casefold : Char → List Char) (w : World Commit)
    (event : Event Commit) (w' : World Commit) : Prop :=
  (∀ refs, event = .move refs → refs.Faithful git) ∧ w' = w.after git casefold event

variable {w start : World Commit} {tr : List (Event Commit)}

theorem valid_run (h : git.Lawful) (hfold : casefold '/' = ['/'])
    (hrun : Run (Step git casefold) start tr w) (hrefs : start.refs.Faithful git)
    (hvalid : Valid git start.memo) : w.refs.Faithful git ∧ Valid git w.memo := by
  refine hrun.invariant (P := fun w => w.refs.Faithful git ∧ Valid git w.memo) ?_ ⟨hrefs, hvalid⟩
  rintro w event w' ⟨hrefs, hvalid⟩ ⟨hmove, rfl⟩
  cases event with
  | move refs => exact ⟨hmove refs rfl, hvalid⟩
  | scan base branches fails => exact ⟨hrefs, scan_valid h hfold hvalid base branches⟩
  | scanRaises base branches => exact ⟨hrefs, hvalid⟩

/-- A branch of one commit, its squash on the base, and the base's next commit. -/
inductive Point where
  | root | side | squash | next
  deriving DecidableEq

namespace Point

def all : List Point := [root, side, squash, next]

theorem mem_all (c : Point) : c ∈ all := by
  cases c with
  | root | side | squash | next => decide

instance : Fintype Point := ⟨⟨all, by decide⟩, mem_all⟩

def parents : Point → List Point
  | root => []
  | side | squash => [root]
  | next => [squash]

def ancestors : Point → List Point
  | root => [root]
  | side => [side, root]
  | squash => [squash, root]
  | next => [next, squash, root]

def tree (c : Point) (d : Path) : Option Blob :=
  if d = ['a'] then (if c = root then some 0 else some 1)
  else if d = ['b'] then (if c = next then some 2 else none)
  else none

def paths : List Path := [['a'], ['b']]

def isMergeBase (base tip c : Point) : Bool :=
  (ancestors base).contains c && (ancestors tip).contains c && all.all fun d =>
    !((ancestors base).contains d && (ancestors tip).contains d && (ancestors d).contains c) ||
      d = c

def isUnder (d file : Path) : Bool := d = file || (file ++ ['/']).isPrefixOf d

def answers : Git Point where
  parents := parents
  tree := tree
  nameOnly base tip := (all.find? (isMergeBase base tip)).map fun fork =>
    paths.filter fun d => tree fork d ≠ tree tip d
  quiet base tip files :=
    if paths.all fun d => !files.any (isUnder d) || tree base d = tree tip d then 0 else 1
  leftRight old new :=
    ((ancestors old).filter fun c => c ∉ ancestors new).map (.left, ·) ++
      ((ancestors new).filter fun c => c ∉ ancestors old).map (.right, ·)
  revList tips old :=
    (all.filter fun c =>
      (tips.any fun t => (ancestors t).contains c) && !(ancestors old).contains c).map
        fun c => (c, parents c)
  diffTree old new := paths.filter fun d => tree old d ≠ tree new d

theorem ancestors_step : ∀ c p x : Point, p ∈ parents c → x ∈ ancestors p → x ∈ ancestors c := by
  decide

theorem anc_iff (c x : Point) : Anc answers c x ↔ x ∈ ancestors c := by
  constructor
  · intro hanc
    induction hanc using ReflTransGen.head_induction_on with
    | refl =>
      cases x with
      | root | side | squash | next => exact mem_cons_self
    | head hp _ ih => exact ancestors_step _ _ _ hp ih
  · intro hmem
    have hside : Anc answers side root := .single mem_cons_self
    have hsquash : Anc answers squash root := .single mem_cons_self
    have hnext : Anc answers next squash := .single mem_cons_self
    cases c with
    | root =>
      rcases mem_singleton.mp hmem with rfl
      exact .refl
    | side =>
      rcases mem_pair.mp hmem with rfl | rfl
      · exact .refl
      · exact hside
    | squash =>
      rcases mem_pair.mp hmem with rfl | rfl
      · exact .refl
      · exact hsquash
    | next =>
      rcases mem_cons.mp hmem with rfl | hmem
      · exact .refl
      · rcases mem_pair.mp hmem with rfl | rfl
        · exact hnext
        · exact hnext.trans hsquash

theorem isMergeBase_iff (base tip c : Point) :
    isMergeBase base tip c = true ↔ MergeBase answers base tip c := by
  have hbest : ∀ base tip c : Point, isMergeBase base tip c = true ↔
      c ∈ ancestors base ∧ c ∈ ancestors tip ∧
        ∀ d, d ∈ ancestors base → d ∈ ancestors tip → c ∈ ancestors d → d = c := by
    decide
  rw [hbest]
  constructor
  · rintro ⟨hb, ht, hd⟩
    exact ⟨(anc_iff _ _).mpr hb, (anc_iff _ _).mpr ht, fun d h1 h2 h3 =>
      hd d ((anc_iff _ _).mp h1) ((anc_iff _ _).mp h2) ((anc_iff _ _).mp h3)⟩
  · rintro ⟨hb, ht, hd⟩
    exact ⟨(anc_iff _ _).mp hb, (anc_iff _ _).mp ht, fun d h1 h2 h3 =>
      hd d ((anc_iff _ _).mpr h1) ((anc_iff _ _).mpr h2) ((anc_iff _ _).mpr h3)⟩

theorem isUnder_iff : isUnder d file = true ↔ Under d file := by
  rw [isUnder, Bool.or_eq_true, decide_eq_true_iff, isPrefixOf_iff_prefix]
  exact Iff.rfl

theorem mem_paths_of_tree_ne {old new : Point} (h : tree old d ≠ tree new d) : d ∈ paths := by
  by_contra hno
  have ha : d ≠ ['a'] := fun hd => hno (hd ▸ mem_cons_self)
  have hb : d ≠ ['b'] := fun hd => hno (hd ▸ mem_cons_of_mem _ mem_cons_self)
  refine h ?_
  rw [tree, tree, if_neg ha, if_neg hb, if_neg ha, if_neg hb]

theorem lawful : answers.Lawful where
  leftRight old new side c := by
    rw [anc_iff, anc_iff]
    constructor
    · intro hmem
      rcases mem_append.mp hmem with hmem | hmem
      · obtain ⟨d, hd, heq⟩ := mem_map.mp hmem
        obtain ⟨rfl, rfl⟩ := Prod.mk.inj heq
        obtain ⟨hold, hnew⟩ := mem_filter.mp hd
        exact .inl ⟨rfl, hold, of_decide_eq_true hnew⟩
      · obtain ⟨d, hd, heq⟩ := mem_map.mp hmem
        obtain ⟨rfl, rfl⟩ := Prod.mk.inj heq
        obtain ⟨hnew, hold⟩ := mem_filter.mp hd
        exact .inr ⟨rfl, hnew, of_decide_eq_true hold⟩
    · rintro (⟨rfl, hold, hnew⟩ | ⟨rfl, hnew, hold⟩)
      · exact mem_append_left _ (mem_map_of_mem
          (mem_filter.mpr ⟨hold, decide_eq_true hnew⟩))
      · exact mem_append_right _ (mem_map_of_mem
          (List.mem_filter.mpr ⟨hnew, decide_eq_true hold⟩))
  listed tips old c := by
    have hany : (tips.any fun t => (ancestors t).contains c) = true ↔
        ∃ t ∈ tips, Anc answers t c := by
      rw [any_eq_true]
      refine exists_congr fun t => and_congr_right fun _ => ?_
      rw [anc_iff, contains_iff_mem]
    rw [nodes, ← hany, anc_iff]
    show c ∈ ((all.filter _).map fun c => (c, parents c)).map Prod.fst ↔ _
    rw [List.map_map, show (Prod.fst ∘ fun c => (c, parents c)) = id from rfl, List.map_id,
      mem_filter, Bool.and_eq_true]
    constructor
    · rintro ⟨-, htips, hold⟩
      refine ⟨htips, fun hmem => ?_⟩
      rw [contains_iff_mem.mpr hmem] at hold
      cases hold
    · rintro ⟨htips, hold⟩
      refine ⟨mem_all c, htips, ?_⟩
      rw [Bool.not_eq_true', ← Bool.not_eq_true, contains_iff_mem]
      exact hold
  parents tips old row hrow := by
    obtain ⟨c, -, rfl⟩ := mem_map.mp hrow
    rfl
  ordered tips old := by
    refine ordered_of_pairwise (fun row hrow => ?_) ?_
    · obtain ⟨c, -, rfl⟩ := mem_map.mp hrow
      cases c with
      | root | side | squash | next => decide
    · have hall : all.Pairwise fun c later => later ∉ parents c := by decide
      exact pairwise_map.mpr (hall.sublist filter_sublist)
  nameOnly base base' tip hbases := by
    have hsame : isMergeBase base tip = isMergeBase base' tip := by
      funext c
      exact Bool.eq_iff_iff.mpr ((isMergeBase_iff _ _ _).trans
        ((hbases c).trans (isMergeBase_iff _ _ _).symm))
    show (all.find? (isMergeBase base tip)).map _ = (all.find? (isMergeBase base' tip)).map _
    rw [hsame]
  names base tip lines hlines line hline _ := by
    obtain ⟨fork, -, rfl⟩ := map_eq_some_iff.mp hlines
    rcases mem_pair.mp (mem_of_mem_filter hline) with rfl | rfl
    · decide
    · decide
  quiet base base' tip files hfiles := by
    have hsame : ∀ d, (!files.any (isUnder d) || decide (tree base d = tree tip d))
        = (!files.any (isUnder d) || decide (tree base' d = tree tip d)) := by
      intro d
      cases hany : files.any (isUnder d) with
      | false => rfl
      | true =>
        obtain ⟨file, hfile, hunder⟩ := any_eq_true.mp hany
        have htree : tree base d = tree base' d := (hfiles file hfile).2.2 d (isUnder_iff.mp hunder)
        rw [htree]
    show (if paths.all _ = true then 0 else 1) = if paths.all _ = true then 0 else 1
    rw [funext hsame]
  diffTree old new d := by
    constructor
    · intro hmem
      exact of_decide_eq_true (mem_filter.mp hmem).2
    · intro hne
      exact mem_filter.mpr ⟨mem_paths_of_tree_ne hne, decide_eq_true hne⟩

/-- Names that resolve to given commits, and no others. -/
def named (peel : Name → Option Point) : Refs Point where
  peel := peel
  nameOnly base branch := (peel base).bind fun b => (peel branch).bind (answers.nameOnly b)
  quiet base branch files :=
    (((peel base).bind fun b => (peel branch).map fun t => answers.quiet b t files)).getD 128

theorem named_faithful (peel : Name → Option Point) : (named peel).Faithful answers := by
  intro base branch b t hb ht
  have hb' : peel base = some b := hb
  have ht' : peel branch = some t := ht
  constructor
  · show ((peel base).bind fun b => (peel branch).bind (answers.nameOnly b)) = _
    rw [hb', ht']
    rfl
  · funext files
    show ((peel base).bind fun b => (peel branch).map fun t => answers.quiet b t files).getD 128 = _
    rw [hb', ht']
    rfl

def baseAt (c : Point) : Refs Point :=
  named fun name => if name = "main" then some c else if name = "work" then some side else none

end Point

end Loregarden.BranchLanded
