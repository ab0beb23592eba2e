import Loregarden.BlockScanProofs
import Loregarden.PythonText
import Mathlib.Algebra.Order.Ring.Rat
import Mathlib.Data.List.Infix

/-! # The stage report in the output of an agent

`parse_stage_report` looks for report blocks in the raw output and, behind that, in the strings of
its stream-json lines, and returns the last one it can read. What `json.loads` makes of a line,
pydantic of a payload, and `str.lower` of a kind is given. -/

namespace Loregarden.AgentOutput

open Text BlockScan List

/-! ## The pattern -/

def sentinel : List Char := "<<<LOREGARDEN_STAGE_REPORT>>>".toList

/-- The closers of `_SENTINEL_RE`. -/
def closers : List (List Char) :=
  ["<<<END_STAGE_REPORT>>>".toList, "<<<END_LOREGARDEN_STAGE_REPORT>>>".toList]

/-- `\s*`, at the head of a text. -/
def blanks (t : List Char) : ℕ := (t.takeWhile isSpace).length

/-- The opener and the blanks behind it, with a brace behind those. -/
def opens (t : List Char) : Option ℕ :=
  let rest := t.drop sentinel.length
  if sentinel <+: t ∧ (rest.drop (blanks rest)).head? = some '{' then
    some (sentinel.length + blanks rest)
  else none

def closes : List Char → Option ℕ
  | '}' :: rest =>
    (closers.find? fun closer => closer.isPrefixOf (rest.drop (blanks rest))).map fun closer =>
      1 + blanks rest + closer.length
  | _ => none

theorem opens_eq_some {t : List Char} {n : ℕ} (h : opens t = some n) :
    sentinel <+: t ∧ n = sentinel.length + blanks (t.drop sentinel.length) ∧
      (t.drop n).head? = some '{' := by
  rw [opens] at h
  split at h
  · rename_i hopen
    obtain rfl := Option.some.inj h
    refine ⟨hopen.1, rfl, ?_⟩
    rw [← drop_drop]
    exact hopen.2
  · cases h

theorem closes_eq_some {t : List Char} {m : ℕ} (h : closes t = some m) :
    ∃ rest, t = '}' :: rest ∧ ∃ closer ∈ closers, closer <+: rest.drop (blanks rest) ∧
      m = 1 + blanks rest + closer.length := by
  rw [closes.eq_def] at h
  split at h
  · rename_i rest
    obtain ⟨closer, hfind, rfl⟩ := Option.map_eq_some_iff.mp h
    have hprefix : closer.isPrefixOf (rest.drop (blanks rest)) = true := by
      simpa using List.find?_some hfind
    exact ⟨rest, rfl, closer, mem_of_find?_eq_some hfind, isPrefixOf_iff_prefix.mp hprefix, rfl⟩
  · cases h

theorem getElem?_of_isPrefixOf {p t : List Char} {k : ℕ} (h : p <+: t) (hk : k < p.length) :
    t[k]? = p[k]? := by
  obtain ⟨rest, rfl⟩ := h
  exact List.getElem?_append_left hk

theorem isSpace_of_lt_blanks {t : List Char} {k : ℕ} (h : k < blanks t) :
    ∃ c, t[k]? = some c ∧ isSpace c = true := by
  refine ⟨(t.takeWhile isSpace)[k], ?_, mem_takeWhile_imp (getElem_mem h)⟩
  rw [getElem?_of_isPrefixOf ( takeWhile_prefix _) h]
  exact List.getElem?_eq_getElem h

theorem opens_apart (t : List Char) (n : ℕ) (h : opens t = some n) (k : ℕ) (hk : k ≤ n) :
    closes (t.drop k) = none := by
  obtain ⟨hsentinel, hn, hbrace⟩ := opens_eq_some h
  cases hclose : closes (t.drop k) with
  | none => rfl
  | some m =>
    obtain ⟨rest, hrest, -⟩ := closes_eq_some hclose
    have hhead : t[k]? = some '}' := by
      rw [← List.head?_drop, hrest]
      rfl
    by_cases hin : k < sentinel.length
    · rw [getElem?_of_isPrefixOf hsentinel hin] at hhead
      have hnot : '}' ∉ sentinel := by decide
      exact absurd (mem_of_getElem? hhead) hnot
    · by_cases hlast : k = n
      · rw [hlast, ← List.head?_drop, hbrace] at hhead
        cases hhead
      · obtain ⟨c, hc, hspace⟩ := isSpace_of_lt_blanks (t := t.drop sentinel.length)
          (k := k - sentinel.length) (by omega)
        rw [List.getElem?_drop, Nat.add_sub_cancel' (not_lt.mp hin), hhead] at hc
        rw [← Option.some.inj hc] at hspace
        cases hspace

theorem sentinel_apart : ∀ closer ∈ closers, ∀ i < closer.length, ∃ j < sentinel.length,
    i + j < closer.length ∧ closer[i + j]? ≠ sentinel[j]? := by
  decide +kernel

theorem closes_separate (t : List Char) (m : ℕ) (h : closes t = some m) (k : ℕ) (hk : k < m) :
    opens (t.drop k) = none := by
  obtain ⟨rest, rfl, closer, hcloser, hprefix, hm⟩ := closes_eq_some h
  cases hopen : opens (('}' :: rest).drop k) with
  | none => rfl
  | some n =>
    obtain ⟨hsentinel, -, -⟩ := opens_eq_some hopen
    have hhead : ('}' :: rest)[k]? = some '<' := by
      rw [← Nat.add_zero k, ← List.getElem?_drop]
      exact getElem?_of_isPrefixOf hsentinel (by decide)
    cases k with
    | zero => cases hhead
    | succ k =>
      rw [List.getElem?_cons_succ] at hhead
      by_cases hblank : k < blanks rest
      · obtain ⟨c, hc, hspace⟩ := isSpace_of_lt_blanks hblank
        rw [hhead] at hc
        rw [← Option.some.inj hc] at hspace
        cases hspace
      · obtain ⟨j, hj, hlt, hne⟩ := sentinel_apart closer hcloser (k - blanks rest) (by omega)
        refine absurd ?_ hne
        rw [← getElem?_of_isPrefixOf hprefix hlt, ← getElem?_of_isPrefixOf hsentinel hj,
          drop_succ_cons, List.getElem?_drop, List.getElem?_drop]
        congr 1
        omega

/-- `_SENTINEL_RE`, less its group. -/
def sentinelRe : Delimiters Char where
  opens := opens
  closes := closes
  apart := opens_apart
  separate := closes_separate
  closes_pos := by
    intro t m h
    obtain ⟨rest, -, closer, -, -, rfl⟩ := closes_eq_some h
    omega
  closes_nil := rfl

/-- The group of a match: from the brace behind the opener to the brace of the closer. -/
def payloadOf (t : List Char) (found : Found) : List Char :=
  (t.drop found.inside).take (found.close + 1 - found.inside)

def findall (t : List Char) : List (List Char) := (sentinelRe.scan t).map (payloadOf t)

/-! ## The payload -/

inductive Status where
  | pass | fail | needsRework | blocked
  deriving DecidableEq

/-- `_VALID_STATUSES`. -/
def Status.ofText (t : List Char) : Option Status :=
  if t = "pass".toList then some .pass
  else if t = "fail".toList then some .fail
  else if t = "needs_rework".toList then some .needsRework
  else if t = "blocked".toList then some .blocked
  else none

inductive BlockKind where
  | harness | work | decision | humanAction | tickets | conflict
  deriving DecidableEq

def BlockKind.ofText (t : List Char) : Option BlockKind :=
  if t = "harness".toList then some .harness
  else if t = "work".toList then some .work
  else if t = "decision".toList then some .decision
  else if t = "human_action".toList then some .humanAction
  else if t = "tickets".toList then some .tickets
  else if t = "conflict".toList then some .conflict
  else none

inductive Number where
  | finite (q : ℚ)
  | infinite (negative : Bool)
  | nan

/-- `max(0.0, min(1.0, x))`. -/
def Number.clamped : Number → ℚ
  | finite q => max 0 (min 1 q)
  | infinite negative => if negative then 0 else 1
  | nan => 1

structure WaiverItem where
  name : List Char
  reason : List Char
  deriving DecidableEq

structure StageReport where
  status : Status
  confidence : ℚ
  rerouteToStage : Option (List Char)
  rerouteContext : List Char
  rerouteToAgent : Option (List Char)
  unmetCriteria : List (List Char)
  blockedKind : Option BlockKind
  options : List (List Char)
  kindAsWritten : List Char
  waitingOn : List (List Char)
  waivers : List WaiverItem
  deriving DecidableEq

structure ReportPayload where
  status : Option (List Char) := some []
  confidence : Option Number := some (.finite 0)
  rerouteToStage : Option (List Char) := none
  rerouteContext : Option (List Char) := some []
  rerouteToAgent : Option (List Char) := none

structure BlockPayload where
  blockedKind : Option (List Char) := none
  options : Option (List (List Char)) := none
  waitingOn : Option (List (List Char)) := none

/-- A value of `json.loads`. -/
inductive Json where
  | null
  | bool (b : Bool)
  | number (n : Number)
  | str (s : List Char)
  | arr (items : List Json)
  | obj (fields : List (List Char × Json))

/-- What `json.loads` does with a line. -/
inductive Loaded where
  | data (data : Json)
  /-- A `JSONDecodeError`. -/
  | decodeError
  /-- Another exception: the `RecursionError` of a nesting that is too deep, the `ValueError` of
      an integer with too many digits. -/
  | raised

/-- The libraries: `model_validate_json` of each payload, where `none` is a `ValidationError`, with
    each item of the waivers validated or not; `json.loads`; and `str.lower`. -/
structure Library where
  report : List Char → Option ReportPayload
  criteria : List Char → Option (Option (List (List Char)))
  waivers : List Char → Option (Option (List (Option WaiverItem)))
  block : List Char → Option BlockPayload
  loads : List Char → Loaded
  lower : List Char → List Char

variable (py : Library)

def strippedItems (items : Option (List (List Char))) : List (List Char) :=
  ((items.getD []).map (strip isSpace)).filter fun item => item ≠ []

def criteriaOf (payload : List Char) : List (List Char) :=
  match py.criteria payload with
  | some criteria => strippedItems criteria
  | none => []

def waiversOf (payload : List Char) : List WaiverItem :=
  match py.waivers payload with
  | some waivers =>
    ((waivers.getD []).filterMap fun item => item.map fun item =>
      (⟨strip isSpace item.name, strip isSpace item.reason⟩ : WaiverItem)).filter fun item =>
        item.name ≠ [] ∧ item.reason ≠ []
  | none => []

structure BlockFields where
  kind : Option BlockKind := none
  options : List (List Char) := []
  kindAsWritten : List Char := []
  waitingOn : List (List Char) := []

def kindOf (written : Option (List Char)) (waitingOn : List (List Char)) :
    Option BlockKind × List Char :=
  match written with
  | none | some [] => (none, [])
  | some written =>
    match BlockKind.ofText (py.lower (strip isSpace written)) with
    | none => (none, strip isSpace written)
    | some kind =>
      if kind = .tickets ∧ waitingOn = [] then (none, strip isSpace written)
      else (some kind, [])

def blockFieldsOf (payload : List Char) : BlockFields :=
  match py.block payload with
  | none => {}
  | some parsed =>
    let waitingOn := strippedItems parsed.waitingOn
    let kind := kindOf py parsed.blockedKind waitingOn
    { kind := kind.1
      options := strippedItems parsed.options
      kindAsWritten := kind.2
      waitingOn := if kind.1 = some .tickets then waitingOn else [] }

/-- `x or None`, of a text. -/
def orNone (t : Option (List Char)) : Option (List Char) := t.filter fun t => t ≠ []

def buildReport (payload : List Char) : Option StageReport :=
  (py.report payload).bind fun parsed =>
    (parsed.status.bind Status.ofText).map fun status =>
      let block := blockFieldsOf py payload
      { status := status
        confidence := (parsed.confidence.getD (.finite 0)).clamped
        rerouteToStage := orNone parsed.rerouteToStage
        rerouteContext := parsed.rerouteContext.getD []
        rerouteToAgent := orNone (parsed.rerouteToAgent.map (strip isSpace))
        unmetCriteria := criteriaOf py payload
        blockedKind := block.kind
        options := block.options
        kindAsWritten := block.kindAsWritten
        waitingOn := block.waitingOn
        waivers := waiversOf py payload }

mutual

def embeddedStrings : Json → List (List Char)
  | .str s => if sentinel <:+: s then [s] else []
  | .obj fields => embeddedInFields fields
  | .arr items => embeddedInItems items
  | _ => []

def embeddedInItems : List Json → List (List Char)
  | [] => []
  | item :: items => embeddedStrings item ++ embeddedInItems items

def embeddedInFields : List (List Char × Json) → List (List Char)
  | [] => []
  | (_, value) :: fields => embeddedStrings value ++ embeddedInFields fields

end

/-- What `_candidate_texts` yields for a line; `none` where `json.loads` raises what it does not
    catch. -/
def lineTexts (line : List Char) : Option (List (List Char)) :=
  let line := strip isSpace line
  if line.head? = some '{' ∧ sentinel <:+: line then
    match py.loads line with
    | .data data => some (embeddedStrings data)
    | .decodeError => some []
    | .raised => none
  else some []

def candidateTexts (stdout : List Char) : Option (List (List Char)) :=
  ((splitLines stdout).mapM (lineTexts py)).map fun texts => stdout :: texts.flatten

/-- `parse_stage_report`; `none` where it raises. -/
def parseStageReport (stdout : List Char) : Option (Option StageReport) :=
  if sentinel <:+: stdout then
    (candidateTexts py stdout).map fun texts =>
      (texts.flatMap findall).reverse.findSome? (buildReport py)
  else some none

end Loregarden.AgentOutput
