import Loregarden.PythonText
import Mathlib.Data.List.Sort
import Mathlib.Data.List.Infix
import Mathlib.Algebra.GroupWithZero.Nat

/-! # Recognising a usage limit

`detect_usage_limit` looks for the first place of each limit phrase, takes the sentence around it,
passes over those that are warnings, and reads from the first other one which window is exhausted
and when it is over. A reader of resets may raise: a wait may be longer than a `timedelta`, or end
behind the last `datetime`. A moment is its microseconds since 1970; a wording that is formatted of
one is kept as that moment. -/

namespace Loregarden.UsageLimits

open Text Patterns

/-- `str.lower`; the digits that `\d` matches and `int` reads; `timedelta(seconds=ms / 1000)`,
    which may overflow; and `round(span.total_seconds() / 60)`. -/
structure Python where
  lower : List Char → List Char
  lower_nil : lower [] = []
  decimal : Char → Option ℕ
  fromMs : ℕ → Option ℕ
  roundMinutes : ℕ → ℕ

def find (p : List Char) : List Char → Option ℕ
  | [] => if p = [] then some 0 else none
  | c :: rest => if p <+: c :: rest then some 0 else (find p rest).map (· + 1)

/-- `text.find(p, index)`. -/
def findFrom (p t : List Char) (index : ℕ) : Option ℕ := (find p (t.drop index)).map (· + index)

/-- `text.rfind(p, 0, index)`. -/
def rfindTo (p t : List Char) (index : ℕ) : Option ℕ :=
  (List.range (index + 1)).reverse.find? fun k => p <+: (t.take index).drop k

/-- `sub in text`. -/
def holds (t : List Char) (p : String) : Bool := p.toList <:+: t

/-- `int`, of a text of digits: it refuses more than 4300. -/
def intOf (py : Python) (digits : List Char) : Option ℕ :=
  if 4300 < digits.length then none
  else some (digits.foldl (fun value c => 10 * value + (py.decimal c).getD 0) 0)

/-! ## Sentences -/

def limitPhrases : List String :=
  ["usage limit", "rate limit reached", "rate limit exceeded", "rate_limit_error",
    "you've reached your limit", "youve reached your limit", "you have reached your limit",
    "quota exceeded", "insufficient_quota", "out of credits", "no credits remaining",
    "monthly limit", "weekly limit", "you've hit your", "youve hit your", "you've reached your",
    "out of usage credits", "out of usage", "usage allocation has been disabled",
    "seat type doesn't include usage", "credit balance too low", "credit balance is too low"]

def cursorCodes : List (String × String) :=
  [("free_user_usage_limit", "free-plan usage limit"), ("pro_user_usage_limit", "Pro usage limit"),
    ("free_user_rate_limit_exceeded", "free-plan rate limit"),
    ("pro_user_rate_limit_exceeded", "Pro rate limit"),
    ("generic_rate_limit_exceeded", "rate limit"), ("rate_limited_changeable", "rate limit"),
    ("rate_limited", "rate limit"), ("usage_pricing_required_changeable", "usage-pricing limit"),
    ("usage_pricing_required", "usage-pricing limit"), ("pro_user_only", "plan limit"),
    ("resource_exhausted", "rate limit")]

def nonRefusalMarkers : List String :=
  ["not your usage limit", "temporarily limiting requests", "you're close to", "youre close to",
    "now using usage credits", "now using your usage allocation", "you're now using",
    "youre now using", "approaching", "fast limit reached", "fast mode",
    "will consume a substantial portion"]

def phrases : List String := limitPhrases ++ cursorCodes.map Prod.fst

def quoteLimit : ℕ := 300

/-- What `_sentence_around` shows of a sentence. -/
def shown (sentence : List Char) : List Char :=
  let quote := strip isSpace (strip (fun c => c = '"') (strip isSpace sentence))
  if quoteLimit < quote.length then rstrip isSpace (quote.take (quoteLimit - 1)) ++ ['…']
  else quote

/-- Where the sentence around a place starts and ends. -/
def sentenceStart (t : List Char) (index : ℕ) : ℕ :=
  max ((rfindTo ['\n'] t index).getD 0) (((rfindTo ['.', ' '] t index).map (· + 1)).getD 0)

def sentenceEnd (t : List Char) (index : ℕ) : ℕ :=
  min (((findFrom ['.', ' '] t index).map (· + 2)).getD t.length)
    (((findFrom ['\n'] t index).map (· + 1)).getD t.length)

def sentenceAround (t : List Char) (index : ℕ) : List Char :=
  shown ((t.drop (sentenceStart t index)).take (sentenceEnd t index - sentenceStart t index))

variable (py : Python)

def warns (sentence : List Char) : Bool := nonRefusalMarkers.any (holds (py.lower sentence))

def limitIndexes (lower : List Char) : List ℕ :=
  (phrases.filterMap fun p => find p.toList lower).dedup.insertionSort (· ≤ ·)

/-! ## Patterns -/

inductive Group where
  | epoch | month | day | year | hour | minute | ampm | ms | seconds | span | value | unit
  | scope | clock
  deriving DecidableEq

abbrev Pat := Pattern Group Char

/-- What a letter of a pattern matches under `re.IGNORECASE`: a letter of either case, and the
    four letters that fold to one of these. -/
def sameLetter (p c : Char) : Bool :=
  c = p || c = p.toUpper || c.toNat = 0x17F && p = 's' || c.toNat = 0x212A && p = 'k' ||
    (c.toNat = 0x130 || c.toNat = 0x131) && p = 'i'

def anyCase (s : String) : Pat := .literal sameLetter s.toList

def exactly (s : String) : Pat := .literal (fun p c => p = c) s.toList

def oneOf (s : String) : Pat := .one fun c => c ∈ s.toList

def inOrder (parts : List Pat) : Pat := parts.foldr .seq .empty

def oneOfThese (first : Pat) (rest : List Pat) : Pat := rest.foldl .alt first

def spaces (least : ℕ) : Pat := .many true isSpace least none

def digits (least : ℕ) (most : Option ℕ) : Pat :=
  .many true (fun c => (py.decimal c).isSome) least most

def monthName : Pat :=
  .group .month (.seq (.one fun c => 'A' ≤ c ∧ c ≤ 'Z')
    (.many true (fun c => 'a' ≤ c ∧ c ≤ 'z') 2 (some 8)))

def dayNumber : Pat :=
  .seq (.group .day (digits py 1 (some 2)))
    (.maybe (oneOfThese (exactly "st") [exactly "nd", exactly "rd", exactly "th"]))

def ampmMark : Pat :=
  .maybe (.group .ampm (inOrder [oneOf "AaPp", .maybe (oneOf "."), oneOf "Mm", .maybe (oneOf ".")]))

/-- `_EPOCH_RESET`. -/
def epochPattern : Pat :=
  inOrder [anyCase "usage limit reached", spaces 0, oneOf "|", spaces 0,
    .group .epoch (digits py 9 (some 13))]

/-- `_ABSOLUTE_RESET`. -/
def absolutePattern : Pat :=
  inOrder [
    oneOfThese (exactly "try again at")
      [inOrder [exactly "reset", .maybe (oneOf "s"), exactly " at"],
        exactly "available again at", exactly "retry at"],
    spaces 1, monthName, .maybe (oneOf "."), spaces 1, dayNumber py, .maybe (oneOf ","), spaces 1,
    .group .year (digits py 4 (some 4)), .maybe (oneOf ","), spaces 1,
    .group .hour (digits py 1 (some 2)), oneOf ":", .group .minute (digits py 2 (some 2)),
    spaces 0, ampmMark]

/-- `resets?(?:\s+at)?`. -/
def resetsAt : Pat :=
  inOrder [exactly "reset", .maybe (oneOf "s"), .maybe (.seq (spaces 1) (exactly "at"))]

def clockTime : Pat :=
  inOrder [.group .hour (digits py 1 (some 2)),
    .maybe (.seq (oneOf ":") (.group .minute (digits py 2 (some 2)))), spaces 0, ampmMark]

/-- `_DATE_RESET`. -/
def datePattern : Pat :=
  inOrder [resetsAt, spaces 1, monthName, .maybe (oneOf "."), spaces 1, dayNumber py,
    .maybe (inOrder [spaces 1, exactly "at", spaces 1, clockTime py])]

/-- `_CLOCK_RESET`. -/
def clockPattern : Pat :=
  inOrder [oneOfThese (exactly "try again at") [resetsAt, exactly "available again at"], spaces 1,
    .group .clock (clockTime py)]

def maybeDash : Pat := .maybe (oneOf "-_ ")

/-- `_RETRY_AFTER_MS`. -/
def retryAfterMsPattern : Pat :=
  inOrder [anyCase "retry", maybeDash, anyCase "after", maybeDash, anyCase "ms", oneOf "=:",
    spaces 0, .group .ms (digits py 1 none)]

/-- `_RETRY_AFTER_S`. -/
def retryAfterSPattern : Pat :=
  inOrder [anyCase "retry", maybeDash, anyCase "after", oneOf "=:", spaces 0,
    .group .seconds (digits py 1 none)]

/-- `_RELATIVE_RESET`. -/
def relativePattern : Pat :=
  inOrder [
    oneOfThese (anyCase "try again in")
      [inOrder [anyCase "reset", .maybe (anyCase "s"), anyCase " in"],
        .seq (anyCase "retry ") (oneOfThese (anyCase "in") [anyCase "after"])],
    spaces 1, .group .span (.many true (fun c => c ≠ '.' ∧ c ≠ '\n') 1 (some 60))]

def spanPart : Pat :=
  inOrder [.group .value (digits py 1 none), spaces 0, .group .unit (oneOfThese (anyCase "second")
      [anyCase "minute", anyCase "hour", anyCase "day"]), .maybe (anyCase "s")]

/-- `[A-Za-z0-9' ]`, under `re.IGNORECASE`. -/
def scopeLetter (c : Char) : Bool :=
  ('A' ≤ c && c ≤ 'Z') || ('a' ≤ c && c ≤ 'z') || ('0' ≤ c && c ≤ '9') || c = '\'' || c = ' ' ||
    c.toNat = 0x17F || c.toNat = 0x212A || c.toNat = 0x130 || c.toNat = 0x131

/-- `_CLAUDE_SCOPE`. -/
def claudeScopePattern : Pat :=
  inOrder [anyCase "you", .maybe (oneOf "'"), anyCase "ve ",
    oneOfThese (anyCase "hit") [anyCase "reached"], anyCase " your", spaces 1,
    .group .scope (.seq (.many false scopeLetter 0 (some 40)) (anyCase "limit"))]

/-! ## When it resets -/

inductive ResetText where
  /-- A moment, in UTC. -/
  | utc (moment : ℤ)
  | localTime (year month day hour minute : ℕ)
  | written (t : List Char)
  | minutes (n : ℕ)
  | underAMinute

structure Reset where
  resetAt : Option ℤ
  resetText : ResetText

/-- What a reader makes of a text: it reads a reset, or none; `none` where it raises. -/
abbrev Reading := Option (Option Reset)

/-- The last `datetime`. -/
def maxMoment : ℤ := 253402300799999999

def fromTimestamp (seconds : ℕ) : Option ℤ :=
  if (seconds : ℤ) * 1000000 ≤ maxMoment then some (seconds * 1000000) else none

/-- `now + span`. -/
def later (now : ℤ) (span : ℕ) : Option ℤ :=
  if now + span ≤ maxMoment then some (now + span) else none

/-- `timedelta(seconds=seconds)`. -/
def timedelta (seconds : ℕ) : Option ℕ :=
  if seconds / 86400 ≤ 999999999 then some (seconds * 1000000) else none

/-- `_MONTHS`, by the first three letters. -/
def months : List (String × ℕ) :=
  [("jan", 1), ("feb", 2), ("mar", 3), ("apr", 4), ("may", 5), ("jun", 6), ("jul", 7), ("aug", 8),
    ("sep", 9), ("oct", 10), ("nov", 11), ("dec", 12)]

def monthNumber (name : List Char) : Option ℕ :=
  months.lookup (String.ofList ((name.take 3).map Char.toLower))

def isLeap (year : ℕ) : Bool := (4 ∣ year && !100 ∣ year) || 400 ∣ year

def daysIn (year month : ℕ) : ℕ :=
  if month = 2 then (if isLeap year then 29 else 28)
  else if month ∈ [4, 6, 9, 11] then 30 else 31

def to24h (hour : ℕ) (ampm : Option (List Char)) : ℕ :=
  let meridiem := ((ampm.getD []).filter fun c => c ≠ '.').map Char.toLower
  if meridiem = "pm".toList ∧ hour < 12 then hour + 12
  else if meridiem = "am".toList ∧ hour = 12 then 0
  else hour

def taken (found : Captures Group Char) (name : Group) : List Char := (found.lookup name).getD []

/-- `int`, of a group of a few digits. -/
def number (found : Captures Group Char) (name : Group) : ℕ := (intOf py (taken found name)).getD 0

def epochReset (t : List Char) : Reading :=
  match (epochPattern py).search t with
  | none => some none
  | some found =>
    (intOf py (taken found .epoch)).bind fun value =>
      (fromTimestamp (if 10000000000 < value then value / 1000 else value)).map fun moment =>
        some ⟨some moment, .utc moment⟩

def absoluteReset (t : List Char) : Reading :=
  some (((absolutePattern py).search t).bind fun found =>
    (monthNumber (taken found .month)).bind fun month =>
      let year := number py found .year
      let day := number py found .day
      let hour := to24h (number py found .hour) (found.lookup .ampm)
      let minute := number py found .minute
      if 1 ≤ year ∧ 1 ≤ day ∧ day ≤ daysIn year month ∧ hour < 24 ∧ minute < 60 then
        some ⟨none, .localTime year month day hour minute⟩
      else none)

def dateReset (t : List Char) : Reading :=
  some (((datePattern py).search t).bind fun found =>
    (monthNumber (taken found .month)).map fun _ =>
      let date := taken found .month ++ [' '] ++ taken found .day
      let minute := if taken found .minute = [] then [] else ':' :: taken found .minute
      let clock := taken found .hour ++ minute ++ taken found .ampm
      ⟨none, .written (if taken found .hour = [] then date else date ++ " at ".toList ++ clock)⟩)

def waitText (span : ℕ) : ResetText :=
  if py.roundMinutes span = 0 then .underAMinute else .minutes (py.roundMinutes span)

/-- The span of `_retry_after_reset`, if it is not zero. -/
def retryAfterSpan (t : List Char) : Option (Option ℕ) :=
  match (retryAfterMsPattern py).search t with
  | some found =>
    (intOf py (taken found .ms)).bind fun ms =>
      if ms = 0 then some none else (py.fromMs ms).map some
  | none =>
    match (retryAfterSPattern py).search t with
    | some found =>
      (intOf py (taken found .seconds)).bind fun seconds =>
        if seconds = 0 then some none else (timedelta seconds).map some
    | none => some none

def retryAfterReset (now : ℤ) (t : List Char) : Reading :=
  (retryAfterSpan py t).bind fun span =>
    match span with
    | none => some none
    | some span => (later now span).map fun moment => some ⟨some moment, waitText py span⟩

def spanSeconds : List (String × ℕ) :=
  [("second", 1), ("minute", 60), ("hour", 3600), ("day", 86400)]

/-- The seconds of a part of a span; a unit that is not in the table raises. -/
def partSeconds (found : Captures Group Char) : Option ℕ :=
  (intOf py (taken found .value)).bind fun value =>
    (spanSeconds.lookup (String.ofList (py.lower (taken found .unit)))).map fun unit => value * unit

def parseSpan (span : List Char) : Option (Option ℕ) :=
  (((spanPart py).findall span).mapM (partSeconds py)).bind fun parts =>
    if parts.sum = 0 then some none else (timedelta parts.sum).map some

def relativeReset (now : ℤ) (t : List Char) : Reading :=
  match relativePattern.search t with
  | none => some none
  | some found =>
    (parseSpan py (taken found .span)).bind fun span =>
      match span with
      | none => some none
      | some span =>
        (later now span).map fun moment =>
          some ⟨some moment, .written ("in ".toList ++ strip isSpace (taken found .span))⟩

/-- `" ".join(text.split())`. -/
def squeezed (t : List Char) : List Char :=
  [' '].intercalate ((t.splitOnP isSpace).filter fun word => word ≠ [])

def clockReset (t : List Char) : Reading :=
  some (((clockPattern py).search t).bind fun found =>
    if to24h (number py found .hour) (found.lookup .ampm) < 24 ∧ number py found .minute < 60 then
      some ⟨none, .written (squeezed (taken found .clock))⟩
    else none)

def firstRead : List Reading → Reading
  | [] => some none
  | reading :: rest =>
    match reading with
    | some none => firstRead rest
    | other => other

def resolveReset (now : ℤ) (t : List Char) : Reading :=
  firstRead [epochReset py t, absoluteReset py t, dateReset py t, retryAfterReset py now t,
    relativeReset py now t, clockReset py t]

/-! ## The limit -/

inductive Provider where
  | codex | claude | cursor

def providerMarkers : List (Provider × List String) :=
  [(.codex, ["chatgpt.com", "codex", "openai"]),
    (.claude, ["claude", "anthropic", "usage-credits", "session limit", "weekly limit",
      "opus limit", "sonnet limit", "usage allocation", "usage credits"]),
    (.cursor, ["cursor.com", "cursor-agent", "cursor"])]

def detectProvider (lower : List Char) : Option Provider :=
  (providerMarkers.find? fun entry => entry.2.any (holds lower)).map Prod.fst

structure UsageLimit where
  provider : Option Provider
  resetAt : Option ℤ
  resetText : Option ResetText
  quote : List Char
  scope : List Char

def cursorScope (sentence : List Char) : List Char :=
  (((cursorCodes.find? fun code => holds (py.lower sentence) code.1).map Prod.snd).getD "").toList

def claudeScope (sentence : List Char) : List Char :=
  match claudeScopePattern.search sentence with
  | none => []
  | some found =>
    let scope := squeezed (taken found .scope)
    if py.lower scope = "limit".toList then [] else scope

/-- The reset of a refusal: that of its sentence, else that of the whole text. -/
def resetOf (now : ℤ) (t sentence : List Char) : Reading :=
  match resolveReset py now sentence with
  | some none => resolveReset py now t
  | reading => reading

/-- What `_first_refusal` makes of a refusal. -/
def refusal (now : ℤ) (t sentence : List Char) : Option UsageLimit :=
  (resetOf py now t sentence).map fun reset =>
    { provider :=
        (detectProvider (py.lower t)).orElse fun _ =>
          if cursorScope py sentence = [] then none else some .cursor
      resetAt := reset.bind Reset.resetAt
      resetText := reset.map Reset.resetText
      quote := sentence
      scope :=
        if cursorScope py sentence = [] then claudeScope py sentence
        else cursorScope py sentence }

/-- The loop of `_first_refusal`. -/
def refusalAmong (now : ℤ) (t : List Char) : List ℕ → Option (Option UsageLimit)
  | [] => some none
  | index :: rest =>
    if warns py (sentenceAround t index) then refusalAmong now t rest
    else (refusal py now t (sentenceAround t index)).map some

def firstRefusal (now : ℤ) (t : List Char) : Option (Option UsageLimit) :=
  refusalAmong py now t (limitIndexes (py.lower t))

/-- `detect_usage_limit`; `none` where it raises. -/
def detectUsageLimit (now : ℤ) : List (List Char) → Option (Option UsageLimit)
  | [] => some none
  | t :: rest =>
    if t = [] then detectUsageLimit now rest
    else
      match firstRefusal py now t with
      | some none => detectUsageLimit now rest
      | found => found

end Loregarden.UsageLimits
