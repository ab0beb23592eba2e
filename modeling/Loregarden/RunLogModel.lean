import Loregarden.PythonText
import Loregarden.RunProofs
import Loregarden.SortedRowProofs
import Mathlib.Data.String.Basic

/-! # The live log of a run

`RunLogStreamer` keeps a window of lines and writes the ones that are new as rows of
`run_log_lines`, each with the sequence number it was given. Here are its window, its flushes under
`sqlite_write_retry` and the hydration of a new streamer. Whether an append goes on to flush is up
to the clock and the caller: a flush is an event of its own. Logs from before the rows are left
out. -/

namespace Loregarden.RunLog

open Text Ranked

/-- Where `$` matches. -/
def atEnd (s : List Char) : Bool := s = [] || s = ['\n']

/-- The parameters and intermediates of a CSI sequence. -/
def csiBody (s : List Char) : List Char :=
  s.takeWhile (fun c => '0' ≤ c && c ≤ '?') ++
    (s.dropWhile fun c => '0' ≤ c && c ≤ '?').takeWhile fun c => ' ' ≤ c && c ≤ '/'

/-- `_SEQUENCE_RE.match`: the length of the sequence a text starts with. -/
def sequenceLength : List Char → Option Nat
  | '\x1b' :: '[' :: s =>
    match s.drop (csiBody s).length with
    | c :: _ => if '@' ≤ c ∧ c ≤ '~' then some ((csiBody s).length + 3) else none
    | [] => none
  | '\x1b' :: ']' :: s =>
    let title := s.takeWhile fun c => c ≠ '\x07' && c ≠ '\x1b'
    match s.drop title.length with
    | '\x07' :: _ => some (title.length + 3)
    | '\x1b' :: '\\' :: _ => some (title.length + 4)
    | _ => none
  | '\x1b' :: c :: _ =>
    if ('@' ≤ c ∧ c ≤ 'Z') ∨ c = '\\' ∨ c = '^' ∨ c = '_' then some 2 else none
  | _ => none

/-- `_ANSI_RE.match`: a sequence cut off by the end of the text as well. -/
def ansiLength (s : List Char) : Option Nat :=
  match s with
  | '\x1b' :: '[' :: t =>
    if atEnd (t.drop (csiBody t).length) then some ((csiBody t).length + 2)
    else sequenceLength s
  | '\x1b' :: t => if atEnd t then some 1 else sequenceLength s
  | _ => none

/-- What is left of a text, the first characters being those of a sequence. -/
def dropSequences : Nat → List Char → List Char
  | _, [] => []
  | skip + 1, _ :: s => dropSequences skip s
  | 0, c :: s =>
    match ansiLength (c :: s) with
    | some (skip + 1) => dropSequences skip s
    | _ => c :: dropSequences 0 s

def stripAnsi (s : List Char) : List Char := dropSequences 0 s

/-! ## The log -/

structure LogLine where
  time : String := ""
  tag : String
  text : String
  deriving DecidableEq

/-- A row of `run_log_lines`. -/
structure RunLogLine where
  seq : Nat
  line : LogLine

structure LogArtifact where
  live : String := ""
  tailOffset : Nat := 0
  deriving DecidableEq

structure Store where
  artifact : Option LogArtifact := none
  rows : List RunLogLine := []

/-- A line of the window with its `_line_seq` and `_line_written`. -/
structure Entry where
  line : LogLine
  seq : Option Nat := none
  written : String := ""

structure Streamer where
  window : List Entry := []
  live : String := ""
  persistedSeq : Nat := 0
  droppedLines : Nat := 0
  tailOffset : Nat := 0

def maxLines : Nat := 1000

def maxLineChars : Nat := 32000

def maxReadLines : Nat := 1000

def maxAttempts : Nat := 4

def newestRows (store : Store) : List RunLogLine :=
  ranked (fun row : RunLogLine => -(row.seq : Int)) store.rows

def readable (line : LogLine) : LogLine :=
  { line with text := String.ofList (stripAnsi line.text.toList) }

def readLogLines (store : Store) : List LogLine :=
  ((newestRows store).take maxReadLines).reverse.map fun row => readable row.line

/-- `_hydrate`, of a streamer that was just made. -/
def hydrate (store : Store) : Streamer :=
  match store.artifact with
  | none => {}
  | some content =>
    let lines := readLogLines store
    let last := ((newestRows store).head?.map RunLogLine.seq).getD 0
    { window := lines.mapIdx fun i line =>
        { line := line, seq := some (last - lines.length + 1 + i), written := line.text }
      live := content.live
      persistedSeq := last
      droppedLines := last - lines.length
      tailOffset := content.tailOffset }

def formatted (time tag text : String) : List LogLine :=
  ((strip isSpace (stripAnsi text.toList)).toChunks maxLineChars).map fun chunk =>
    { time := time, tag := tag, text := String.ofList chunk }

/-- The window with new lines at its end, before it is trimmed. -/
def Streamer.extended (s : Streamer) (lines : List LogLine) : List Entry :=
  s.window ++ lines.map fun line => { line := line }

/-- `_append_chunks`, up to its flush. -/
def appendChunks (s : Streamer) (time tag text : String) : Streamer :=
  let window := s.extended (formatted time tag text)
  { s with
    window := window.drop (window.length - maxLines)
    droppedLines := s.droppedLines + (window.length - maxLines) }

/-- The place of the line that `start` edits, if the command is another. -/
def editedPlace (s : Streamer) (command : String) : Option Nat :=
  (s.window.findIdx? fun entry => entry.line.tag = "CMD").filter fun place =>
    s.window[place]?.any fun entry => entry.line.text ≠ command

/-- The edit of `start`, of a line that is there. -/
def editCommand (s : Streamer) (command : String) : Streamer :=
  match editedPlace s command with
  | some place => { s with
      window := s.window.modify place fun entry =>
        { entry with line := { entry.line with text := command } } }
  | none => s

/-- What the loop of `_persist` does with a line: the sequence number, the rows of its
    transaction, and the line's own bookkeeping. -/
def persistLine (seq : Nat) (rows : List RunLogLine) (entry : Entry) :
    Nat × List RunLogLine × Entry :=
  match entry.seq with
  | none =>
    (seq + 1, rows ++ [⟨seq + 1, entry.line⟩],
      { entry with seq := some (seq + 1), written := entry.line.text })
  | some assigned =>
    if entry.written = entry.line.text then (seq, rows, entry)
    else
      (seq, rows.modify (rows.findIdx fun row => row.seq = assigned) fun row =>
          { row with line := { row.line with text := entry.line.text } },
        { entry with written := entry.line.text })

/-- The loop of `_persist`. -/
def persistLines : Nat → List RunLogLine → List Entry → Nat × List RunLogLine × List Entry
  | seq, rows, [] => (seq, rows, [])
  | seq, rows, entry :: window =>
    let (seq', rows', entry') := persistLine seq rows entry
    let (seq'', rows'', window') := persistLines seq' rows' window
    (seq'', rows'', entry' :: window')

/-- An attempt that loses the lock when the loop is so many lines in: what its transaction
    wrote is gone, what it noted on the lines is not. -/
def failedAttempt (rows : List RunLogLine) (s : Streamer) (progress : Nat) : Streamer :=
  { s with
    window := (persistLines s.persistedSeq rows (s.window.take progress)).2.2 ++
      s.window.drop progress }

def committedAttempt (store : Store) (s : Streamer) : Streamer × Store :=
  ({ s with
      window := (persistLines s.persistedSeq store.rows s.window).2.2
      persistedSeq := (persistLines s.persistedSeq store.rows s.window).1 },
    { artifact := some { live := s.live, tailOffset := s.tailOffset }
      rows := (persistLines s.persistedSeq store.rows s.window).2.1 })

/-- `_persist` under `sqlite_write_retry`: the progress of the attempts that lose the lock, in
    order. It gives up where these are all it has. -/
def persist (store : Store) (s : Streamer) (fails : List Nat) : Streamer × Store :=
  let s' := (fails.take maxAttempts).foldl (failedAttempt store.rows) s
  if fails.length < maxAttempts then committedAttempt store s' else (s', store)

structure World where
  streamer : Streamer := {}
  store : Store := {}
  /-- Every formatted line appended so far, with the edits made since. -/
  log : List LogLine := []
  /-- The same, as of the last commit. -/
  saved : List LogLine := []

inductive Event where
  | append (time tag text : String)
  | edit (command : String)
  | setLive (text : String)
  | ingested (offset : Nat)
  | flush (fails : List Nat)
  /-- The process dies and a new one hydrates: what it had not committed is not of its log. -/
  | restart

def step (w : World) : Event → World
  | .append time tag text => { w with
      streamer := appendChunks w.streamer time tag text
      log := w.log ++ formatted time tag text }
  | .edit command => { w with
      streamer := editCommand w.streamer command
      log := match editedPlace w.streamer command with
        | some place => w.log.modify (w.log.length - w.streamer.window.length + place)
            fun line => { line with text := command }
        | none => w.log }
  | .setLive text => { w with streamer := { w.streamer with live := text } }
  | .ingested offset => { w with streamer := { w.streamer with tailOffset := offset } }
  | .flush fails => { w with
      streamer := (persist w.store w.streamer fails).1
      store := (persist w.store w.streamer fails).2
      saved := if fails.length < maxAttempts then w.log else w.saved }
  | .restart => { w with streamer := hydrate w.store, log := w.saved }

def Step (w : World) (e : Event) (w' : World) : Prop := step w e = w'

end Loregarden.RunLog
