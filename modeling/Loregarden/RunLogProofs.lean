import Loregarden.RunLogModel

/-! # The rows of a log are its lines

`_persist` marks a line as written before its transaction commits, and the window is trimmed whether
or not its lines were written; a line an attempt had gone over, or one trimmed too soon, never gets
its row. Away from both (`Careful`) a commit leaves exactly the lines appended so far, numbered from
one (`rows_complete`): the window is kept aligned with what is saved and with what was appended. -/

namespace Loregarden.RunLog

open Text Ranked Runs List Nat RunLogLine

variable {n : Nat} {front saved log : List LogLine} {window : List Entry} {w : World}

/-! ## Numbered rows -/

def numbered (lines : List LogLine) : List RunLogLine := lines.mapIdx fun i line => ⟨i + 1, line⟩

section

variable (lines : List LogLine)
include lines

theorem numbered_concat (line : LogLine) :
    numbered (lines ++ [line]) = numbered lines ++ [⟨lines.length + 1, line⟩] :=
  mapIdx_concat

omit lines in
theorem numbered_append_cons (front back : List LogLine) (line : LogLine) :
    numbered (front ++ line :: back) = numbered front ++ ⟨front.length + 1, line⟩ ::
      back.mapIdx fun i line => ⟨i + 1 + front.length + 1, line⟩ := by
  rw [numbered, mapIdx_append, mapIdx_cons, zero_add]
  rfl

theorem length_numbered : (numbered lines).length = lines.length := length_mapIdx

theorem numbered_lines : (numbered lines).map line = lines := by
  induction lines using List.reverseRecOn with
  | nil => rfl
  | append_singleton lines line ih =>
    rw [numbered_concat, map_append, ih]
    rfl

theorem numbered_seqs : (numbered lines).map seq = List.range' 1 lines.length := by
  induction lines using List.reverseRecOn with
  | nil => rfl
  | append_singleton lines line ih =>
    rw [numbered_concat, map_append, ih, length_append, length_singleton, List.range'_concat]
    simp [add_comm]

end

theorem seq_le_of_mem {row : RunLogLine} (h : row ∈ numbered front) : row.seq ≤ front.length := by
  obtain ⟨i, hi, rfl⟩ := mem_mapIdx.mp h
  exact hi

theorem modify_after {α : Type*} (f : α → α) (front back : List α) (x : α) :
    (front ++ x :: back).modify front.length f = front ++ f x :: back := by
  induction front with
  | nil => rfl
  | cons y front ih =>
    show y :: (front ++ x :: back).modify front.length f = _
    rw [ih]
    rfl

theorem modify_behind {α : Type*} (f : α → α) (front back : List α) (i : Nat) :
    (front ++ back).modify (front.length + i) f = front ++ back.modify i f := by
  induction front with
  | nil => rw [length_nil, zero_add]; rfl
  | cons y front ih =>
    rw [length_cons, add_right_comm]
    show y :: (front ++ back).modify (front.length + i) f = _
    rw [ih]
    rfl

theorem modify_numbered (f : LogLine → LogLine) (front back : List LogLine) (line : LogLine) :
    (numbered (front ++ line :: back)).modify
        ((numbered (front ++ line :: back)).findIdx fun row => row.seq = front.length + 1)
        (fun row => { row with line := f row.line }) =
      numbered (front ++ f line :: back) := by
  have hbefore : (numbered front).findIdx (fun row => row.seq = front.length + 1) =
      (numbered front).length := by
    refine findIdx_eq_length_of_false fun row hrow => decide_eq_false ?_
    exact Nat.ne_of_lt (Nat.lt_succ_of_le (seq_le_of_mem hrow))
  rw [numbered_append_cons, numbered_append_cons, findIdx_append, hbefore,
    if_neg (lt_irrefl _), findIdx_cons, decide_eq_true rfl, cond_true, zero_add,
    modify_after]

/-! ## The window -/

/-- The rows from a place on, the lines of the log from there, and the window: a written line
    has the number of its row, its text is there unless it was edited since, and the lines
    after the last row are not written. -/
inductive Aligned : Nat → List LogLine → List LogLine → List Entry → Prop where
  | fresh {n : Nat} {window : List Entry} (hfresh : ∀ e ∈ window, e.seq = none) :
      Aligned n [] (window.map Entry.line) window
  | written {n : Nat} {old line : LogLine} {e : Entry} {saved log : List LogLine}
      {window : List Entry} (hseq : e.seq = some (n + 1)) (htime : line.time = old.time)
      (htag : line.tag = old.tag) (hkept : e.written = e.line.text → line = old)
      (hedited : e.written ≠ e.line.text → line.text = e.line.text)
      (hrest : Aligned (n + 1) saved log window) :
      Aligned n (old :: saved) (line :: log) (e :: window)

theorem aligned_nil (n : Nat) : Aligned n [] [] [] := by
  show Aligned n [] (List.map Entry.line []) []
  exact .fresh (forall_mem_nil _)

def Entry.kept (e : Entry) : Bool := e.seq.isSome && e.written = e.line.text

section

variable (h : Aligned n saved log window)
include h

theorem Aligned.length : log.length = window.length := by
  induction h with
  | fresh => exact length_map _
  | written _ _ _ _ _ _ ih => rw [length_cons, length_cons, ih]

theorem Aligned.append (lines : List LogLine) : Aligned n saved (log ++ lines)
      (window ++ lines.map fun line => ({ line := line } : Entry)) := by
  induction h with
  | fresh hfresh =>
    rename_i n window
    have hlines : window.map Entry.line ++ lines =
        (window ++ lines.map fun line => ({ line := line } : Entry)).map Entry.line := by
      rw [map_append, map_map]
      exact congrArg _ (map_id _).symm
    rw [hlines]
    refine .fresh fun e he => ?_
    rcases mem_append.mp he with hold | hnew
    · exact hfresh e hold
    · obtain ⟨line, -, rfl⟩ := mem_map.mp hnew
      rfl
  | written hseq htime htag hkept hedited _ ih => exact .written hseq htime htag hkept hedited ih

theorem Aligned.drop (k : Nat)
    (hkept : ∀ e ∈ window.take k, e.kept = true) (hk : k ≤ window.length) :
    Aligned (n + k) (saved.drop k) (log.drop k) (window.drop k) ∧
      saved.take k = log.take k ∧ k ≤ saved.length := by
  induction h generalizing k with
  | fresh hfresh =>
    rename_i n window
    cases k with
    | zero => exact ⟨.fresh hfresh, rfl, le_refl 0⟩
    | succ k =>
      cases window with
      | nil => exact absurd hk (not_succ_le_zero k)
      | cons e window =>
        have hfirst := hkept e mem_cons_self
        rw [Entry.kept, hfresh e mem_cons_self] at hfirst
        exact nomatch hfirst
  | written hseq htime htag hline hedited hrest ih =>
    rename_i n old line e saved log window
    cases k with
    | zero => exact ⟨.written hseq htime htag hline hedited hrest, rfl, zero_le _⟩
    | succ k =>
      obtain ⟨haligned, htake, hle⟩ := ih k
        (fun e' he' => hkept e' (mem_cons_of_mem _ he')) (le_of_succ_le_succ hk)
      have hfirst := hkept e mem_cons_self
      have hsame : line = old := hline (of_decide_eq_true (Bool.and_eq_true_iff.mp hfirst).2)
      refine ⟨?_, ?_, succ_le_succ hle⟩
      · rw [add_right_comm] at haligned
        exact haligned
      · show old :: saved.take k = line :: log.take k
        rw [htake, hsame]

theorem Aligned.row (front : List LogLine) (hfront : front.length = n) {place : Nat} {e : Entry}
    {old : LogLine} (he : window[place]? = some e) (hold : saved[place]? = some old) :
    ∃ row ∈ numbered (front ++ saved), e.seq = some row.seq ∧ row.line.text = old.text := by
  induction h generalizing front place with
  | fresh => exact nomatch hold
  | written hseq htime htag hkept hedited hrest ih =>
    rename_i n line old' e' saved log window
    cases place with
    | zero =>
      obtain rfl := Option.some_inj.mp he
      obtain rfl := Option.some_inj.mp hold
      refine ⟨⟨front.length + 1, _⟩, ?_, ?_, rfl⟩
      · rw [numbered_append_cons]
        exact mem_append_right _ mem_cons_self
      · rw [hseq, hfront]
    | succ place =>
      obtain ⟨row, hrow, hrest⟩ := ih (front ++ [line]) (by simp [hfront]) he hold
      rw [append_assoc] at hrow
      exact ⟨row, hrow, hrest⟩

/-- An edit of a line of the window is one of the log's, unless it puts back a text the row
    does not have. -/
theorem Aligned.edit (place : Nat) (command : String)
    (hback : ∀ e old, window[place]? = some e → saved[place]? = some old →
      e.written = command → old.text = command) :
    Aligned n saved (log.modify place fun line => { line with text := command })
      (window.modify place fun e => { e with line := { e.line with text := command } }) := by
  induction h generalizing place with
  | fresh hfresh =>
    rename_i n window
    have hlines : (window.map Entry.line).modify place
        (fun line => { line with text := command }) =
        (window.modify place fun e =>
          { e with line := { e.line with text := command } }).map Entry.line := by
      apply ext_getElem?
      intro i
      rw [List.getElem?_modify, List.getElem?_map, List.getElem?_map, List.getElem?_modify]
      cases window[i]? with
      | none => rfl
      | some e =>
        by_cases hplace : place = i
        · simp [hplace]
        · simp [hplace]
    rw [hlines]
    refine .fresh fun e he => ?_
    obtain ⟨i, hi⟩ := mem_iff_getElem?.mp he
    rw [List.getElem?_modify] at hi
    obtain ⟨old, hold, rfl⟩ := Option.map_eq_some_iff.mp hi
    have hnone := hfresh old (mem_of_getElem? hold)
    split
    · exact hnone
    · exact hnone
  | written hseq htime htag hkept hedited hrest ih =>
    rename_i n old line e saved log window
    cases place with
    | zero =>
      refine .written hseq htime htag (fun hwritten => ?_) (fun _ => rfl) hrest
      have htext := hback e old rfl rfl hwritten
      show ({ line with text := command } : LogLine) = old
      rw [← htext, htime, htag]
    | succ place =>
      exact .written hseq htime htag hkept hedited (ih place hback)

omit h in
theorem persistLines_cons (seq : Nat) (rows : List RunLogLine) (e : Entry) :
    persistLines seq rows (e :: window) =
      ((persistLines (persistLine seq rows e).1 (persistLine seq rows e).2.1 window).1,
        (persistLines (persistLine seq rows e).1 (persistLine seq rows e).2.1 window).2.1,
        (persistLine seq rows e).2.2 ::
          (persistLines (persistLine seq rows e).1 (persistLine seq rows e).2.1 window).2.2) :=
  rfl

omit h in
theorem persistLines_fresh (front : List LogLine) (hfresh : ∀ e ∈ window, e.seq = none) :
    (persistLines front.length (numbered front) window).1 =
        (front ++ window.map Entry.line).length ∧
      (persistLines front.length (numbered front) window).2.1 =
        numbered (front ++ window.map Entry.line) ∧
      Aligned front.length (window.map Entry.line) (window.map Entry.line)
        (persistLines front.length (numbered front) window).2.2 := by
  induction window generalizing front with
  | nil =>
    rw [map_nil, append_nil]
    exact ⟨rfl, rfl, aligned_nil _⟩
  | cons e window ih =>
    have hline : persistLine front.length (numbered front) e =
        ((front ++ [e.line]).length, numbered (front ++ [e.line]),
          { e with seq := some (front.length + 1), written := e.line.text }) := by
      rw [numbered_concat, length_append, length_singleton]
      unfold persistLine
      rw [hfresh e mem_cons_self]
    obtain ⟨hseq, hrows, hwindow⟩ := ih (front ++ [e.line])
      fun e' he' => hfresh e' (mem_cons_of_mem _ he')
    rw [append_assoc] at hseq hrows
    rw [length_append, length_singleton] at hwindow
    rw [persistLines_cons, hline]
    refine ⟨hseq, hrows, .written rfl rfl rfl (fun _ => rfl) (fun _ => rfl) ?_⟩
    rw [length_append, length_singleton]
    exact hwindow

/-- **A commit writes the log**: from an aligned window, the rows become those of the lines
    appended so far, and every line of the window is kept. -/
theorem Aligned.persist (front : List LogLine) (hfront : front.length = n) :
    (persistLines (front ++ saved).length (numbered (front ++ saved)) window).1 =
        (front ++ log).length ∧
      (persistLines (front ++ saved).length (numbered (front ++ saved)) window).2.1 =
        numbered (front ++ log) ∧
      Aligned n log log
        (persistLines (front ++ saved).length (numbered (front ++ saved)) window).2.2 := by
  induction h generalizing front with
  | fresh hfresh =>
    rw [append_nil, ← hfront]
    exact persistLines_fresh front hfresh
  | written hseq htime htag hkept hedited hrest ih =>
    rename_i n old line e saved log window
    obtain ⟨eline, eseq, ewritten⟩ := e
    obtain rfl : eseq = some (n + 1) := hseq
    -- the row becomes that of the line of the log, and the line is written
    have hline : persistLine (front ++ old :: saved).length (numbered (front ++ old :: saved))
          ⟨eline, some (n + 1), ewritten⟩ =
        ((front ++ line :: saved).length, numbered (front ++ line :: saved),
          ⟨eline, some (n + 1), eline.text⟩) := by
      have hlength : (front ++ old :: saved).length = (front ++ line :: saved).length := by
        rw [length_append, length_append]
        rfl
      by_cases hwritten : ewritten = eline.text
      · rw [← hkept hwritten]
        show (if ewritten = eline.text then _ else _) = _
        rw [if_pos hwritten, ← hwritten]
      · have hnew : line = { old with text := eline.text } := by
          rw [← hedited hwritten, ← htime, ← htag]
        show (if ewritten = eline.text then _ else _) = _
        rw [if_neg hwritten, ← hfront, modify_numbered (fun line =>
          { line with text := eline.text }), hlength, hnew]
    obtain ⟨hseq', hrows, hwindow⟩ := ih (front ++ [line]) (by simp [hfront])
    rw [append_assoc, append_assoc] at hseq' hrows
    rw [append_assoc] at hwindow
    rw [persistLines_cons, hline]
    exact ⟨hseq', hrows, .written rfl rfl rfl (fun _ => rfl) (fun hne => absurd rfl hne) hwindow⟩

end

theorem persistLines_kept (seq : Nat) (rows : List RunLogLine)
    (hkept : ∀ e ∈ window, e.kept = true) : (persistLines seq rows window).2.2 = window := by
  induction window generalizing seq rows with
  | nil => rfl
  | cons e window ih =>
    have hline : persistLine seq rows e = (seq, rows, e) := by
      obtain ⟨hseq, hwritten⟩ := Bool.and_eq_true_iff.mp (hkept e mem_cons_self)
      obtain ⟨assigned, hassigned⟩ := Option.isSome_iff_exists.mp hseq
      unfold persistLine
      rw [hassigned]
      exact if_pos (of_decide_eq_true hwritten)
    rw [persistLines_cons, hline, ih _ _ fun e' he' => hkept e' (mem_cons_of_mem _ he')]

theorem failedAttempts_kept (rows : List RunLogLine) (s : Streamer) (fails : List Nat)
    (hkept : ∀ progress ∈ fails, ∀ e ∈ s.window.take progress, e.kept = true) :
    fails.foldl (failedAttempt rows) s = s := by
  induction fails with
  | nil => rfl
  | cons progress fails ih =>
    have hone : failedAttempt rows s progress = s := by
      rw [failedAttempt, persistLines_kept _ _ (hkept progress mem_cons_self), take_append_drop]
    rw [foldl_cons, hone]
    exact ih fun other hother => hkept other (mem_cons_of_mem _ hother)

/-! ## A new process -/

theorem numbered_ascending (lines : List LogLine) : Ascending seq (numbered lines) := by
  induction lines using List.reverseRecOn with
  | nil => exact .nil
  | append_singleton lines line ih =>
    rw [Ascending, numbered_concat, pairwise_append]
    refine ⟨ih, pairwise_singleton _ _, fun a ha b hb => ?_⟩
    rw [mem_singleton.mp hb]
    exact lt_succ_of_le (seq_le_of_mem ha)

theorem newestRows_numbered {store : Store} (h : store.rows = numbered saved) :
    newestRows store = (numbered saved).reverse := by
  rw [newestRows, h]
  refine ranked_eq (reverse_perm _) ?_
  rw [Ascending, pairwise_reverse]
  exact (numbered_ascending saved).imp fun hlt => Int.neg_lt_neg (Int.ofNat_lt.mpr hlt)

theorem newest_numbered {store : Store} (h : store.rows = numbered saved) :
    ((newestRows store).head?.map seq).getD 0 = saved.length := by
  rw [newestRows_numbered h]
  cases saved using List.reverseRecOn with
  | nil => rfl
  | append_singleton saved line =>
    rw [numbered_concat, reverse_append, length_append]
    rfl

/-- The window of lines read back from the rows behind a place. -/
def hydrated (n : Nat) (lines : List LogLine) : List Entry :=
  lines.mapIdx fun i line => { line := line, seq := some (n + 1 + i), written := line.text }

theorem hydrated_cons (n : Nat) (line : LogLine) (lines : List LogLine) :
    hydrated n (line :: lines) =
      { line := line, seq := some (n + 1), written := line.text } :: hydrated (n + 1) lines := by
  have hshift : ∀ i, n + 1 + (i + 1) = n + 1 + 1 + i := fun i => add_right_comm (n + 1) i 1
  rw [hydrated, mapIdx_cons, hydrated]
  refine congrArg _ (mapIdx_eq_mapIdx_iff.mpr fun i hi => ?_)
  rw [hshift]

theorem aligned_readable (n : Nat) (lines : List LogLine) :
    Aligned n lines lines (hydrated n (lines.map readable)) := by
  induction lines generalizing n with
  | nil => exact aligned_nil n
  | cons line lines ih =>
    rw [map_cons, hydrated_cons]
    exact .written rfl rfl rfl (fun _ => rfl) (fun hne => absurd rfl hne) (ih (n + 1))

theorem readLogLines_numbered {store : Store} (h : store.rows = numbered saved) :
    readLogLines store = (saved.drop (saved.length - maxReadLines)).map readable := by
  have hread : (fun row : RunLogLine => readable row.line) = readable ∘ line := rfl
  rw [readLogLines, newestRows_numbered h, take_reverse, reverse_reverse,
    length_numbered, hread, ← map_map, map_drop, numbered_lines]

/-! ## Careful runs -/

/-- What keeps the defects away: an append drops no line from the window that is not kept in
    its row; an edit does not put a line back to the text it was read with, where its row has
    another; and an attempt that loses the lock does so before it reached a line to write. -/
def Careful (w : World) : Event → Prop
  | .append time tag text =>
    ∀ e ∈ (w.streamer.extended (formatted time tag text)).take
      ((w.streamer.extended (formatted time tag text)).length - maxLines), e.kept = true
  | .edit command =>
    ∀ place e row, editedPlace w.streamer command = some place →
      w.streamer.window[place]? = some e → e.written = command → row ∈ w.store.rows →
      e.seq = some row.seq → row.line.text = command
  | .flush fails =>
    ∀ progress ∈ fails.take maxAttempts, ∀ e ∈ w.streamer.window.take progress, e.kept = true
  | .setLive _ | .ingested _ | .restart => True

structure Good (w : World) : Prop where
  rows : w.store.rows = numbered w.saved
  persisted : w.streamer.persistedSeq = w.saved.length
  artifact : w.store.artifact = none → w.saved = []
  window : ∃ front saved log, w.saved = front ++ saved ∧ w.log = front ++ log ∧
    Aligned front.length saved log w.streamer.window

section

variable (h : Good w)
include h

theorem Good.append (time tag text : String)
    (hcareful : Careful w (.append time tag text)) : Good (step w (.append time tag text)) := by
  obtain ⟨front, saved, log, hsaved, hlog, haligned⟩ := h.window
  have hstep : step w (.append time tag text) = { w with
      streamer := { w.streamer with
        window := (w.streamer.extended (formatted time tag text)).drop
          ((w.streamer.extended (formatted time tag text)).length - maxLines)
        droppedLines := w.streamer.droppedLines +
          ((w.streamer.extended (formatted time tag text)).length - maxLines) }
      log := w.log ++ formatted time tag text } := by
    rfl
  have hextended : Aligned front.length saved (log ++ formatted time tag text)
      (w.streamer.extended (formatted time tag text)) := haligned.append _
  rw [Careful] at hcareful
  rw [hstep]
  generalize hk : (w.streamer.extended (formatted time tag text)).length - maxLines = k
    at hcareful ⊢
  obtain ⟨hdropped, htake, hle⟩ := hextended.drop k hcareful (hk ▸ sub_le _ _)
  refine ⟨h.rows, h.persisted, h.artifact, front ++ saved.take k, saved.drop k,
    (log ++ formatted time tag text).drop k, ?_, ?_, ?_⟩
  · rw [append_assoc, take_append_drop]
    exact hsaved
  · show w.log ++ formatted time tag text = _
    rw [hlog, htake, append_assoc, append_assoc, take_append_drop]
  · rw [length_append, length_take, min_eq_left hle]
    exact hdropped

theorem Good.edit (command : String) (hcareful : Careful w (.edit command)) :
    Good (step w (.edit command)) := by
  obtain ⟨front, saved, log, hsaved, hlog, haligned⟩ := h.window
  cases hplace : editedPlace w.streamer command with
  | none =>
    have hsame : step w (.edit command) = w := by
      show ({ w with streamer := editCommand w.streamer command, log := _ } : World) = w
      rw [editCommand, hplace]
    rw [hsame]
    exact h
  | some place =>
    have hstep : step w (.edit command) = { w with
        streamer := { w.streamer with
          window := w.streamer.window.modify place fun e =>
            { e with line := { e.line with text := command } } }
        log := w.log.modify (w.log.length - w.streamer.window.length + place)
          fun line => { line with text := command } } := by
      show ({ w with streamer := editCommand w.streamer command, log := _ } : World) = _
      rw [editCommand, hplace]
    rw [hstep]
    refine ⟨h.rows, h.persisted, h.artifact, front, saved,
      log.modify place fun line => { line with text := command }, hsaved, ?_, ?_⟩
    · -- the window is the end of the log
      have hfront : w.log.length - w.streamer.window.length + place = front.length + place := by
        rw [hlog, length_append, haligned.length, Nat.add_sub_cancel]
      show w.log.modify _ _ = _
      rw [hfront, hlog]
      exact modify_behind _ _ _ _
    · refine haligned.edit place command fun e old he hold hwritten => ?_
      obtain ⟨row, hrow, hseq, htext⟩ := haligned.row front rfl he hold
      refine htext ▸ hcareful place e row hplace he hwritten ?_ hseq
      rw [h.rows, hsaved]
      exact hrow

theorem Good.flush (fails : List Nat) (hcareful : Careful w (.flush fails)) :
    Good (step w (.flush fails)) ∧ (fails.length < maxAttempts →
      (step w (.flush fails)).store.rows = numbered w.log) := by
  obtain ⟨front, saved, log, hsaved, hlog, haligned⟩ := h.window
  have hpersist : persist w.store w.streamer fails =
      if fails.length < maxAttempts then committedAttempt w.store w.streamer
      else (w.streamer, w.store) := by
    unfold persist
    rw [failedAttempts_kept _ _ _ hcareful]
  by_cases hcommits : fails.length < maxAttempts
  · have hstep : step w (.flush fails) = { w with
        streamer := (committedAttempt w.store w.streamer).1
        store := (committedAttempt w.store w.streamer).2
        saved := w.log } := by
      show ({ w with
        streamer := (persist w.store w.streamer fails).1
        store := (persist w.store w.streamer fails).2
        saved := if fails.length < maxAttempts then w.log else w.saved } : World) = _
      rw [hpersist, if_pos hcommits, if_pos hcommits]
    obtain ⟨hseq, hrows, hwindow⟩ := haligned.persist front rfl
    rw [← hsaved, ← hlog, ← h.persisted, ← h.rows] at hseq hrows
    rw [← hsaved, ← h.persisted, ← h.rows] at hwindow
    rw [hstep]
    exact ⟨⟨hrows, hseq, nofun, front, log, log, hlog, hlog, hwindow⟩, fun _ => hrows⟩
  · have hstep : step w (.flush fails) = w := by
      show ({ w with
        streamer := (persist w.store w.streamer fails).1
        store := (persist w.store w.streamer fails).2
        saved := if fails.length < maxAttempts then w.log else w.saved } : World) = _
      rw [hpersist, if_neg hcommits, if_neg hcommits]
    rw [hstep]
    exact ⟨h, fun hlt => absurd hlt hcommits⟩

theorem Good.restart : Good (step w .restart) := by
  have hstep : step w .restart = { w with streamer := hydrate w.store, log := w.saved } := rfl
  rw [hstep]
  cases hartifact : w.store.artifact with
  | none =>
    have hnothing := h.artifact hartifact
    have hhydrate : hydrate w.store = {} := by
      unfold hydrate
      rw [hartifact]
    rw [hhydrate]
    refine ⟨h.rows, ?_, h.artifact, [], [], [], hnothing, hnothing, aligned_nil _⟩
    rw [hnothing]
    rfl
  | some content =>
    -- the window is the end of the saved lines, as they are read
    have hlines := readLogLines_numbered h.rows
    have hlast := newest_numbered h.rows
    have hlength : (readLogLines w.store).length =
        w.saved.length - (w.saved.length - maxReadLines) := by
      rw [hlines, length_map, length_drop]
    have hbefore : w.saved.length - (readLogLines w.store).length =
        w.saved.length - maxReadLines := by
      rw [hlength, Nat.sub_sub_self (Nat.sub_le _ _)]
    have hhydrate : hydrate w.store =
        { window := hydrated (w.saved.length - maxReadLines)
            ((w.saved.drop (w.saved.length - maxReadLines)).map readable)
          live := content.live
          persistedSeq := w.saved.length
          droppedLines := w.saved.length - maxReadLines
          tailOffset := content.tailOffset } := by
      unfold hydrate
      rw [hartifact]
      show ({ window := _, live := _, persistedSeq := _, droppedLines := _, tailOffset := _ } :
        Streamer) = _
      rw [hlast, hbefore, hlines]
      rfl
    rw [hhydrate]
    generalize hk : w.saved.length - maxReadLines = k
    have hfront : (w.saved.take k).length = k := by
      rw [length_take, min_eq_left (hk ▸ sub_le _ _)]
    refine ⟨h.rows, rfl, h.artifact, w.saved.take k, w.saved.drop k, w.saved.drop k,
      (take_append_drop k _).symm, (take_append_drop k _).symm, ?_⟩
    rw [hfront]
    exact aligned_readable k _

theorem Good.step (e : Event) (hcareful : Careful w e) : Good (step w e) := by
  cases e with
  | append time tag text => exact h.append time tag text hcareful
  | edit command => exact h.edit command hcareful
  | setLive text | ingested offset => exact ⟨h.rows, h.persisted, h.artifact, h.window⟩
  | flush fails => exact (h.flush fails hcareful).1
  | restart => exact h.restart

end

/-- **The rows of a log are complete**: after each commit of a careful run, they are numbered from
    one without a gap, and their lines are those appended so far with the edits made since. -/
theorem rows_complete {tr : List Event} (hrun : Run (Guarded Step Careful) {} tr w)
    (fails : List Nat) (hcareful : Careful w (.flush fails))
    (hcommits : fails.length < maxAttempts) :
    (step w (.flush fails)).store.rows.map RunLogLine.seq = List.range' 1 w.log.length ∧
      (step w (.flush fails)).store.rows.map RunLogLine.line = w.log := by
  have hstart : Good {} := ⟨rfl, rfl, fun _ => rfl, [], [], [], rfl, rfl, aligned_nil _⟩
  have hgood : Good w := by
    refine hrun.invariant ?_ hstart
    rintro s e t hs ⟨hcareful, rfl⟩
    exact hs.step e hcareful
  rw [(hgood.flush fails hcareful).2 hcommits]
  exact ⟨numbered_seqs _, numbered_lines _⟩

/-- A queued run is reattached with its command, by a new process. -/
def reattached : List Event :=
  [.append "09:00" "RUN" "reviewer invoked", .append "09:00" "CMD" "queued", .flush [], .restart,
    .edit "claude -p", .append "09:01" "OUT" " found two defects\n"]

theorem rows_complete_reattached :
    (step (reattached.foldl step {}) (.flush [0, 1])).store.rows.map RunLogLine.seq =
        List.range' 1 (reattached.foldl step {}).log.length ∧
      (reattached.foldl step {}).log.map LogLine.text =
        ["reviewer invoked", "claude -p", "found two defects"] := by
  have hrun : Run (Guarded Step Careful) {} reattached (reattached.foldl step {}) := by
    refine .cons ⟨?_, rfl⟩ (.cons ⟨?_, rfl⟩ (.cons ⟨nofun, rfl⟩ (.cons ⟨trivial, rfl⟩
      (.cons ⟨?_, rfl⟩ (.cons ⟨?_, rfl⟩ (.nil _))))))
    · rw [Careful]
      decide +kernel
    · rw [Careful]
      decide +kernel
    · intro place e row hplace he hwritten _ _
      obtain rfl : 1 = place := by
        rw [← Option.some_inj, ← hplace]
        decide +kernel
      obtain rfl := Option.some_inj.mp he
      exact absurd hwritten (by decide +kernel)
    · rw [Careful]
      decide +kernel
  have hcareful : Careful (reattached.foldl step {}) (.flush [0, 1]) := by
    rw [Careful]
    decide +kernel
  exact ⟨(rows_complete hrun [0, 1] hcareful (by decide)).1, by decide +kernel⟩

/-- An attempt loses the lock at its commit, and the next one has nothing left to write. -/
theorem line_lost : Run Step {} [.append "" "OUT" "the verdict", .flush [1]]
        ([.append "" "OUT" "the verdict", .flush [1]].foldl step {}) ∧
      ([.append "" "OUT" "the verdict", .flush [1]].foldl step {}).store.artifact = some {} ∧
      ([.append "" "OUT" "the verdict", .flush [1]].foldl step {}).store.rows = [] ∧
      ([.append "" "OUT" "the verdict", .flush [1]].foldl step {}).log =
        [{ tag := "OUT", text := "the verdict" }] :=
  ⟨Run.of_foldl (fun _ _ => rfl) _ _, by decide +kernel, by decide +kernel, by decide +kernel⟩

end Loregarden.RunLog

