import Loregarden.PermissionBridgeModel

/-! # Every permission request is answered once

The loop holds one request at a time: the ids it has read are the ids it has answered, and then the
one it waits on. `every_request_answered` carries this through every run that is `orderly`: while a
request waits, the CLI prints no other and does not end by itself, and a request that is read is
decided without an exception. -/

namespace Loregarden.Bridge

open List Option LoopState

variable {loads : String → Option Json} {render : Json → String} {config : Config}
variable {t : Turn} {st : LoopState}

/-! ## What holds of the loop -/

def LoopState.waiting (st : LoopState) : List String := (st.pending.map Pending.requestId).toList

/-- The ids that were read are those that were answered and the one that waits. -/
def Answered (st : LoopState) : Prop := st.asked = st.answered ++ st.waiting

def lineRequest (loads : String → Option Json) (render : Json → String) (t : Turn) :
    Option PermissionRequest :=
  t.line.bind fun raw => (parseLine loads (chomp raw)).bind (requestOf render)

def Decision.isRaised : Decision → Bool
  | .raised _ => true
  | _ => false

/-- While a request waits, the process lives and prints no other. -/
def quietWhileWaiting (loads : String → Option Json) (render : Json → String) (t : Turn) : Bool :=
  !t.exited && (t.resolution.isSome || (lineRequest loads render t).isNone)

/-- A request that is read is decided, and a question has its list of questions. -/
def decidesRequest (t : Turn) (request : PermissionRequest) : Bool :=
  !t.decision.isRaised &&
    (request.toolName ≠ askUserQuestionTool || questionsRead request.toolInput)

def turnMeets (loads : String → Option Json) (render : Json → String) (st : LoopState)
    (t : Turn) : Bool :=
  if st.pending.isSome then quietWhileWaiting loads render t
  else (lineRequest loads render t).all (decidesRequest t)

/-- Every turn meets it, and a process whose request still waits at the end of the loop has
    not ended by itself. -/
def orderly (loads : String → Option Json) (render : Json → String) (config : Config)
    (f : Finish) (st : LoopState) : List Turn → Bool
  | [] => true
  | t :: turns => turnMeets loads render st t &&
      match turn loads render config st t with
      | .again st' => orderly loads render config f st' turns
      | .leave st' => st'.pending.isNone || f.exited.isNone && f.waited.isNone
      | _ => true

/-- What is to hold when the loop has got somewhere: nothing is answered twice, and unless the
    process was killed each request has its answer; a success leaves none open. -/
inductive AllAnswered : Progress → Prop where
  | running {st : LoopState} (h : Answered st) : AllAnswered (.running st)
  | ended {st : LoopState} {r : BridgeResult} (once : ∃ rest, st.asked = st.answered ++ rest)
      (unlessKilled : r.killed = false → st.asked = st.answered)
      (success : r.status = .succeeded → st.asked = st.answered) : AllAnswered (.ended st r)
  | raised {st : LoopState} {error : String} (h : st.asked = st.answered) :
      AllAnswered (.raised st error)

def Kept : LoopStep → Prop
  | .again st => Answered st
  | .leave st => Answered st
  | .result st r => (∃ rest, st.asked = st.answered ++ rest) ∧ r.killed = true ∧
      r.status ≠ .succeeded
  | .raised st _ => st.asked = st.answered

@[simp] theorem answered_response (st : LoopState) (requestId : String) (approved : Bool)
    (message : String) (updatedInput : Option Dict) :
    (st.write (buildControlResponse requestId approved message updatedInput)).answered =
      st.answered ++ [requestId] := by
  unfold buildControlResponse answered write
  cases approved <;> simp [Message.answers]

@[simp] theorem answered_fast (st : LoopState) (requestId : String) (answer : FastAnswer) :
    (st.write (answer.response requestId)).answered = st.answered ++ [requestId] := by
  cases answer <;> exact answered_response st requestId _ _ _

@[simp] theorem answered_user (st : LoopState) (content sessionId : String) :
    (st.write (.user content sessionId)).answered = st.answered := by
  simp [answered, write, Message.answers]

theorem deliverSteerMessages_keeps (st : LoopState) (t : Turn) :
    (deliverSteerMessages st t).asked = st.asked ∧
      (deliverSteerMessages st t).answered = st.answered ∧
      (deliverSteerMessages st t).pending = st.pending := by
  unfold deliverSteerMessages
  induction t.steer generalizing st with
  | nil => exact ⟨rfl, rfl, rfl⟩
  | cons content steer ih =>
    obtain ⟨hasked, hanswered, hpending⟩ := ih (st.write (.user content st.sessionId))
    exact ⟨hasked, hanswered.trans (answered_user st content _), hpending⟩

/-! ## The two modes -/

theorem noteInit_keeps (render : Json → String) (st : LoopState) (payload : Dict) :
    (st.noteInit render payload).asked = st.asked ∧
      (st.noteInit render payload).answered = st.answered ∧
      (st.noteInit render payload).pending = st.pending := by
  unfold noteInit
  split <;> exact ⟨rfl, rfl, rfl⟩

theorem lineRequest_eq {raw : String} {payload : Dict} (hline : t.line = some raw)
    (hpayload : parseLine loads (chomp raw) = some payload) :
    lineRequest loads render t = requestOf render payload := by
  rw [lineRequest, hline, bind_some, hpayload, bind_some]

theorem continueWhileAwaiting_kept (h : Answered st) (hnone : lineRequest loads render t = none) :
    Kept (continueWhileAwaiting loads render config st t) := by
  unfold continueWhileAwaiting
  split
  · exact h
  · rename_i raw hline
    dsimp only
    split
    · exact h
    · rename_i payload hpayload
      rw [lineRequest_eq hline hpayload] at hnone
      rw [hnone]
      split <;> exact h

theorem handlePendingApproval_kept {pending : Pending} (h : Answered st)
    (hpending : st.pending = some pending) (hquiet : quietWhileWaiting loads render t = true) :
    Kept (handlePendingApproval loads render config st pending t) := by
  have hwaits : st.asked = st.answered ++ [pending.requestId] := by
    rw [h, waiting, hpending]
    rfl
  unfold handlePendingApproval
  split
  · exact ⟨⟨_, hwaits⟩, rfl, nofun⟩
  · split
    · rename_i hresolution
      have hlives : t.exited = false ∧ lineRequest loads render t = none := by
        simpa [quietWhileWaiting, hresolution] using hquiet
      exact continueWhileAwaiting_kept h hlives.2
    · extract_lets allowInput st'
      have hanswered : st'.asked = st'.answered := by
        show st.asked = _
        rw [hwaits]
        exact (answered_response { st with pending := none } pending.requestId _ _ _).symm
      split
      · exact ⟨⟨[], by rw [hanswered, append_nil]⟩, rfl, nofun⟩
      · show st'.asked = st'.answered ++ []
        rw [append_nil, hanswered]

theorem handleRequest_kept {request : PermissionRequest}
    (h : st.asked = st.answered) (hpending : st.pending = none)
    (hdecides : decidesRequest t request = true) : Kept (handleRequest config st request t) := by
  obtain ⟨hdecided, hquestions⟩ := Bool.and_eq_true_iff.mp hdecides
  have hasked : (st.ask request).asked = st.answered ++ [st.requestId request] :=
    congrArg (· ++ [st.requestId request]) h
  unfold handleRequest
  extract_lets requestId st'
  split
  · rename_i denial hdecision
    have hanswered : ((st'.write (buildControlResponse requestId false denial none))).answered =
        st.answered ++ [requestId] := answered_response st' requestId _ _ _
    exact ⟨⟨[], by rw [hanswered, append_nil]; exact hasked⟩, rfl, nofun⟩
  · rename_i answer hdecision
    have hanswered : (st'.write (answer.response requestId)).answered =
        st.answered ++ [requestId] := answered_fast st' requestId answer
    show (st.ask request).asked = _ ++ waiting st
    rw [hanswered, hasked, waiting, hpending]
    exact (append_nil _).symm
  · rename_i error hdecision
    rw [hdecision] at hdecided
    exact nomatch hdecided
  · unfold awaitPerson
    split
    · rename_i hquestion
      have hunread : questionsRead request.toolInput = false := by simpa using hquestion.2
      rw [hunread, Bool.or_false, decide_eq_true_iff] at hquestions
      exact absurd hquestion.1 hquestions
    · extract_lets remaining
      split
      · exact ⟨⟨_, hasked⟩, rfl, nofun⟩
      · exact hasked

theorem handleNextLine_kept (h : Answered st) (hpending : st.pending = none)
    (hdecided : (lineRequest loads render t).all (decidesRequest t) = true) :
    Kept (handleNextLine loads render config st t) := by
  have hnone : st.asked = st.answered := by
    rw [h, waiting, hpending]
    exact append_nil _
  unfold handleNextLine
  split
  · exact h
  · rename_i raw hline
    dsimp only
    split
    · exact h
    · rename_i payload hpayload
      obtain ⟨hasked, hanswered, hpending'⟩ := noteInit_keeps render
        (readLine config st (chomp raw) t.lineReading) payload
      generalize (readLine config st (chomp raw) t.lineReading).noteInit render
        payload = st' at *
      replace hpending' : st'.pending = none := hpending'.trans hpending
      have hnone' : st'.asked = st'.answered := hasked.trans (hnone.trans hanswered.symm)
      have hkept : Answered st' := by
        rw [Answered, waiting, hpending', hnone']
        exact (append_nil _).symm
      split
      · exact hkept
      · split
        · exact hnone'
        · exact hkept
        · rename_i request hrequest
          have hread : lineRequest loads render t = some request := by
            rw [lineRequest_eq hline hpayload, requestOf, hrequest]
          rw [hread] at hdecided
          exact handleRequest_kept hnone' hpending' hdecided

theorem turn_kept (config : Config) (h : Answered st)
    (hmeets : turnMeets loads render st t = true) : Kept (turn loads render config st t) := by
  unfold turn
  split
  · exact h
  · split
    · exact h
    · split
      · exact ⟨⟨_, h⟩, rfl, nofun⟩
      · extract_lets st'
        obtain ⟨hasked, hanswered, hpending⟩ := deliverSteerMessages_keeps st t
        have h' : Answered st' := by
          show st'.asked = st'.answered ++ _
          rw [hasked, hanswered, waiting, hpending]
          exact h
        split
        · rename_i pending hwaits
          rw [turnMeets, ← hpending, hwaits] at hmeets
          exact handlePendingApproval_kept h' hwaits hmeets
        · rename_i hwaits
          split
          · exact h'
          · rw [turnMeets, ← hpending, hwaits] at hmeets
            exact handleNextLine_kept h' hwaits hmeets

theorem finalize_spec (config : Config) (st : LoopState) (f : Finish) :
    (finalize config st f).1.asked = st.asked ∧ (finalize config st f).1.answered = st.answered ∧
      (f.exited = none → f.waited = none →
        (finalize config st f).2.killed = true ∧ (finalize config st f).2.status = .failed) := by
  have hdrain : ∀ st' : LoopState, st' = (if st.finishedWithResult then
      { st with stdoutLines := st.stdoutLines ++ f.drained.map chomp } else st) →
      st'.asked = st.asked ∧ st'.answered = st.answered := by
    rintro st' rfl
    split <;> exact ⟨rfl, rfl⟩
  unfold finalize
  extract_lets st' timedOut
  obtain ⟨hasked, hanswered⟩ := hdrain st' rfl
  split
  · rename_i code hexited
    exact ⟨hasked, hanswered, fun hnone => nomatch hexited.symm.trans hnone⟩
  · split
    · exact ⟨hasked, hanswered, fun _ _ => ⟨rfl, rfl⟩⟩
    · split
      · exact ⟨hasked, hanswered, fun _ _ => ⟨rfl, rfl⟩⟩
      · rename_i code hwaited
        exact ⟨hasked, hanswered, fun _ hnone => nomatch hwaited.symm.trans hnone⟩

theorem loop_answers {f : Finish} {turns : List Turn} (h : Answered st)
    (horderly : orderly loads render config f st turns = true) :
    AllAnswered (loop loads render config f st turns) := by
  induction turns generalizing st with
  | nil => exact .running h
  | cons t turns ih =>
    obtain ⟨hmeets, hrest⟩ := Bool.and_eq_true_iff.mp horderly
    have hkept := turn_kept config h hmeets
    unfold loop
    cases hturn : turn loads render config st t with
    | again st' =>
      rw [hturn] at hkept hrest
      exact ih hkept hrest
    | leave st' =>
      rw [hturn] at hkept hrest
      obtain ⟨hasked, hanswered, hkilled⟩ := finalize_spec config st' f
      have hdone : st'.asked = st'.answered ∨ (finalize config st' f).2.killed = true ∧
          (finalize config st' f).2.status = .failed := by
        cases hpending : st'.pending with
        | none =>
          left
          rw [hkept, waiting, hpending]
          exact append_nil _
        | some pending =>
          -- nothing ended the process but the bridge
          have hopen : (st'.pending.isNone || f.exited.isNone && f.waited.isNone) = true := hrest
          rw [hpending, isNone_some, Bool.false_or, Bool.and_eq_true,
            isNone_iff_eq_none, isNone_iff_eq_none] at hopen
          exact .inr (hkilled hopen.1 hopen.2)
      constructor
      · rw [hasked, hanswered]
        exact ⟨st'.waiting, hkept⟩
      · intro hlives
        rw [hasked, hanswered]
        rcases hdone with hdone | ⟨hk, -⟩
        · exact hdone
        · exact nomatch hk.symm.trans hlives
      · intro hsucceeded
        rw [hasked, hanswered]
        rcases hdone with hdone | ⟨-, hfailed⟩
        · exact hdone
        · exact nomatch hfailed.symm.trans hsucceeded
    | result st' r =>
      rw [hturn] at hkept
      obtain ⟨hrest, hk, hfailed⟩ := hkept
      refine .ended hrest ?_ fun hsucceeded => absurd hsucceeded hfailed
      rw [hk]
      exact nofun
    | raised st' error =>
      rw [hturn] at hkept
      exact .raised hkept

/-- **Every permission request is answered once**: in an orderly run the ids read are the ids
    answered, in order, and the one that waits; so it is at the end, unless the process was
    killed, and always at a success. -/
theorem every_request_answered (loads : String → Option Json) (render : Json → String)
    (config : Config) (f : Finish) (sessionId : String) (now : Int) (prompt : String)
    (turns : List Turn)
    (h : orderly loads render config f (started config sessionId now prompt) turns = true) :
    AllAnswered (run loads render config f sessionId now prompt turns) :=
  loop_answers rfl h

/-! ### A run of two requests -/

def bashRequest (requestId : String) : Json :=
  .obj [("type", .str "control_request"), ("request_id", .str requestId),
    ("request", .obj [("subtype", .str "can_use_tool"), ("tool_name", .str "Bash")])]

/-- The lines of the CLI, with what `json.loads` makes of them. -/
def printed : List (String × Json) :=
  [("\x7b\"type\":\"control_request\",\"request_id\":\"1\",\"request\":" ++
      "\x7b\"subtype\":\"can_use_tool\",\"tool_name\":\"Bash\"\x7d\x7d", bashRequest "1"),
    ("\x7b\"type\":\"control_request\",\"request_id\":\"2\",\"request\":" ++
      "\x7b\"subtype\":\"can_use_tool\",\"tool_name\":\"Bash\"\x7d\x7d", bashRequest "2"),
    ("\x7b\"type\":\"result\",\"subtype\":\"success\"\x7d",
      .obj [("type", .str "result"), ("subtype", .str "success")])]

def loadsPrinted (text : String) : Option Json :=
  (printed.find? fun line => line.1 = text).map Prod.snd

def reads (line : Nat) : Turn := { line := (printed[line]?).map Prod.fst }

def approves : Turn := { resolution := some { approved := true } }

/-- How a run ended: its status, whether the process was killed, what was read and answered. -/
def Progress.ending : Progress → Option (RunStatus × Bool × List String × List String)
  | .ended st r => some (r.status, r.killed, st.asked, st.answered)
  | _ => none

def minuteRun (turns : List Turn) : Progress :=
  run loadsPrinted (fun _ => "") ⟨60, 60⟩ { exited := some 0 } "" 0 "go" turns

theorem every_request_answered_two :
    AllAnswered (minuteRun [reads 0, approves, reads 1, approves, reads 2]) ∧
    (minuteRun [reads 0, approves, reads 1, approves, reads 2]).ending =
      some (.succeeded, false, ["1", "2"], ["1", "2"]) := by
  refine ⟨every_request_answered loadsPrinted (fun _ => "") ⟨60, 60⟩ { exited := some 0 } "" 0
    "go" _ ?_, ?_⟩ <;> decide +kernel

/-- The second request is printed while the first waits: the bridge reads it, answers only the
    first, and ends as a success. And a CLI that exits with 0 while its request waits. -/
theorem request_swallowed : (minuteRun [reads 0, reads 1, approves, reads 2]).ending =
      some (.succeeded, false, ["1", "2"], ["1"]) ∧
    (minuteRun [reads 0, { exited := true }]).ending = some (.succeeded, false, ["1"], []) := by
  decide +kernel

end Loregarden.Bridge

