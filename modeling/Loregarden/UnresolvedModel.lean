import Loregarden.PythonText
import Loregarden.SortedRowProofs
import Mathlib.Data.String.Basic

/-! # The ledger of unresolved names

`unresolved_ledger.py`: the set of names a ticket has open is the newest OPEN snapshot; CLEAR and
WAIVER rows beside it say how a name left it. Rows are only added, each under the time `times` gives
its place in the table. A row whose text does not parse reads as a snapshot of nothing or as the
audit of no name. Titles, `when` and log lines are left out; the live names a clear was called with
are kept beside its row. -/

namespace Loregarden.Unresolved

open Text Ranked

/-! ## Rows -/

structure UnresolvedItem where
  name : String
  producerAgentId : String := ""
  producerStageKey : String := ""
  detail : String := ""
  isClaim : Bool := false

structure WaiverItem where
  name : String
  reason : String

structure LedgerActor where
  agentId : String
  stageKey : String := ""

/-- `UnresolvedOpenItem`. -/
structure OpenItem where
  name : String
  producerAgentId : String := ""
  producerStageKey : String := ""
  firstSeenRunId : String := ""
  stageKey : String := ""
  durable : Bool := false

inductive Content where
  | openSet (items : List OpenItem)
  | waiver (name reason : String) (actor : LedgerActor) (runId : String)
  | clear (name : String) (actor : LedgerActor) (live : List String)

structure Artifact where
  ticketId : Nat
  createdAt : Int
  content : Content

abbrev World := List Artifact

def humanAgentId : String := "human"

namespace Artifact

def isOpen (row : Artifact) : Bool :=
  match row.content with
  | .openSet _ => true
  | _ => false

/-- `_parse_open`. -/
def items (row : Artifact) : List OpenItem :=
  match row.content with
  | .openSet items => items
  | _ => []

/-- `_audit_name`, of a CLEAR or a WAIVER. -/
def auditName (row : Artifact) : Option String :=
  match row.content with
  | .openSet _ => none
  | .waiver name _ _ _ => some name
  | .clear name _ _ => some name

def isOpenOf (ticket : Nat) (row : Artifact) : Bool := row.isOpen && row.ticketId = ticket

end Artifact

/-! ## Reading -/

/-- `_open_rows_by_ticket`, before it is grouped. -/
def openRows (w : World) : List Artifact := ranked Artifact.createdAt (w.filter Artifact.isOpen)

def openRowsOf (w : World) (ticket : Nat) : List Artifact :=
  (openRows w).filter fun row => row.ticketId = ticket

def newestOpenRow (w : World) (ticket : Nat) : Option Artifact :=
  ((w.filter (Artifact.isOpenOf ticket)).insertionSort fun a b => b.createdAt ≤ a.createdAt).head?

def currentOpenItems (w : World) (ticket : Nat) : List OpenItem :=
  ((newestOpenRow w ticket).map Artifact.items).getD []

def persistedOpenNames (w : World) (ticket : Nat) : List String :=
  (currentOpenItems w ticket).map OpenItem.name

def openItem (w : World) (ticket : Nat) (name : String) : Option OpenItem :=
  (currentOpenItems w ticket).find? fun item => item.name = name

def hasAudit (w : World) (ticket : Nat) (name : String) (after : Option Int) : Bool :=
  w.any fun row => row.ticketId = ticket && row.auditName = some name &&
    after.all fun time => time ≤ row.createdAt

def waivedNames (w : World) (ticket : Nat) : List String :=
  w.filterMap fun row =>
    match row.content with
    | .waiver name _ _ _ => if row.ticketId = ticket ∧ name ≠ "" then some name else none
    | _ => none

def producerMatches (item : OpenItem) (actor : LedgerActor) : Bool :=
  if item.producerStageKey = "" then actor.agentId = item.producerAgentId
  else actor.agentId = item.producerAgentId && actor.stageKey = item.producerStageKey

def isDurable (name : String) : Bool := name.startsWith "handoff:" || name.startsWith "evidence:"

def itemVisible (name producerAgentId stageKey currentStageKey : String)
    (actor : Option LedgerActor) (durable : Bool) : Bool :=
  if durable || isDurable name then true
  else if stageKey ≠ currentStageKey then false
  else actor.all fun actor => producerAgentId = actor.agentId

/-- One name of a dict by names: a name that is there keeps its place. -/
def put {α : Type} (key : α → String) (entries : List α) (entry : α) : List α :=
  if entries.any fun other => key other = key entry then
    entries.map fun other => if key other = key entry then entry else other
  else entries ++ [entry]

def visibleUnresolved (w : World) (ticket : Nat) (live : List UnresolvedItem)
    (currentStageKey : String) (actor : Option LedgerActor) : List UnresolvedItem :=
  let persisted := (currentOpenItems w ticket).foldl (fun byName item =>
    if itemVisible item.name item.producerAgentId
        (if item.stageKey = "" then item.producerStageKey else item.stageKey) currentStageKey actor
        (item.durable || isDurable item.name) then
      let fresh := live.reverse.find? fun entry => entry.name = item.name
      put UnresolvedItem.name byName {
        name := item.name, producerAgentId := item.producerAgentId,
        producerStageKey := item.producerStageKey,
        detail := (fresh.map UnresolvedItem.detail).getD "",
        isClaim := (fresh.map UnresolvedItem.isClaim).getD false }
    else byName) []
  let all := live.foldl (fun byName item =>
    if item.name = "" ∨ item.name ∈ byName.map UnresolvedItem.name ∨
        item.name ∈ waivedNames w ticket then byName
    else if itemVisible item.name item.producerAgentId item.producerStageKey currentStageKey actor
        (isDurable item.name) then put UnresolvedItem.name byName item
    else byName) persisted
  ranked UnresolvedItem.name all

/-! ## Writing -/

variable (times : Nat → Int)

def insert (w : World) (ticket : Nat) (content : Content) : World :=
  w ++ [⟨ticket, times w.length, content⟩]

/-- `{item.name: item for item in items}`. -/
def keyed (items : List OpenItem) : List OpenItem := items.foldl (put OpenItem.name) []

/-- `_write_open`; the table is left alone where it raises. -/
def writeOpen (w : World) (ticket : Nat) (items : List OpenItem) : World × Except String Unit :=
  let after := (newestOpenRow w ticket).map Artifact.createdAt
  let dropped := (persistedOpenNames w ticket).filter fun name =>
    name ∉ items.map OpenItem.name
  let unaudited := dropped.filter fun name => !hasAudit w ticket name after
  if unaudited.isEmpty then (insert times w ticket (.openSet items), .ok ())
  else (w, .error ("OPEN snapshot shrinks [" ++
    ", ".intercalate ((ranked id unaudited.dedup).map fun name => "'" ++ name ++ "'") ++
    "] without CLEAR/WAIVER"))

def openItemFromLive (item : UnresolvedItem) (actor : LedgerActor) (runId : String) : OpenItem where
  name := item.name
  producerAgentId := item.producerAgentId
  producerStageKey := item.producerStageKey
  firstSeenRunId := runId
  stageKey := if item.producerStageKey = "" then actor.stageKey else item.producerStageKey
  durable := isDurable item.name

/-- The loop of `persist_unresolved`: the names it adds. -/
def newItems (waived : List String) (actor : LedgerActor) (runId : String) :
    List OpenItem → List UnresolvedItem → List OpenItem
  | _, [] => []
  | byName, item :: live =>
    if item.name = "" ∨ item.name ∈ byName.map OpenItem.name ∨ item.name ∈ waived then
      newItems waived actor runId byName live
    else
      let added := openItemFromLive item actor runId
      added :: newItems waived actor runId (byName ++ [added]) live

def persistUnresolved (w : World) (ticket : Nat) (live : List UnresolvedItem)
    (actor : LedgerActor) (runId : String) : World × Except String Unit :=
  let byName := keyed (currentOpenItems w ticket)
  let added := newItems (waivedNames w ticket) actor runId byName live
  if added.isEmpty then (w, .ok ())
  else writeOpen times w ticket (byName ++ added)

/-- The end of `clear` and of `waive`: the audit row, then the snapshot without the name. -/
def dropName (w : World) (ticket : Nat) (name : String) (audit : Content) :
    World × Except String Bool :=
  let remaining := (currentOpenItems w ticket).filter fun item => item.name ≠ name
  match writeOpen times (insert times w ticket audit) ticket remaining with
  | (w', .ok ()) => (w', .ok true)
  -- the audit row was only flushed
  | (_, .error message) => (w, .error message)

def clear (w : World) (ticket : Nat) (name : String) (actor : LedgerActor)
    (live : List UnresolvedItem) : World × Except String Bool :=
  if actor.agentId = humanAgentId then (w, .ok false)
  else
    match openItem w ticket name with
    | none => (w, .ok false)
    | some item =>
      if !producerMatches item actor then (w, .ok false)
      else if name ∈ live.map UnresolvedItem.name then (w, .ok false)
      else dropName times w ticket name (.clear name actor (live.map UnresolvedItem.name))

def waive (w : World) (ticket : Nat) (name reason : String) (actor : LedgerActor)
    (runId : String) : World × Except String Bool :=
  let stripped := strip isSpace reason.toList
  if stripped.isEmpty then (w, .ok false)
  else
    match openItem w ticket name with
    | none => (w, .ok false)
    | some item =>
      if actor.agentId ≠ humanAgentId ∧ !producerMatches item actor then (w, .ok false)
      else dropName times w ticket name (.waiver name (String.ofList stripped) actor runId)

def eachCall {α : Type} (call : World → α → World × Except String Bool) :
    World → List α → World × Except String Unit
  | w, [] => (w, .ok ())
  | w, entry :: rest =>
    match call w entry with
    | (w', .ok _) => eachCall call w' rest
    | (w', .error message) => (w', .error message)

def settleUnresolved (w : World) (ticket : Nat) (live : List UnresolvedItem)
    (actor : LedgerActor) (waivers : List WaiverItem) (currentStageKey runId : String) :
    World × Except String (List UnresolvedItem) :=
  match persistUnresolved times w ticket live actor runId with
  | (w₁, .error message) => (w₁, .error message)
  | (w₁, .ok ()) =>
    match eachCall (fun w waiver => waive times w ticket waiver.name waiver.reason actor runId)
      w₁ waivers with
    | (w₂, .error message) => (w₂, .error message)
    | (w₂, .ok ()) =>
      let gone := (currentOpenItems w₂ ticket).filter fun item =>
        item.name ∉ live.map UnresolvedItem.name
      match eachCall (fun w item => clear times w ticket item.name actor live) w₂ gone with
      | (w₃, .error message) => (w₃, .error message)
      | (w₃, .ok ()) =>
        (w₃, .ok (visibleUnresolved w₃ ticket live currentStageKey (some actor)))

inductive Call where
  | persist (ticket : Nat) (live : List UnresolvedItem) (actor : LedgerActor) (runId : String)
  | clear (ticket : Nat) (name : String) (actor : LedgerActor) (live : List UnresolvedItem)
  | waive (ticket : Nat) (name reason : String) (actor : LedgerActor) (runId : String)
  | settle (ticket : Nat) (live : List UnresolvedItem) (actor : LedgerActor)
      (waivers : List WaiverItem) (currentStageKey runId : String)

def after (w : World) : Call → World
  | .persist ticket live actor runId => (persistUnresolved times w ticket live actor runId).1
  | .clear ticket name actor live => (Unresolved.clear times w ticket name actor live).1
  | .waive ticket name reason actor runId =>
    (Unresolved.waive times w ticket name reason actor runId).1
  | .settle ticket live actor waivers currentStageKey runId =>
    (settleUnresolved times w ticket live actor waivers currentStageKey runId).1

structure OpenShrinkFinding where
  ticketId : Nat
  enteredAt : Int
  detail : String

/-- The items of older snapshots, with their snapshot's time. -/
def heldItems (rows : List Artifact) : List (Int × OpenItem) :=
  rows.flatMap fun row => row.items.map fun item => (row.createdAt, item)

/-- The loop over older snapshots: the names that left with no audit. -/
def missingItems (w : World) (ticket : Nat) : List (Int × OpenItem) → List String → List OpenItem
  | [], _ => []
  | (time, item) :: rest, known =>
    if item.name ∈ known ∨ hasAudit w ticket item.name (some time) then
      missingItems w ticket rest known
    else item :: missingItems w ticket rest (item.name :: known)

/-- One turn of `detect_unaudited_open_shrink`; `externalId` is what the tickets table says. -/
def shrinkOf (externalId : Nat → Option String) (w : World) (ticket : Nat) :
    Option OpenShrinkFinding :=
  let rows := openRowsOf w ticket
  if rows.length < 2 then none
  else
    match rows.getLast? with
    | none => none
    | some latest =>
      let missing := missingItems w ticket (heldItems rows.dropLast)
        (latest.items.map OpenItem.name)
      if missing.isEmpty then none
      else some {
        ticketId := ticket
        enteredAt := latest.createdAt
        detail := (externalId ticket).getD (toString ticket) ++ " OPEN dropped " ++
          ", ".intercalate (ranked id (missing.map OpenItem.name)) ++ " without CLEAR/WAIVER" }

def detectUnauditedOpenShrink (externalId : Nat → Option String) (w : World) :
    List OpenShrinkFinding :=
  (((openRows w).map Artifact.ticketId).dedup).filterMap (shrinkOf externalId w)

/-- One turn of `repair_unaudited_open_shrink`. -/
def repairTicket (externalId : Nat → Option String) (w : World) (ticket : Nat) :
    World × Except String Bool :=
  let rows := openRowsOf w ticket
  if (externalId ticket).isNone ∨ rows.length < 2 then (w, .ok false)
  else
    match rows.getLast? with
    | none => (w, .ok false)
    | some latest =>
      let missing := missingItems w ticket (heldItems rows.dropLast)
        (latest.items.map OpenItem.name)
      if missing.isEmpty then (w, .ok false)
      else
        match writeOpen times w ticket (keyed latest.items ++ missing) with
        | (w', .ok ()) => (w', .ok true)
        | (w', .error message) => (w', .error message)

/-- `repair_unaudited_open_shrink`, over the tickets in some order. -/
def repairUnauditedOpenShrink (externalId : Nat → Option String) (w : World)
    (ticketIds : List Nat) : World × Except String Unit :=
  eachCall (repairTicket times externalId) w ticketIds

end Loregarden.Unresolved
