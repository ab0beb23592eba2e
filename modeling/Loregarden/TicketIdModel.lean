import Loregarden.PythonText
import Loregarden.SortedRowProofs
import Mathlib.Data.List.Lex
import Mathlib.Data.Char

/-! # Shareable ticket ids

`ticket_ids.py`: how the id of a workspace ticket is spelled, what a reference resolves to, and the
two calls that spell an id again, `reparent_ticket` and `_move_ticket_workspace`. Every workspace
has its prefix and every ticket its workspace; initiatives, the workspace filter of `resolve`, the
event log, and digits outside ASCII, which no number is spelled with, are left out. Three columns
are the proof's own: how often a ticket changed workspace, the id it bore when it first did, and
whether it came with an id from elsewhere; and beside the tables stands every spelling ever handed
out. -/

namespace Loregarden.TicketIds

open Text Ranked

abbrev Word := List Char

structure Workspace where
  ticketPrefix : Word
  lastTicketNumber : Nat := 0

structure Ticket where
  id : Nat
  workspaceId : Nat
  /-- `work_item_type == MILESTONE`. -/
  isMilestone : Bool
  title : Word
  parentTicketId : Option Nat
  milestoneCode : Word := []
  ticketNumber : Nat := 0
  externalId : Word := []
  legacyExternalId : Word := []
  moves : Nat := 0
  leftAs : Option Word := none
  supplied : Bool := false
  deriving DecidableEq

/-- A spelling handed out: to which ticket, under which number, after how many moves. -/
structure Issue where
  spelling : Word
  ticket : Nat
  workspace : Nat
  number : Nat
  moves : Nat

structure World where
  workspaces : List Workspace
  tickets : Keyed Ticket Ticket.id := Keyed.empty
  issued : List Issue := []

/-- Write the ticket under an id; no write touches the id. -/
def World.setTicket (w : World) (i : Nat) (f : Ticket → Ticket) (hf : ∀ t, (f t).id = t.id) :
    World :=
  { w with tickets := w.tickets.update i f hf }

/-! ## Milestone codes -/

/-- `[a-z0-9]`. -/
def isSlug (c : Char) : Bool := ('a' ≤ c && c ≤ 'z') || c.isDigit

/-- `[a-z0-9-]`. -/
def isSlugDash (c : Char) : Bool := isSlug c || c == '-'

/-- `str.lower` of one character: two letters outside ASCII have one in it, and the other
    ones stay outside. -/
def lowerChar (c : Char) : Word :=
  if c = '\u0130' then ['i', '\u0307'] else if c = '\u212a' then ['k'] else [c.toLower]

def lower (s : Word) : Word := s.flatMap lowerChar

def words (text : Word) : List Word :=
  ((lower text).splitOnP fun c => !isSlug c).filter fun word => !word.isEmpty

/-- `_ORDINAL_RE`. -/
def isOrdinal : Word → Bool
  | [] => false
  | c :: rest =>
    (c.isDigit && rest.all Char.isDigit) ||
      (isSlug c && !rest.isEmpty && rest.all Char.isDigit)

/-- In `_MILESTONE_NOISE_WORDS`, or an ordinal. -/
def isNoise (word : Word) : Bool :=
  word = "track".toList || word = "milestone".toList || word = "m".toList || isOrdinal word

/-- The words that order a milestone, dropped from the head of its title. -/
def dropNoise : List Word → List Word
  | [] => []
  | [word] => if isNoise word then [] else [word]
  | word :: next :: rest =>
    if isNoise word then
      if next.length = 1 || isOrdinal next then dropNoise rest else dropNoise (next :: rest)
    else word :: next :: rest

/-- `_MILESTONE_STOP_WORDS`. -/
def stopWords : List Word := ["the", "a", "an", "and", "of", "for", "to"].map String.toList

/-- `str(n)`. -/
def digits (n : Nat) : Word := Nat.toDigits 10 n

def namedCode (title : Word) : Word :=
  let named := dropNoise (words title)
  let kept := named.filter fun word => word ∉ stopWords
  let chosen := (if kept.isEmpty then named else kept).take 2
  strip (· == '-') ((['-'].intercalate chosen).take 24)

/-- `derive_milestone_code`; the suffix that is free is found among the first ones, one
    more than there are codes taken. -/
def deriveMilestoneCode (title : Word) (taken : List Word) : Word :=
  let named := dropNoise (words title)
  let kept := named.filter fun word => word ∉ stopWords
  let chosen := (if kept.isEmpty then named else kept).take 2
  let code := strip (· == '-') ((['-'].intercalate chosen).take 24)
  let code := if code.isEmpty || code = "none".toList then "milestone".toList else code
  if code ∈ taken then
    (((List.range (taken.length + 1)).map fun k => code ++ '-' :: digits (k + 2)).find?
      (· ∉ taken)).getD code
  else code

/-- `_NON_SLUG_RE.sub("", slug.lower())`. -/
def slugLetters (slug : Word) : Word := (lower slug).filter isSlug

/-- `derive_workspace_prefix`: the first three letters, or more of them, or three and a
    number, found like that of `derive_milestone_code`. -/
def deriveWorkspacePrefix (slug : Word) (taken : List Word) : Word :=
  let letters := if (slugLetters slug).isEmpty then "ws".toList else slugLetters slug
  let lengths := (List.range (max letters.length 3 - 2)).map (· + 3)
  ((lengths.map letters.take).find? (· ∉ taken)).getD
    ((((List.range (taken.length + 1)).map fun k => letters.take 3 ++ digits (k + 2)).find?
      (· ∉ taken)).getD (letters.take 3))

def spellExternalId (ticketPrefix milestoneCode : Word) (number : Nat) : Word :=
  let first := strip isSpace ticketPrefix
  let middle := strip isSpace milestoneCode
  (if first.isEmpty then "ws".toList else first) ++
    '-' :: (if middle.isEmpty then "none".toList else middle) ++ '-' :: digits number

/-- The groups `prefix` and `number` of `_STRUCTURED_ID_RE`: before the first hyphen and
    after the last. -/
def structuredParts (value : Word) : Option (Word × Word) :=
  let text := lower (strip isSpace value)
  let first := text.takeWhile (· != '-')
  let number := text.rtakeWhile (· != '-')
  let between := (text.dropWhile (· != '-')).rdropWhile (· != '-')
  if '-' ∈ text ∧ first ≠ [] ∧ first.all isSlug ∧ number ≠ [] ∧ number.all Char.isDigit ∧
      between.all isSlugDash then
    some (first, number)
  else none

def parseTicketNumber (value : Word) : Option Nat :=
  (structuredParts value).map fun parts => Nat.ofDigitChars 10 parts.2 0

def parseWorkspacePrefix (value : Word) : Option Word := (structuredParts value).map Prod.fst

/-! ## Numbers and segments -/

/-- `milestone_code`: derived and recorded where it is unset. -/
def milestoneCode (w : World) (milestone : Ticket) : World × Word :=
  let code := strip isSpace milestone.milestoneCode
  if code.isEmpty then
    let taken := (w.tickets.rows.filter fun t =>
      t.workspaceId = milestone.workspaceId ∧ t.id ≠ milestone.id ∧
        !t.milestoneCode.isEmpty).map Ticket.milestoneCode
    let code := deriveMilestoneCode milestone.title taken
    (w.setTicket milestone.id (fun t => { t with milestoneCode := code }) fun _ => rfl, code)
  else (w, code)

/-- The loop of `ancestor_milestone`. -/
def climb (w : World) : Nat → List Nat → Ticket → Option Ticket
  | 0, _, _ => none
  | fuel + 1, seen, current =>
    match current.parentTicketId with
    | none => none
    | some i =>
      match w.tickets.get i with
      | none => none
      | some parent =>
        if parent.id ∈ seen then none
        else if parent.isMilestone then some parent
        else climb w fuel (parent.id :: seen) parent

/-- `ancestor_milestone`; no chain without a repetition is longer than the table. -/
def ancestorMilestone (w : World) (ticket : Ticket) : Option Ticket :=
  if ticket.isMilestone then some ticket
  else climb w (w.tickets.rows.length + 1) [ticket.id] ticket

def milestoneSegmentFor (w : World) (ticket : Ticket) : World × Word :=
  match ancestorMilestone w ticket with
  | some milestone => milestoneCode w milestone
  | none => (w, "none".toList)

/-- `select(func.max(Ticket.ticket_number))` of a workspace. -/
def highestLive (w : World) (workspace : Nat) : Nat :=
  ((w.tickets.rows.filter (·.workspaceId = workspace)).map Ticket.ticketNumber).foldr max 0

def nextTicketNumber (w : World) (i : Nat) (workspace : Workspace) : World × Nat :=
  let issued := max workspace.lastTicketNumber (highestLive w i) + 1
  ({ w with workspaces := w.workspaces.modify i fun ws =>
      { ws with lastTicketNumber := issued } }, issued)

/-- The last lines of `assign_external_id` and of `respell_external_id`. -/
def spell (w : World) (i : Nat) (workspace : Workspace) : World :=
  match w.tickets.get i with
  | none => w
  | some ticket =>
    let answer := milestoneSegmentFor w ticket
    let spelling := spellExternalId (strip isSpace workspace.ticketPrefix) answer.2
      ticket.ticketNumber
    let w := answer.1.setTicket i (fun t => { t with externalId := spelling }) fun _ => rfl
    { w with issued := w.issued ++
        [⟨spelling, i, ticket.workspaceId, ticket.ticketNumber, ticket.moves⟩] }

/-- `assign_external_id`, with the ticket in the workspace named by its column. -/
def assignExternalId (w : World) (i : Nat) (suppliedId : Word) : World :=
  match w.tickets.get i with
  | none => w
  | some ticket =>
    match w.workspaces[ticket.workspaceId]? with
    | none => w
    | some workspace =>
      let supplied := strip isSpace suppliedId
      let w :=
        if supplied.isEmpty then w
        else w.setTicket i (fun t => { t with legacyExternalId := supplied }) fun _ => rfl
      let w :=
        if ticket.ticketNumber = 0 then
          let answer := nextTicketNumber w ticket.workspaceId workspace
          answer.1.setTicket i (fun t => { t with ticketNumber := answer.2 }) fun _ => rfl
        else w
      spell w i workspace

def respellExternalId (w : World) (i : Nat) : World :=
  match w.tickets.get i with
  | none => w
  | some ticket =>
    match w.workspaces[ticket.workspaceId]? with
    | none => w
    | some workspace => spell w i workspace

/-- The first loop of `reissue_in_workspace`. -/
def unnumber (w : World) (i : Nat) : World :=
  w.setTicket i (fun t =>
    { t with ticketNumber := 0, milestoneCode := if t.isMilestone then [] else t.milestoneCode })
    fun _ => rfl

def reissueOne (w : World) (i : Nat) : World :=
  assignExternalId (w.setTicket i (fun t =>
    { t with legacyExternalId :=
        if (strip isSpace t.legacyExternalId).isEmpty then t.externalId
        else t.legacyExternalId }) fun _ => rfl) i []

def reissueInWorkspace (w : World) (tickets : List Nat) : World :=
  tickets.foldl reissueOne (tickets.foldl unnumber w)

/-- `_tickets_spelled`, in no workspace. -/
def ticketsSpelled (w : World) (column : Ticket → Word) (ref : Word) : List Ticket :=
  ranked Ticket.externalId (w.tickets.rows.filter fun t => column t = ref ∨ column t = lower ref)

/-- The number step of `resolve`. -/
def byNumber (w : World) (ref : Word) : Option Ticket :=
  match parseWorkspacePrefix (lower ref), parseTicketNumber (lower ref) with
  | some first, some number =>
    match w.workspaces.findIdx? (·.ticketPrefix = first) with
    | none => none
    | some i => w.tickets.rows.find? fun t => t.workspaceId = i ∧ t.ticketNumber = number
  | _, _ => none

/-- `resolve`, without a workspace. -/
def resolve (w : World) (value : Word) : Option Ticket :=
  let ref := strip isSpace value
  if ref.isEmpty then none
  else ((ticketsSpelled w Ticket.externalId ref).head?.or
    (ticketsSpelled w Ticket.legacyExternalId ref).head?).or (byNumber w ref)

/-! ## The calls -/

def isDescendant (w : World) (ancestor : Nat) : Nat → List Nat → Ticket → Bool
  | 0, _, _ => false
  | fuel + 1, seen, current =>
    match current.parentTicketId with
    | none => false
    | some i =>
      if i ∈ seen then false
      else if i = ancestor then true
      else
        match w.tickets.get i with
        | none => false
        | some parent => isDescendant w ancestor fuel (i :: seen) parent

/-- `descendants_by_root` of one root, level by level. -/
def levels (w : World) : Nat → List Nat → List Nat → List Nat
  | 0, _, _ => []
  | fuel + 1, owner, frontier =>
    let found := (w.tickets.rows.filter fun t =>
      t.parentTicketId.any (· ∈ frontier) ∧ t.id ∉ owner).map Ticket.id
    if found.isEmpty then [] else found ++ levels w fuel (owner ++ found) found

def respellSubtree (w : World) (i : Nat) : World :=
  (i :: levels w (w.tickets.rows.length + 1) [i] [i]).foldl (fun w j =>
    if (w.tickets.get j).any (·.ticketNumber ≠ 0) then respellExternalId w j else w) w

/-- `reparent_ticket`; `legal` is what the rules about work item types and dependencies say. A
    refused call changes nothing. -/
def reparentTicket (w : World) (i : Nat) (parentTicketId : Option Nat) (legal : Bool) : World :=
  match w.tickets.get i with
  | none => w
  | some ticket =>
    let allowed := match parentTicketId with
      | none => legal
      | some p =>
        match w.tickets.get p with
        | none => false
        | some parent =>
          parent.workspaceId = ticket.workspaceId && p ≠ i &&
            !isDescendant w i (w.tickets.rows.length + 1) [] parent && legal
    if allowed then
      respellSubtree
        (w.setTicket i (fun t => { t with parentTicketId := parentTicketId }) fun _ => rfl) i
    else w

/-- `_descendants`: the last of the frontier first. -/
def descendants (w : World) : Nat → List Nat → List Nat
  | 0, _ => []
  | fuel + 1, frontier =>
    match frontier.getLast? with
    | none => []
    | some current =>
      let children := (w.tickets.rows.filter (·.parentTicketId = some current)).map Ticket.id
      children ++ descendants w fuel (frontier.dropLast ++ children)

def arrive (destination : Nat) (w : World) (i : Nat) : World :=
  w.setTicket i (fun t =>
    { t with workspaceId := destination, moves := t.moves + 1,
             leftAs := t.leftAs.or (some t.externalId) }) fun _ => rfl

/-- `_move_ticket_workspace`; `detach` where no new parent is named, `legal` what the
    dependency rule says. -/
def moveTicketWorkspace (w : World) (i destination : Nat) (newParent : Option Nat)
    (detach legal : Bool) : World :=
  match w.tickets.get i with
  | none => w
  | some ticket =>
    let allowed := ticket.workspaceId ≠ destination && destination < w.workspaces.length &&
      match newParent with
      | some p =>
        (w.tickets.get p).any (fun parent => parent.workspaceId = destination && p ≠ i) && legal
      | none => ticket.parentTicketId.isNone || detach
    if allowed then
      let w := w.setTicket i (fun t => { t with parentTicketId := newParent }) fun _ => rfl
      let moved := i :: descendants w (w.tickets.rows.length + 1) [i]
      reissueInWorkspace (moved.foldl (arrive destination) w) moved
    else w

def createTicket (w : World) (workspace : Nat) (isMilestone : Bool) (title : Word)
    (parent : Option Nat) (suppliedId : Word) : World :=
  if workspace < w.workspaces.length then
    let ticket : Ticket := {
      id := w.tickets.next, workspaceId := workspace, isMilestone := isMilestone, title := title,
      parentTicketId := parent, supplied := !(strip isSpace suppliedId).isEmpty }
    assignExternalId { w with tickets := w.tickets.insert ticket rfl } w.tickets.next suppliedId
  else w

inductive Call where
  | create (workspace : Nat) (isMilestone : Bool) (title : Word) (parent : Option Nat)
      (suppliedId : Word)
  | reparent (ticket : Nat) (parent : Option Nat) (legal : Bool)
  | move (ticket destination : Nat) (newParent : Option Nat) (detach legal : Bool)
  | delete (ticket : Nat)

def World.after (w : World) : Call → World
  | .create workspace isMilestone title parent suppliedId =>
    createTicket w workspace isMilestone title parent suppliedId
  | .reparent ticket parent legal => reparentTicket w ticket parent legal
  | .move ticket destination newParent detach legal =>
    moveTicketWorkspace w ticket destination newParent detach legal
  | .delete ticket => { w with tickets := w.tickets.delete ticket }

def Step (w : World) (call : Call) (w' : World) : Prop := w' = w.after call

end Loregarden.TicketIds
