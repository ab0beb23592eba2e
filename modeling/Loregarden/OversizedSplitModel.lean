import Loregarden.PythonText
import Loregarden.ScriptProofs
import Loregarden.TicketWaitModel

/-! # Splitting an oversized ticket

`split_oversized_ticket`: the model's reply read (`DecompositionService.split`), checked
(`ProposalValidator`), written as children (`finalize_hierarchy`), chained by `add_dependency`, and
given a review child (`ensure_review_child`). Each commit, and each reading in between, may fail
with an exception the split handles, and the process may stop behind each. The ticket's stages and
branch, and the spelling of new ids, are given. -/

namespace Loregarden.OversizedSplit

open Scripts List
open TicketWait (WorkItemType TicketId WorkspaceId TicketDependency Database validHierarchy)

/-- `str.strip`. -/
def stripped (s : String) : String := String.ofList (Text.strip Text.isSpace s.toList)

/-- What the split takes from Python's library: `unicodedata.normalize("NFC", _)`, `str.lower`
    and `int` of a text. -/
structure Library where
  nfc : String → String
  lower : String → String
  intOf : String → Option Int
  /-- A piece of a composed text is composed. -/
  nfc_again : ∀ s, nfc (stripped (nfc s)) = stripped (nfc s)
  /-- A text is not composed away. -/
  nfc_blank : ∀ s, stripped (nfc s) = "" → stripped s = ""

namespace Library

variable (py : Library)

def normalizeText (text : String) : String := stripped (py.nfc text)

/-- `re.sub(r"\n\n+", "\n\n", _)`, behind `run` newlines. -/
def collapseBreaks : Nat → List Char → List Char
  | _, [] => []
  | run, c :: rest =>
    if c = '\n' then
      if run < 2 then c :: collapseBreaks (run + 1) rest else collapseBreaks run rest
    else c :: collapseBreaks 0 rest

/-- `normalize_text(text, preserve_breaks=True)`. -/
def normalizeBreaks (text : String) : String :=
  String.ofList (collapseBreaks 0 (py.normalizeText text).toList)

end Library

/-- `normalize_criteria`, which `load_criteria` and `serialize_criteria` apply. -/
def normalizeCriteria (criteria : List String) : List String :=
  (criteria.map stripped).filter (· ≠ "")

/-! ## The reply -/

inductive Json where
  | null
  | bool (b : Bool)
  | int (n : Int)
  | float (q : Rat)
  | infinite
  | nan
  | str (s : String)
  | arr (items : List Json)
  | obj (fields : List (String × Json))

/-- `bool(value)`. -/
def Json.truthy : Json → Bool
  | .null => false
  | .bool b => b
  | .int n => n ≠ 0
  | .float q => q ≠ 0
  | .infinite => true
  | .nan => true
  | .str s => s ≠ ""
  | .arr items => !items.isEmpty
  | .obj fields => !fields.isEmpty

/-- `data.get(key, default)`. -/
def field (fields : List (String × Json)) (key : String) (default : Json := .null) : Json :=
  (fields.lookup key).getD default

/-- What the split raises: a refusal of its own by what it refuses, and Python's errors. -/
inductive Raised where
  | turnFailed
  | noObject
  | externalIdRequired
  | titleRequired
  | workItemTypeRequired
  | invalidWorkItemType
  | criteriaNotList
  /-- `int` of a text or of no number: a `ValueError`. -/
  | notAnInteger
  /-- The `ValidationError` of a `HierarchyWorkItem`, a `ValueError`. -/
  | invalidItem
  /-- A `RuntimeError`. -/
  | recursionError
  | tooFewChildren
  | wrongChild
  | emptyHierarchy
  | duplicateExternalId
  | emptyText
  | priorityRange
  | textTooLong
  | criteriaPartition
  | workspaceNotFound
  | externalIdTaken
  | parentNotFound
  | parentRefused
  | criteriaCap
  | descriptionCap
  | dependencyRefused
  | noWorkflow
  /-- Any handled exception of a step that fails. -/
  | stepFailed
  | typeError
  | attributeError
  | overflowError
  deriving DecidableEq

/-- `except (ValueError, ProposalValidationError, RuntimeError, TimeoutError, OSError)`. -/
def Raised.handled : Raised → Bool
  | .typeError | .attributeError | .overflowError => false
  | _ => true

/-- A `HierarchyWorkItem` of a flat proposal: of its own children, how many they are. -/
structure Item where
  externalId : String
  title : String
  workItemType : WorkItemType
  description : String
  acceptanceCriteria : List String
  priority : Int
  children : Nat

/-- `WorkItemType(value)`. -/
def workItemType : Json → Except Raised WorkItemType
  | .str "initiative" => .ok .initiative
  | .str "milestone" => .ok .milestone
  | .str "feature" => .ok .feature
  | .str "capability" => .ok .capability
  | .str "task" => .ok .task
  | .str "bug" => .ok .bug
  | _ => .error .invalidWorkItemType

/-- `priority if isinstance(priority, int) else int(priority)`. -/
def priorityOf (py : Library) : Json → Except Raised Int
  | .bool b => .ok b.toNat
  | .int n => .ok n
  | .float q => .ok (q.num.tdiv q.den)
  | .infinite => .error .overflowError
  | .nan => .error .notAnInteger
  | .str s =>
    match py.intOf s with
    | some n => .ok n
    | none => .error .notAnInteger
  | .null | .arr _ | .obj _ => .error .typeError

/-- A field that must be a `str`. -/
def textOf : Json → Except Raised String
  | .str s => .ok s
  | _ => .error .invalidItem

/-- `if not value: raise`. -/
def require (value : Json) (refusal : Raised) : Except Raised Unit :=
  if value.truthy then .ok () else .error refusal

def criteriaOf : Json → Except Raised (List Json)
  | .arr items => .ok items
  | _ => .error .criteriaNotList

/-- `[self._parse_item(item) for item in value]`. What a text or an object is walked by are texts,
    which have no `get`. -/
def parseEach (parseItem : Json → Except Raised Item) : Json → Except Raised (List Item)
  | .arr items => items.mapM parseItem
  | .str s => if s = "" then .ok [] else .error .attributeError
  | .obj fields => if fields.isEmpty then .ok [] else .error .attributeError
  | _ => .error .typeError

/-- `_parse_item`, up to its criteria. -/
def parseHead (fields : List (String × Json)) : Except Raised (WorkItemType × List Json) := do
  require (field fields "external_id") .externalIdRequired
  require (field fields "title") .titleRequired
  require (field fields "work_item_type") .workItemTypeRequired
  let type ← workItemType (field fields "work_item_type")
  let criteria ← criteriaOf (field fields "acceptance_criteria" (.arr []))
  return (type, criteria)

/-- `HierarchyWorkItem(...)`, at the end of `_parse_item`. -/
def buildItem (fields : List (String × Json)) (type : WorkItemType) (criteria : List Json)
    (priority : Int) (children : Nat) : Except Raised Item := do
  let externalId ← textOf (field fields "external_id")
  let title ← textOf (field fields "title")
  let description ← textOf (field fields "description" (.str ""))
  let criteria ← criteria.mapM textOf
  return ⟨externalId, title, type, description, criteria, priority, children⟩

/-- `_parse_item`, with the calls the recursion limit leaves it. -/
def parseItem (py : Library) : Nat → Json → Except Raised Item
  | 0, _ => .error .recursionError
  | depth + 1, .obj fields => do
      let (type, criteria) ← parseHead fields
      let priority ← priorityOf py (field fields "priority" (.int 3))
      let children ← parseEach (parseItem py depth) (field fields "children" (.arr []))
      buildItem fields type criteria priority children.length
  | _ + 1, _ => .error .attributeError

/-! ## `ProposalValidator` -/

def maxTitleLength : Nat := 1024
def maxDescriptionLength : Nat := 10000
def maxAcceptanceCriteriaItems : Nat := 10
def maxAcceptanceCriteriaItemLength : Nat := 2000
def maxChildrenPerNode : Nat := 100

/-- `if condition: raise`. -/
def refuse (condition : Prop) [Decidable condition] (refusal : Raised) : Except Raised Unit :=
  if condition then .error refusal else .ok ()

/-- `_normalize_and_validate_item`, of an item with no children. -/
def normalizeAndValidateItem (py : Library) (item : Item) : Except Raised Item := do
  let title := stripped (py.normalizeText item.title)
  let description := stripped (py.normalizeBreaks item.description)
  let externalId := stripped item.externalId
  let criteria := item.acceptanceCriteria.map fun ac => stripped (py.normalizeText ac)
  refuse (externalId = "") .emptyText
  refuse (title = "") .emptyText
  refuse (item.priority < 1 ∨ 3 < item.priority) .priorityRange
  refuse (maxTitleLength < title.length) .textTooLong
  refuse (maxDescriptionLength < description.length) .textTooLong
  refuse (maxAcceptanceCriteriaItems < criteria.length) .textTooLong
  refuse (∃ ac ∈ criteria, maxAcceptanceCriteriaItemLength < ac.length) .textTooLong
  return { item with
    externalId := externalId, title := title, description := description,
    acceptanceCriteria := criteria }

/-- `validate_all`, of items with no children. -/
def validateAll (py : Library) (hierarchy : List Item) : Except Raised (List Item) := do
  refuse (hierarchy = []) .emptyHierarchy
  refuse (¬ (hierarchy.map Item.externalId).Nodup) .duplicateExternalId
  refuse (∃ item ∈ hierarchy, maxChildrenPerNode < item.children) .textTooLong
  hierarchy.mapM (normalizeAndValidateItem py)

/-- What the model's turn comes to: it fails with a handled exception, its text holds no JSON
    object, or `extract_json_block` finds one. -/
inductive Reply where
  | failed
  | noObject
  | object (fields : List (String × Json))

def requireCriteriaPartition (py : Library) (parent : List String) (children : List Item) :
    Except Raised Unit :=
  refuse (¬ (children.flatMap Item.acceptanceCriteria).Perm (parent.map py.normalizeText))
    .criteriaPartition

def proposed (py : Library) (limit : Nat) : Reply → Except Raised (List Item)
  | .failed => .error .turnFailed
  | .noObject => .error .noObject
  | .object fields => parseEach (parseItem py limit) (field fields "children" (.arr []))

def split (py : Library) (limit : Nat) (reply : Reply) (childType : WorkItemType)
    (criteria : List String) : Except Raised (List Item) := do
  let children ← proposed py limit reply
  refuse (children.length < 2) .tooFewChildren
  refuse (∃ child ∈ children, child.workItemType ≠ childType ∨ child.children ≠ 0) .wrongChild
  let validated ← validateAll py children
  requireCriteriaPartition py criteria validated
  return validated

/-! ## The store -/

/-- The text columns of a ticket. The id the workspace spells for a new one is left out. -/
structure Content where
  externalId : String := ""
  legacyExternalId : String := ""
  title : String := ""
  description : String := ""
  /-- `acceptance_criteria_json`, as a list. -/
  acceptanceCriteria : List String := []
  priority : Int := 3

structure Store where
  db : Database
  content : TicketId → Content

def named (db : Database) : List TicketId :=
  db.tickets.map TicketWait.Ticket.id ++ db.tickets.filterMap TicketWait.Ticket.parentTicketId
    ++ db.dependencies.flatMap fun e => [e.ticketId, e.dependsOnTicketId]

/-- `uuid4`: an id nothing has named. -/
def fresh (db : Database) : TicketId := (named db).foldr max 0 + 1

theorem le_foldr_max {n : Nat} {ids : List Nat} (h : n ∈ ids) : n ≤ ids.foldr max 0 := by
  induction ids with
  | nil => cases h
  | cons a ids ih =>
    rcases mem_cons.mp h with rfl | h
    · exact Nat.le_max_left _ _
    · exact (ih h).trans (Nat.le_max_right _ _)

theorem lt_fresh {db : Database} {id : TicketId} (h : id ∈ named db) : id < fresh db :=
  Nat.lt_succ_of_le (le_foldr_max h)

theorem lt_fresh_of_ticket {db : Database} {id : TicketId}
    (h : id ∈ db.tickets.map TicketWait.Ticket.id) : id < fresh db :=
  lt_fresh (mem_append_left _ (mem_append_left _ h))

structure NewRow where
  workspaceId : WorkspaceId
  workItemType : WorkItemType
  parentTicketId : TicketId
  isIntegrationReview : Bool
  lastUpdatedBy : String
  content : Content

def NewRow.ticket (row : NewRow) (id : TicketId) : TicketWait.Ticket where
  id := id
  workspaceId := some row.workspaceId
  workItemType := row.workItemType
  parentTicketId := some row.parentTicketId
  isIntegrationReview := row.isIntegrationReview
  revision := 0
  lastUpdatedBy := row.lastUpdatedBy

/-- `session.add(Ticket(...))`. -/
def Store.insert (s : Store) (row : NewRow) : Store where
  db := {
    tickets := s.db.tickets ++ [row.ticket (fresh s.db)]
    dependencies := s.db.dependencies
    ids_nodup := by
      rw [map_append, nodup_append]
      refine ⟨s.db.ids_nodup, pairwise_singleton _ _, ?_⟩
      intro id hid new hnew heq
      have hnew : new = fresh s.db := mem_singleton.mp hnew
      exact absurd (hnew ▸ heq ▸ lt_fresh_of_ticket hid) (Nat.lt_irrefl _) }
  content := fun id => if id = fresh s.db then row.content else s.content id

/-- The ids of new rows, in the order they are created. -/
def Store.created (s : Store) : List NewRow → List TicketId
  | [] => []
  | row :: rows => fresh s.db :: (s.insert row).created rows

def Store.children (s : Store) (parent : TicketId) : List TicketWait.Ticket :=
  s.db.tickets.filter fun t => t.parentTicketId = some parent

/-! ## The steps that commit or read -/

def splitCreatedBy : String := "oversized-ticket-split"

inductive Beat where
  /-- `finalize_hierarchy`, up to its one commit. -/
  | children (rows : List NewRow)
  /-- `add_dependency`, up to its commit. -/
  | link (later earlier : TicketId)
  /-- Its refresh of the edge. -/
  | linked (later earlier : TicketId)
  | siblings
  /-- `create_ticket`, up to the commit of the row; of its workflow instance; of its event. -/
  | review (row : NewRow)
  | opened
  | announced
  /-- The reads of `link_review_to_siblings`. -/
  | gather

def Beat.write : Beat → Store → Store
  | .children rows, s => rows.foldl Store.insert s
  | .link later earlier, s =>
    { s with db := { s.db with
        dependencies := s.db.dependencies ++ [⟨later, earlier, splitCreatedBy⟩] } }
  | .review row, s => s.insert row
  | _, s => s

structure Env where
  py : Library
  /-- The calls of `_parse_item` the recursion limit leaves. -/
  limit : Nat
  reply : Reply
  faults : Faults Beat
  workspaces : List WorkspaceId
  /-- The workspace's workflow has stages. -/
  workflow : Bool
  /-- A stage runs or awaits sign-off. -/
  midStage : Bool
  /-- The history has this content running unsplit. -/
  ranUnsplit : Bool
  /-- `_work_started`. -/
  workStarted : Bool

variable (env : Env)

abbrev Call := Act Store Raised

def commit (b : Beat) : Call Unit := env.faults.commit .stepFailed Beat.write b

def addDependency (later earlier : TicketId) : Call Unit := do
  let s ← readStore
  match TicketWait.addDependency s.db later earlier splitCreatedBy with
  | .error _ => raise .dependencyRefused
  | .ok _ =>
    if (TicketWait.existingEdge s.db later earlier).isSome then pure ()
    else do
      commit env (.link later earlier)
      commit env (.linked later earlier)

/-- `add_dependency` for each pair of a ticket and one it waits for. -/
def addDependencies : List (TicketId × TicketId) → Call Unit
  | [] => pure ()
  | (later, earlier) :: rest => do
      addDependency env later earlier
      addDependencies rest

/-! ## `finalize_hierarchy` -/

def maxAcceptanceCriteria : Nat := 12
def maxDescriptionChars : Nat := 15000

/-- `validate_parent_assignment` under the parent a row names, which must be of its workspace
    or of none. -/
def checkParent (s : Store) (workspace : WorkspaceId) (type : WorkItemType) (parent : TicketId) :
    Except Raised Unit :=
  match s.db.get parent with
  | none => .error .parentNotFound
  | some linked => do
      refuse (linked.workspaceId.isSome ∧ linked.workspaceId ≠ some workspace) .parentNotFound
      refuse (type ∉ validHierarchy linked.workItemType) .parentRefused

/-- The checks of `_create_item` and `_build_ticket`, and the row they build. -/
def buildTicket (s : Store) (workspace : WorkspaceId) (parent : TicketId) (item : Item) :
    Except Raised NewRow := do
  let title := stripped item.title
  refuse (title = "") .titleRequired
  refuse (item.priority < 1 ∨ 3 < item.priority) .priorityRange
  checkParent s workspace item.workItemType parent
  refuse (stripped item.externalId = "") .externalIdRequired
  refuse (maxAcceptanceCriteria < (normalizeCriteria item.acceptanceCriteria).length) .criteriaCap
  refuse (maxDescriptionChars < item.description.length) .descriptionCap
  return ⟨workspace, item.workItemType, parent, false, "system",
    { legacyExternalId := stripped item.externalId
      title := title, description := stripped item.description
      acceptanceCriteria := normalizeCriteria item.acceptanceCriteria
      priority := item.priority }⟩

/-- `taken_spellings`: whether some ticket answers to a ref. -/
def taken (py : Library) (s : Store) (ref : String) : Bool :=
  s.db.tickets.any fun t =>
    let held := [(s.content t.id).externalId, (s.content t.id).legacyExternalId]
    ref ∈ held ∨ py.lower ref ∈ held

def rejectConflictingRefs (py : Library) (s : Store) (hierarchy : List Item) :
    Except Raised Unit := do
  let refs := hierarchy.map fun item => stripped item.externalId
  refuse (¬ refs.Nodup) .duplicateExternalId
  refuse (∃ ref ∈ refs, taken py s ref) .externalIdTaken

/-- The refs `_persist` gives the children. -/
def referred (parent : String) (children : List Item) : List Item :=
  children.mapIdx fun i child =>
    { child with externalId := parent ++ "-part-" ++ toString (i + 1) }

/-- `workspace_for_ticket`. -/
def workspaceFor (ticket : TicketWait.Ticket) : Option WorkspaceId :=
  ticket.workspaceId.filter (· ∈ env.workspaces)

/-- The rows `_persist` has written, and `finalize_hierarchy` refuses or commits. -/
def prepared (s : Store) (ticket : TicketWait.Ticket) (children : List Item) :
    Except Raised (List NewRow) :=
  match workspaceFor env ticket with
  | none => .error .workspaceNotFound
  | some workspace => do
      let refs := referred (s.content ticket.id).externalId children
      let validated ← validateAll env.py refs
      rejectConflictingRefs env.py s validated
      validated.mapM (buildTicket s workspace ticket.id)

/-! ## `integration_review.py` -/

def reviewChildType : WorkItemType → Option WorkItemType
  | .milestone => some .feature
  | .feature => some .capability
  | _ => none

def integrationReviewTitle : String := "Integration review"
def integrationReviewDescription : String :=
  "Review that this work item's children integrate correctly as a whole. Added "
    ++ "automatically; it depends on its siblings, so it runs last."

/-- The row `create_ticket` gives a review child. -/
def reviewRow (workspace : WorkspaceId) (type : WorkItemType) (parent : TicketId) : NewRow :=
  ⟨workspace, type, parent, true, "user",
    { title := integrationReviewTitle, description := integrationReviewDescription }⟩

/-- `create_ticket`, of a review child. -/
def createReview (workspace : WorkspaceId) (type : WorkItemType) (parent : TicketId) :
    Call TicketId := do
  let s ← readStore
  match checkParent s workspace type parent with
  | .error refusal => raise refusal
  | .ok _ =>
    if !env.workflow then raise .noWorkflow
    else do
      commit env (.review (reviewRow workspace type parent))
      commit env .opened
      commit env .announced
      return fresh s.db

def linkReviewToSiblings (review : TicketId) : Call Unit := do
  commit env .gather
  let s ← readStore
  match s.db.parentOf review with
  | none => pure ()
  | some parent =>
    let siblings := (s.children parent).filter fun t => t.id ≠ review ∧ !t.isIntegrationReview
    addDependencies env (siblings.map fun t => (review, t.id))

def relinkReviews : List TicketId → Call Unit
  | [] => pure ()
  | review :: rest => do
      linkReviewToSiblings env review
      relinkReviews rest

def ensureReviewChild (parent : TicketWait.Ticket) : Call Unit :=
  match reviewChildType parent.workItemType with
  | none => pure ()
  | some type =>
    if parent.isIntegrationReview then pure ()
    else do
      commit env .siblings
      let s ← readStore
      let children := s.children parent.id
      let existing := children.filter (·.isIntegrationReview)
      if children.all (·.isIntegrationReview) then pure ()
      else if existing ≠ [] then relinkReviews env (existing.map TicketWait.Ticket.id)
      else
        match workspaceFor env parent with
        | none => pure ()
        | some workspace => do
            let review ← createReview env workspace type parent.id
            linkReviewToSiblings env review

/-! ## `split_oversized_ticket` -/

def splitAtAcceptanceCriteria : Nat := 15

/-- The criteria of a ticket, as `load_criteria` reads them. -/
def criteria (s : Store) (id : TicketId) : List String :=
  normalizeCriteria (s.content id).acceptanceCriteria

def isOversized (s : Store) (id : TicketId) : Bool :=
  splitAtAcceptanceCriteria < (criteria s id).length
    || maxDescriptionChars < (s.content id).description.length

def splitChildType (parent : WorkItemType) : Option WorkItemType :=
  (validHierarchy parent).find? (· ≠ .bug)

def persist (ticket : TicketWait.Ticket) (children : List Item) : Call (List TicketId) := do
  let s ← readStore
  match prepared env s ticket children with
  | .error refusal => raise refusal
  | .ok rows => do
      commit env (.children rows)
      let childIds := s.created rows
      addDependencies env ((childIds.zip childIds.tail).map Prod.swap)
      ensureReviewChild env ticket
      return childIds

inductive SplitOutcome where
  | notNeeded | split | unsplittable | failed | workStarted
  deriving DecidableEq

/-- The `except` of `_split`. -/
def settle : Ending Raised (List TicketId) × Store → Ending Raised SplitOutcome × Store
  | (.value _, t) => (.value .split, t)
  | (.raised e, t) => if e.handled then (.value .failed, t) else (.raised e, t)
  | (.stopped, t) => (.stopped, t)

/-- `_split`. -/
def splitCall (ticket : TicketWait.Ticket) (childType : WorkItemType) : Call SplitOutcome :=
  fun s => settle (
    match split env.py env.limit env.reply childType (criteria s ticket.id) with
    | .error refusal => (.raised refusal, s)
    | .ok children => persist env ticket children s)

/-- The split of a ticket whose children take a type, if there is one. -/
def splitInto (ticket : TicketWait.Ticket) : Option WorkItemType → Call SplitOutcome
  | none => pure .unsplittable
  | some childType => splitCall env ticket childType

/-- `split_oversized_ticket`: the outcome it returns is the one it recorded. -/
def splitOversizedTicket (ticket : TicketWait.Ticket) : Call SplitOutcome := do
  let s ← readStore
  if ticket.isIntegrationReview || !isOversized s ticket.id || !(s.children ticket.id).isEmpty
      || env.midStage || env.ranUnsplit then
    pure .notNeeded
  else if env.workStarted then pure .workStarted
  else splitInto env ticket (splitChildType ticket.workItemType)

end Loregarden.OversizedSplit
