import Loregarden.SubtreeModel
import Loregarden.SubtreeOrderProofs

/-! # When the hold before dispatch and the driver agree

`subtree_start_hold` answers "something can start" as soon as one child that may run has a path to a
leaf; the driver takes the first of its runnable children that is not complete and pauses with it.
`Startable` is such a path for the first and `Clear` the one of the second, both of the tickets,
edges and stage maps alone: what keeps a ticket from starting (`Owes`), whether it has work left
(`HasWork`, `Settled`) and which of its stages is next (`Next`). The two walkers agree exactly where
there is no path of the first kind, or one of the second. -/

namespace Loregarden.Subtree

open List
open Bool (and_eq_true eq_false_iff or_eq_true)
open Option (some.inj map_eq_some_iff)

open Lanes (TicketState)
open Stages (StageStatus StageMap WorkflowStageDef isTerminalStage initialStages ordered)

variable {W : Type} {env : Env W} {workspace : Option W} {ticket : Ticket} {tree : Tree}
  {children : List Tree} {seen : List Nat} {siblings : Set Ticket} {child : Child}
  {list : List Child}

/-! ## What is asked of a ticket -/

/-- Why a prerequisite keeps the ticket from starting: it is not done, or it is done in the same
    workspace and its work is not reachable from the ticket's branch. -/
inductive Owes (env : Env W) (workspace : Option W) (ticket : Ticket) :
    Ticket → UnmetReason → Prop where
  | notDone {id : Nat} {prerequisite : Ticket} (hedge : id ∈ env.prerequisites ticket.id)
      (hrow : env.ticketRow id = some prerequisite)
      (hopen : prerequisite.state ≠ .done ∧ prerequisite.state ≠ .wontDo) :
      Owes env workspace ticket prerequisite .notDone
  | notLanded {id : Nat} {prerequisite : Ticket} {place : W}
      (hedge : id ∈ env.prerequisites ticket.id) (hrow : env.ticketRow id = some prerequisite)
      (hdone : prerequisite.state = .done) (hsame : prerequisite.workspaceId = ticket.workspaceId)
      (hplace : workspace = some place)
      (hout : env.workIsReachable place ticket prerequisite = some false) :
      Owes env workspace ticket prerequisite .notLanded

/-- A child that may run among its siblings: no person owes it, and what keeps it from starting is
    a sibling that is not done. -/
structure Eligible (env : Env W) (workspace : Option W) (siblings : Set Ticket)
    (ticket : Ticket) : Prop where
  kind : ticket.workItemType ≠ .initiative
  unparked : ticket.state ≠ .parked
  owes : ∀ prerequisite reason, Owes env workspace ticket prerequisite reason →
    reason = .notDone ∧ ∃ sibling ∈ siblings, sibling.id = prerequisite.id

/-- A stage that has to be settled is not. -/
def Unsettled (stages : List WorkflowStageDef) (stageMap : StageMap) : Prop :=
  ∃ stage ∈ stages, stage.optional = false ∧ stageMap stage.key ≠ .done ∧
    stageMap stage.key ≠ .wontDo

/-- The ticket is open and has stages left, for the hold. -/
def HasWork (ticket : Ticket) : Prop :=
  ticket.state ≠ .done ∧ ticket.state ≠ .wontDo ∧ ticket.stages ≠ [] ∧
    ∀ stageMap ∈ ticket.stageMap, Unsettled ticket.stages stageMap

/-- The stage map of the ticket: a fresh one, where it takes part and has none. -/
def HasMap (ticket : Ticket) (stageMap : StageMap) : Prop :=
  ticket.stageMap = some stageMap ∨
    (ticket.stageMap = none ∧ ticket.workItemType ≠ .initiative ∧ ticket.stages ≠ [] ∧
      stageMap = initialStages)

/-- The ticket is closed or has no stages left, for the driver. -/
def Settled (ticket : Ticket) : Prop :=
  ticket.state = .done ∨ ticket.state = .wontDo ∨ ticket.stages = [] ∨
    ∀ stageMap, HasMap ticket stageMap → ¬ Unsettled ticket.stages stageMap

/-- What the driver wants of every ticket it goes through. -/
structure Ready (env : Env W) (ticket : Ticket) : Prop where
  free : ticket.orchestrating = false
  open_ : ticket.state ≠ .done ∧ ticket.state ≠ .wontDo ∧
    (ticket.state = .blocked → ticket.interrupted = true)
  met : ∀ prerequisite reason,
    Owes env (env.workspaceForTicket ticket) ticket prerequisite reason →
      env.overridden ticket.id prerequisite.id = true

/-- The stage a run goes on with: the first one running, else the first one awaiting, else, where
    none is blocked, the first one pending. -/
def Next (stages : List WorkflowStageDef) (stageMap : StageMap) (stageKey : String) : Prop :=
  ∃ before after, (ordered stages).map (·.key) = before ++ stageKey :: after ∧
    ((stageMap stageKey = .running ∧ ∀ key ∈ before, stageMap key ≠ .running) ∨
      ((stageMap stageKey = .awaiting ∧ ∀ key ∈ before, stageMap key ≠ .awaiting) ∧
        ∀ stage ∈ stages, stageMap stage.key ≠ .running) ∨
      ((stageMap stageKey = .pending ∧ ∀ key ∈ before, stageMap key ≠ .pending) ∧
        ∀ stage ∈ stages, stageMap stage.key ≠ .running ∧ stageMap stage.key ≠ .awaiting ∧
          stageMap stage.key ≠ .blocked))

/-- The next stage is within its retry budget, past the gates the run may resolve. -/
inductive StageReady (env : Env W) (ticket : Ticket) : StageMap → List StageMap → Prop where
  | pick {stageMap : StageMap} {gates : List StageMap} {stageKey : String}
      (hnext : Next ticket.stages stageMap stageKey)
      (hbudget : env.retryBudgetSpent ticket stageKey = false)
      (hstatus : stageMap stageKey ≠ .awaiting) : StageReady env ticket stageMap gates
  | gate {stageMap resolved : StageMap} {rest : List StageMap} {stageKey : String}
      (hnext : Next ticket.stages stageMap stageKey)
      (hbudget : env.retryBudgetSpent ticket stageKey = false)
      (hstatus : stageMap stageKey = .awaiting) (hrest : StageReady env ticket resolved rest) :
      StageReady env ticket stageMap (resolved :: rest)

/-- The map a run of the ticket finds: the stage an interruption blocked is pending again. -/
def resumedMap (env : Env W) (ticket : Ticket) (stageMap : StageMap) : StageMap := fun stageKey =>
  if ticket.state ≠ .done ∧ ticket.state ≠ .wontDo ∧ ticket.interrupted = true ∧
      env.interruptedStageKey ticket = some stageKey then .pending
  else stageMap stageKey

/-- **A step is there to be taken**: a leaf whose prerequisites are met has a stage to start, or
    nothing keeps a parent from being finalized. -/
inductive Steps (env : Env W) : Tree → Prop where
  | leaf {ticket : Ticket} {stageMap : StageMap}
      (hmet : ∀ prerequisite reason,
        ¬ Owes env (env.workspaceForTicket ticket) ticket prerequisite reason)
      (hstages : ticket.stages ≠ []) (hmap : HasMap ticket stageMap)
      (hstage : StageReady env ticket (resumedMap env ticket stageMap)
        (env.resolvedGates ticket)) : Steps env (.node ticket [])
  | parent {ticket : Ticket} {children : List Tree} (hparent : children ≠ [])
      (hsettled : ∀ child ∈ children, Settled child.ticket)
      (hheld : ∀ child ∈ children, child.ticket.workItemType ≠ .initiative →
        Eligible env (env.workspaceForTicket ticket) {t | ∃ c ∈ children, c.ticket = t}
          child.ticket)
      (hstatus : ticket.workflowStageStatus ≠ .running ∧ ticket.workflowStageStatus ≠ .awaiting)
      (hland : (∃ stage ∈ ticket.stages, isTerminalStage stage = true) →
        (∃ stageMap, HasMap ticket stageMap) ∧ env.landsBeforeDone ticket = true) :
      Steps env (.node ticket children)

/-! ## The two paths -/

/-- A child with work left that may run among those of its siblings that have some too. -/
def MayStart (env : Env W) (workspace : Option W) (parent child : Tree) : Prop :=
  child ∈ parent.children ∧ HasWork child.ticket ∧
    Eligible env workspace {t | ∃ c ∈ parent.children, c.ticket = t ∧ HasWork t} child.ticket

/-- **Something under the ticket can start**: a path leads down from child to child that may, past
    no ticket twice, to one under which no work is left. -/
def Startable (env : Env W) (workspace : Option W) (tree : Tree) : Prop :=
  ∃ path, (tree :: path).IsChain (MayStart env workspace) ∧
    ((tree :: path).map fun t => t.ticket.id).Nodup ∧
      ∀ last ∈ (tree :: path).getLast?, ∀ child ∈ last.children, HasWork child.ticket →
        child.ticket.workItemType = .initiative

/-- The first child in the run order that may run among all its siblings and is not settled. -/
def FirstOpen (env : Env W) (parent child : Tree) : Prop :=
  ∃ before place after,
    orderedChildren env parent.children = before ++ (child.ticket, place) :: after ∧
      parent.children[place]? = some child ∧ ¬ Settled child.ticket ∧
      Eligible env (env.workspaceForTicket parent.ticket)
        {t | ∃ c ∈ parent.children, c.ticket = t} child.ticket ∧
      ∀ other ∈ before, Eligible env (env.workspaceForTicket parent.ticket)
        {t | ∃ c ∈ parent.children, c.ticket = t} other.1 → Settled other.1

/-- **The driver's path is clear**: from each first open child to the next, every ticket on it
    ready, down to a step that can be taken. -/
def Clear (env : Env W) (tree : Tree) : Prop :=
  ∃ path, (tree :: path).IsChain (FirstOpen env) ∧ (∀ t ∈ tree :: path, Ready env t.ticket) ∧
    ∀ last ∈ (tree :: path).getLast?, Steps env last

/-- A child whose workflow is settled, once it has an instance. -/
def Complete (child : Ticket) : Prop := ticketWorkflowComplete (ensureWorkflowInstance child) = true

/-- The step is one of those a pass is for: a stage of a leaf whose own prerequisites are
    met, or the end of a parent whose children are all complete. -/
def Step.Sound (env : Env W) : Step → Prop
  | .startsStage leaf _ => unmetPrerequisites env leaf = []
  | .finalizes _ children => ∀ child ∈ children, Complete child

theorem Tree.induct {P : Tree → Prop}
    (node : ∀ ticket children, (∀ child ∈ children, P child) → P (.node ticket children))
    (tree : Tree) : P tree := by
  refine Tree.rec (motive_1 := P) (motive_2 := fun children => ∀ child ∈ children, P child)
    (fun ticket children ih => node ticket children ih) ?_ ?_ tree
  · intro child hmem
    cases hmem
  · intro child rest hchild hrest other hmem
    rcases mem_cons.mp hmem with rfl | hmem
    · exact hchild
    · exact hrest other hmem

theorem holds_eq_map (seen : List Nat) (children : List Tree) :
    holds env workspace seen children = children.map (hold env workspace seen) := by
  induction children with
  | nil => rfl
  | cons child rest ih => exact congrArg (hold env workspace seen child :: ·) ih

theorem drives_eq_map (children : List Tree) : drives env children = children.map (drive env) := by
  induction children with
  | nil => rfl
  | cons child rest ih => exact congrArg (drive env child :: ·) ih

theorem takesPart_iff : takesPart ticket = true ↔ ticket.workItemType ≠ .initiative := by
  rw [takesPart, decide_eq_true_iff]
  cases ticket.workItemType <;> decide

theorem mem_terminalTicketStates {state : TicketState} :
    state ∈ terminalTicketStates ↔ state = .done ∨ state = .wontDo := by
  simp [terminalTicketStates]

theorem mem_prerequisiteRows {prerequisite : Ticket} : prerequisite ∈ prerequisiteRows env ticket ↔
    ∃ id ∈ env.prerequisites ticket.id, env.ticketRow id = some prerequisite := mem_filterMap

theorem mem_unmetFor_iff {prerequisite : Ticket} {reason : UnmetReason} :
    ⟨prerequisite, reason⟩ ∈ unmetFor env ticket workspace ↔
      Owes env workspace ticket prerequisite reason := by
  cases workspace with
  | none =>
    rw [unmetFor, mem_map]
    constructor
    · rintro ⟨row, hrow, heq⟩
      obtain ⟨rfl, rfl⟩ := UnmetPrerequisite.mk.inj heq
      obtain ⟨hmem, hopen⟩ := mem_filter.mp hrow
      obtain ⟨id, hedge, hrow⟩ := mem_prerequisiteRows.mp hmem
      have hstate := of_decide_eq_true hopen
      rw [mem_terminalTicketStates, not_or] at hstate
      exact .notDone hedge hrow hstate
    · intro howes
      cases howes with
      | notDone hedge hrow hopen =>
        refine ⟨prerequisite, mem_filter.mpr ⟨mem_prerequisiteRows.mpr ⟨_, hedge, hrow⟩, ?_⟩, rfl⟩
        rw [decide_eq_true_iff, mem_terminalTicketStates, not_or]
        exact hopen
      | notLanded _ _ _ _ hplace => cases hplace
  | some place =>
    rw [unmetFor, unmetPrerequisitesForStart, mem_filterMap]
    constructor
    · rintro ⟨row, hrow, heq⟩
      obtain ⟨id, hedge, hrow⟩ := mem_prerequisiteRows.mp hrow
      split at heq
      · rename_i hopen
        obtain ⟨rfl, rfl⟩ := UnmetPrerequisite.mk.inj (Option.some.inj heq)
        rw [mem_terminalTicketStates, not_or] at hopen
        exact .notDone hedge hrow hopen
      · rename_i hclosed
        rw [mem_terminalTicketStates, not_not] at hclosed
        split at heq
        · cases heq
        · rename_i hdone
          split at heq
          · cases heq
          · rename_i hsame
            split at heq
            · rename_i hout
              obtain ⟨rfl, rfl⟩ := UnmetPrerequisite.mk.inj (Option.some.inj heq)
              exact .notLanded hedge hrow (hclosed.resolve_right hdone) (not_not.mp hsame) rfl hout
            · cases heq
    · intro howes
      cases howes with
      | notDone hedge hrow hopen =>
        refine ⟨prerequisite, mem_prerequisiteRows.mpr ⟨_, hedge, hrow⟩, if_pos ?_⟩
        rw [mem_terminalTicketStates, not_or]
        exact hopen
      | notLanded hedge hrow hdone hsame hplace hout =>
        obtain rfl := Option.some.inj hplace
        refine ⟨prerequisite, mem_prerequisiteRows.mpr ⟨_, hedge, hrow⟩, ?_⟩
        simp [terminalTicketStates, hdone, hsame, hout]

/-- What keeps a ticket from starting, as a list, is empty where nothing does. -/
theorem unmetFor_eq_nil_iff : unmetFor env ticket workspace = [] ↔
    ∀ prerequisite reason, ¬ Owes env workspace ticket prerequisite reason := by
  rw [eq_nil_iff_forall_not_mem]
  constructor
  · exact fun h prerequisite reason howes => h _ (mem_unmetFor_iff.mpr howes)
  · exact fun h entry hentry => h entry.ticket entry.reason (mem_unmetFor_iff.mp hentry)

/-- A child has a place among its siblings, whichever order they run in. -/
theorem mem_orderedChildren_iff :
    child ∈ orderedChildren env children ↔
      ∃ tree, children[child.2]? = some tree ∧ tree.ticket = child.1 := by
  have hplaces : ((childrenOf children).map Prod.snd).Nodup := by
    rw [childrenOf, zipIdx_map_snd]
    exact nodup_range'
  rw [orderedChildren, (orderLoop_perm rfl hplaces).mem_iff, childrenOf, mem_zipIdx_iff_getElem?,
    List.getElem?_map, map_eq_some_iff]

theorem exists_place (env : Env W) (h : tree ∈ children) :
    ∃ place, children[place]? = some tree ∧
      (tree.ticket, place) ∈ orderedChildren env children := by
  obtain ⟨place, hplace⟩ := mem_iff_getElem?.mp h
  exact ⟨place, hplace, mem_orderedChildren_iff.mpr ⟨tree, hplace, rfl⟩⟩

theorem eligible_iff
    (hsiblings : ∀ id, (∃ c ∈ list, c.1.id = id) ↔ ∃ t ∈ siblings, t.id = id) :
    (takesPart ticket && ticket.state ≠ .parked &&
      (unmetAmong env workspace list ticket).isEmpty) = true ↔
        Eligible env workspace siblings ticket := by
  rw [and_eq_true, and_eq_true, takesPart_iff, decide_eq_true_iff, List.isEmpty_iff]
  have howes : unmetAmong env workspace list ticket = [] ↔ ∀ prerequisite reason,
      Owes env workspace ticket prerequisite reason →
        reason = .notDone ∧ ∃ t ∈ siblings, t.id = prerequisite.id := by
    rw [unmetAmong, filter_eq_nil_iff]
    constructor
    · intro h prerequisite reason howes
      have hsibling := h _ (mem_unmetFor_iff.mpr howes)
      rw [decide_eq_true_iff, not_not, mem_map] at hsibling
      exact ⟨hsibling.2, (hsiblings _).mp hsibling.1⟩
    · intro h entry hentry
      obtain ⟨hreason, hsibling⟩ := h _ _ (mem_unmetFor_iff.mp hentry)
      rw [decide_eq_true_iff, not_not, mem_map]
      exact ⟨(hsiblings _).mpr hsibling, hreason⟩
  rw [howes]
  exact ⟨fun ⟨⟨hkind, hunparked⟩, howes⟩ => ⟨hkind, hunparked, howes⟩,
    fun ⟨hkind, hunparked, howes⟩ => ⟨⟨hkind, hunparked⟩, howes⟩⟩

theorem mem_runnableChildren_iff
    (hsiblings : ∀ id, (∃ c ∈ list, c.1.id = id) ↔ ∃ t ∈ siblings, t.id = id) :
    child ∈ runnableChildren env workspace list ↔
      child ∈ list ∧ Eligible env workspace siblings child.1 := by
  rw [runnableChildren, mem_filter, eligible_iff hsiblings]

theorem unsettled_iff {stages : List WorkflowStageDef} (stageMap : StageMap) :
    (! requiredSettled stages stageMap) = true ↔ Unsettled stages stageMap := by
  rw [requiredSettled, Bool.not_eq_true', all_eq_false, Unsettled]
  simp [and_assoc]

theorem hasWork_iff : hasWorkLeft ticket = true ↔ HasWork ticket := by
  have hsettled : ∀ stageMap, (! requiredSettled ticket.stages stageMap) = true ↔
      Unsettled ticket.stages stageMap := unsettled_iff
  rw [hasWorkLeft, HasWork]
  by_cases hclosed : ticket.state ∈ terminalTicketStates
  · rw [if_pos hclosed]
    rcases mem_terminalTicketStates.mp hclosed with h | h <;> simp [h]
  rw [if_neg hclosed]
  rw [mem_terminalTicketStates, not_or] at hclosed
  by_cases hstages : ticket.stages = []
  · simp [hstages]
  rw [if_neg (by simpa using hstages)]
  cases hmap : ticket.stageMap with
  | none => simp [hclosed, hstages]
  | some stageMap => simp [hclosed, hstages, hsettled]

theorem hasMap_iff {stageMap : StageMap} (hstages : ticket.stages ≠ []) :
    (ensureWorkflowInstance ticket).stageMap = some stageMap ↔ HasMap ticket stageMap := by
  rw [ensureWorkflowInstance, HasMap]
  have hsome : ¬ ticket.stages.isEmpty = true := by simpa using hstages
  by_cases hkind : ticket.workItemType = .initiative
  · rw [if_neg fun h => takesPart_iff.mp h.1 hkind]
    simp [hkind]
  · rw [if_pos ⟨takesPart_iff.mpr hkind, hsome⟩]
    cases hmap : ticket.stageMap with
    | none => simp [hkind, hstages, eq_comm]
    | some own => simp

theorem settled_iff : Complete ticket ↔ Settled ticket := by
  have hstate : (ensureWorkflowInstance ticket).state = ticket.state := by
    rw [ensureWorkflowInstance]
    split <;> rfl
  have hsame : (ensureWorkflowInstance ticket).stages = ticket.stages := by
    rw [ensureWorkflowInstance]
    split <;> rfl
  rw [Complete, ticketWorkflowComplete, hstate, hsame, Settled]
  by_cases hclosed : ticket.state ∈ terminalTicketStates
  · rw [if_pos hclosed]
    rcases mem_terminalTicketStates.mp hclosed with h | h <;> simp [h]
  rw [if_neg hclosed]
  rw [mem_terminalTicketStates, not_or] at hclosed
  by_cases hstages : ticket.stages = []
  · cases (ensureWorkflowInstance ticket).stageMap <;> simp [hstages]
  cases hmap : (ensureWorkflowInstance ticket).stageMap with
  | none =>
    have hnone : ∀ stageMap, ¬ HasMap ticket stageMap := by
      intro stageMap hhas
      rw [(hasMap_iff hstages).mpr hhas] at hmap
      cases hmap
    simp [hnone]
  | some stageMap =>
    have honly : ∀ other, HasMap ticket other ↔ other = stageMap := by
      intro other
      rw [← hasMap_iff hstages, hmap, Option.some.injEq, eq_comm]
    simp [hclosed, hstages, honly, ← unsettled_iff]

/-! ## What the hold reads -/

/-- The children `_hold` partitions. -/
def incompleteChildren (env : Env W) (children : List Tree) : List Child :=
  (orderedChildren env children).filter (hasWorkLeft ·.1)

theorem mem_incompleteChildren_iff : child ∈ incompleteChildren env children ↔
    ∃ tree, children[child.2]? = some tree ∧ tree.ticket = child.1 ∧ HasWork child.1 := by
  rw [incompleteChildren, mem_filter, mem_orderedChildren_iff, hasWork_iff]
  exact ⟨fun ⟨⟨tree, hplace, hticket⟩, hwork⟩ => ⟨tree, hplace, hticket, hwork⟩,
    fun ⟨tree, hplace, hticket, hwork⟩ => ⟨⟨tree, hplace, hticket⟩, hwork⟩⟩

/-- A runnable incomplete child is one that may start. -/
theorem mayStart_iff {parent child : Tree} : MayStart env workspace parent child ↔
    ∃ place, parent.children[place]? = some child ∧ (child.ticket, place) ∈
      runnableChildren env workspace (incompleteChildren env parent.children) := by
  have hsiblings : ∀ id, (∃ c ∈ incompleteChildren env parent.children, c.1.id = id) ↔
      ∃ t ∈ {t | ∃ c ∈ parent.children, c.ticket = t ∧ HasWork t}, t.id = id := by
    intro id
    constructor
    · rintro ⟨c, hc, rfl⟩
      obtain ⟨tree, hplace, hticket, hwork⟩ := mem_incompleteChildren_iff.mp hc
      exact ⟨c.1, ⟨tree, mem_of_getElem? hplace, hticket, hwork⟩, rfl⟩
    · rintro ⟨t, ⟨c, hc, rfl, hwork⟩, rfl⟩
      obtain ⟨place, hplace, -⟩ := exists_place env hc
      exact ⟨(c.ticket, place), mem_incompleteChildren_iff.mpr ⟨c, hplace, rfl, hwork⟩, rfl⟩
  simp only [mem_runnableChildren_iff hsiblings, mem_incompleteChildren_iff]
  constructor
  · rintro ⟨hmem, hwork, heligible⟩
    obtain ⟨place, hplace, -⟩ := exists_place env hmem
    exact ⟨place, hplace, ⟨child, hplace, rfl, hwork⟩, heligible⟩
  · rintro ⟨place, hplace, ⟨other, hother, -, hwork⟩, heligible⟩
    exact ⟨mem_of_getElem? hplace, hwork, heligible⟩

/-- None of the incomplete children waits, is parked or may run where none takes part. -/
theorem nothingHeld_iff (env : Env W) (workspace : Option W) {parent : Tree} :
    (runnableChildren env workspace (incompleteChildren env parent.children) = [] ∧
        waitingChildren env workspace (incompleteChildren env parent.children) = [] ∧
        parkedChildren (incompleteChildren env parent.children) = []) ↔
      ∀ child ∈ parent.children, HasWork child.ticket →
        child.ticket.workItemType = .initiative := by
  have hparts : (runnableChildren env workspace (incompleteChildren env parent.children) = [] ∧
        waitingChildren env workspace (incompleteChildren env parent.children) = [] ∧
        parkedChildren (incompleteChildren env parent.children) = []) ↔
      ∀ c ∈ incompleteChildren env parent.children, takesPart c.1 = false := by
    rw [runnableChildren, waitingChildren, parkedChildren, map_eq_nil_iff, map_eq_nil_iff,
      filter_eq_nil_iff, filter_eq_nil_iff, filter_eq_nil_iff]
    constructor
    · rintro ⟨hrun, hwaits, hparked⟩ c hc
      have h1 := hrun c hc
      have h2 := hwaits c hc
      have h3 := hparked c hc
      by_contra htakes
      rw [Bool.not_eq_false] at htakes
      by_cases hstate : c.1.state = .parked
      · simp [htakes, hstate] at h3
      · by_cases hnone : (unmetAmong env workspace (incompleteChildren env parent.children)
            c.1).isEmpty = true
        · simp [htakes, hstate, hnone] at h1
        · simp [htakes, hstate, hnone] at h2
    · intro h
      refine ⟨fun c hc => ?_, fun c hc => ?_, fun c hc => ?_⟩ <;> simp [h c hc]
  rw [hparts]
  constructor
  · intro h child hchild hwork
    obtain ⟨place, hplace, -⟩ := exists_place env hchild
    have hnot := h (child.ticket, place)
      (mem_incompleteChildren_iff.mpr ⟨child, hplace, rfl, hwork⟩)
    exact not_not.mp (takesPart_iff.not.mp (eq_false_iff.mp hnot))
  · intro h c hc
    obtain ⟨tree, hplace, hticket, hwork⟩ := mem_incompleteChildren_iff.mp hc
    rw [← hticket] at hwork ⊢
    exact eq_false_iff.mpr (takesPart_iff.not.mpr
      (not_not_intro (h tree (mem_of_getElem? hplace) hwork)))

theorem holdOf_eq_none_iff {answer : Tree → Option Hold} :
    holdOf env workspace children (children.map answer) = none ↔
      (∃ child ∈ runnableChildren env workspace (incompleteChildren env children),
        ∃ tree, children[child.2]? = some tree ∧ answer tree = none) ∨
      (runnableChildren env workspace (incompleteChildren env children) = [] ∧
        waitingChildren env workspace (incompleteChildren env children) = [] ∧
        parkedChildren (incompleteChildren env children) = []) := by
  have hplace : ∀ child ∈ runnableChildren env workspace (incompleteChildren env children),
      ∃ tree, children[child.2]? = some tree := by
    intro child hmem
    obtain ⟨tree, htree, -⟩ := mem_incompleteChildren_iff.mp (mem_filter.mp hmem).1
    exact ⟨tree, htree⟩
  have hfree : ((runnableChildren env workspace (incompleteChildren env children)).any
      fun child => (((children.map answer)[child.2]?).map (·.isNone)).getD false) = true ↔
      ∃ child ∈ runnableChildren env workspace (incompleteChildren env children),
        ∃ tree, children[child.2]? = some tree ∧ answer tree = none := by
    rw [any_eq_true]
    refine exists_congr fun child => and_congr_right fun hmem => ?_
    obtain ⟨tree, htree⟩ := hplace child hmem
    rw [List.getElem?_map, htree]
    constructor
    · intro hnone
      exact ⟨tree, rfl, Option.isNone_iff_eq_none.mp hnone⟩
    · rintro ⟨other, hother, hnone⟩
      obtain rfl := some.inj hother
      exact Option.isNone_iff_eq_none.mpr hnone
  obtain ⟨runnable, hrunnable⟩ : ∃ runnable,
      runnableChildren env workspace (incompleteChildren env children) = runnable := ⟨_, rfl⟩
  obtain ⟨waiting, hwaiting⟩ : ∃ waiting,
      waitingChildren env workspace (incompleteChildren env children) = waiting := ⟨_, rfl⟩
  obtain ⟨parked, hparked⟩ : ∃ parked,
      parkedChildren (incompleteChildren env children) = parked := ⟨_, rfl⟩
  have hbody : holdOf env workspace children (children.map answer) = (if (runnable.any fun child =>
          (((children.map answer)[child.2]?).map (·.isNone)).getD false) = true then none
        else if (! waiting.isEmpty) = true then some (.waiting waiting)
        else if (! parked.isEmpty) = true then some (.parked parked)
        else if (! (deeperHolds runnable (children.map answer)).isEmpty) = true then
          some (.deeper (deeperHolds runnable (children.map answer)))
        else none) := by
    rw [← hrunnable, ← hwaiting, ← hparked]
    rfl
  rw [hbody]
  rw [hrunnable] at hfree hplace
  rw [hrunnable, hwaiting, hparked, ← hfree]
  by_cases hany : (runnable.any fun child =>
      (((children.map answer)[child.2]?).map (·.isNone)).getD false) = true
  · rw [if_pos hany]
    exact ⟨fun _ => .inl hany, fun _ => rfl⟩
  rw [if_neg hany, or_iff_right hany]
  cases waiting with
  | cons held rest => exact ⟨nofun, fun h => absurd h.2.1 (cons_ne_nil _ _)⟩
  | nil =>
    cases parked with
    | cons title rest => exact ⟨nofun, fun h => absurd h.2.2 (cons_ne_nil _ _)⟩
    | nil =>
      cases runnable with
      | nil => exact ⟨fun _ => ⟨rfl, rfl, rfl⟩, fun _ => rfl⟩
      | cons child rest =>
        -- a runnable child that is not free has a reason of its own
        obtain ⟨tree, htree⟩ := hplace child mem_cons_self
        refine ⟨fun hnone => ?_, fun h => absurd h.1 (cons_ne_nil _ _)⟩
        exfalso
        cases hheld : answer tree with
        | none =>
          refine hany (hfree.mpr ⟨child, mem_cons_self, tree, htree, hheld⟩)
        | some held =>
          have hdeeper : deeperHolds (child :: rest) (children.map answer) ≠ [] := by
            rw [deeperHolds, filterMap_cons, List.getElem?_map, htree]
            simp only [Option.map_some, hheld]
            exact cons_ne_nil _ _
          cases hlist : deeperHolds (child :: rest) (children.map answer) with
          | nil => exact hdeeper hlist
          | cons first others =>
            rw [hlist] at hnone
            cases hnone

/-- A path as `Startable` has one, past none of the tickets that were seen. -/
def StartableFrom (env : Env W) (workspace : Option W) (seen : List Nat) (tree : Tree) : Prop :=
  ∃ path, (tree :: path).IsChain (MayStart env workspace) ∧
    ((tree :: path).map fun t => t.ticket.id).Nodup ∧ (∀ t ∈ tree :: path, t.ticket.id ∉ seen) ∧
      ∀ last ∈ (tree :: path).getLast?, ∀ child ∈ last.children, HasWork child.ticket →
        child.ticket.workItemType = .initiative

theorem startableFrom_iff : StartableFrom env workspace seen tree ↔ tree.ticket.id ∉ seen ∧
    ((∃ child, MayStart env workspace tree child ∧
        StartableFrom env workspace (tree.ticket.id :: seen) child) ∨
      ∀ child ∈ tree.children, HasWork child.ticket → child.ticket.workItemType = .initiative) := by
  constructor
  · rintro ⟨path, hchain, hnodup, hseen, hlast⟩
    refine ⟨hseen tree mem_cons_self, ?_⟩
    cases path with
    | nil => exact .inr (hlast tree rfl)
    | cons child path =>
      rw [isChain_cons_cons] at hchain
      rw [map_cons, nodup_cons] at hnodup
      refine .inl ⟨child, hchain.1, path, hchain.2, hnodup.2, fun t ht => ?_, ?_⟩
      · rw [mem_cons, not_or]
        exact ⟨fun h => hnodup.1 (h ▸ mem_map_of_mem ht), hseen t (mem_cons_of_mem tree ht)⟩
      · rw [getLast?_cons_cons] at hlast
        exact hlast
  · rintro ⟨hnot, ⟨child, hstart, path, hchain, hnodup, hseen, hlast⟩ | hnothing⟩
    · refine ⟨child :: path, isChain_cons_cons.mpr ⟨hstart, hchain⟩, ?_, ?_, ?_⟩
      · rw [map_cons, nodup_cons]
        refine ⟨fun hmem => ?_, hnodup⟩
        obtain ⟨t, ht, hid⟩ := mem_map.mp hmem
        exact hseen t ht (hid ▸ mem_cons_self)
      · intro t ht
        rcases mem_cons.mp ht with rfl | ht
        · exact hnot
        · exact fun h => hseen t ht (mem_cons_of_mem _ h)
      · rw [getLast?_cons_cons]
        exact hlast
    · refine ⟨[], List.IsChain.singleton tree, nodup_singleton _, ?_, ?_⟩
      · intro t ht
        rw [mem_singleton.mp ht]
        exact hnot
      · intro last hmem
        obtain rfl := Option.some.inj hmem
        exact hnothing

/-- **The hold is empty exactly where something can start.** -/
theorem hold_eq_none_iff : hold env workspace seen tree = none ↔
    StartableFrom env workspace seen tree := by
  induction tree using Tree.induct generalizing seen with
  | node ticket children ih =>
    rw [hold, holds_eq_map, startableFrom_iff]
    show _ ↔ ticket.id ∉ seen ∧ _
    by_cases hseen : ticket.id ∈ seen
    · rw [if_pos hseen]
      exact iff_of_false nofun fun h => h.1 hseen
    rw [if_neg hseen, holdOf_eq_none_iff, and_iff_right hseen,
      ← nothingHeld_iff env workspace]
    refine or_congr ⟨?_, ?_⟩ Iff.rfl
    · rintro ⟨c, hrun, tree, hplace, hnone⟩
      obtain ⟨other, hother, hticket, -⟩ := mem_incompleteChildren_iff.mp (mem_filter.mp hrun).1
      obtain rfl := Option.some.inj (hother.symm.trans hplace)
      refine ⟨other, mayStart_iff.mpr ⟨c.2, hplace, ?_⟩,
        (ih other (mem_of_getElem? hplace)).mp hnone⟩
      rw [hticket]
      exact hrun
    · rintro ⟨child, hmay, hstart⟩
      obtain ⟨place, hplace, hrun⟩ := mayStart_iff.mp hmay
      exact ⟨_, hrun, child, hplace, (ih child (mem_of_getElem? hplace)).mpr hstart⟩

theorem subtreeStartHold_eq_none_iff :
    subtreeStartHold env tree workspace = none ↔ Startable env workspace tree := by
  rw [subtreeStartHold, hold_eq_none_iff]
  constructor
  · rintro ⟨path, hchain, hnodup, -, hlast⟩
    exact ⟨path, hchain, hnodup, hlast⟩
  · rintro ⟨path, hchain, hnodup, hlast⟩
    exact ⟨path, hchain, hnodup, fun _ _ => not_mem_nil, hlast⟩

theorem next_iff {stages : List WorkflowStageDef} {stageMap : StageMap} {stageKey : String} :
    nextExecutableStage stages stageMap = some stageKey ↔ Next stages stageMap stageKey := by
  have hfirst : ∀ status, ((ordered stages).map (·.key)).find? (fun key => stageMap key = status) =
      some stageKey ↔ ∃ before after, (ordered stages).map (·.key) = before ++ stageKey :: after ∧
        stageMap stageKey = status ∧ ∀ key ∈ before, stageMap key ≠ status := by
    intro status
    rw [find?_eq_some_iff_append]
    simp only [decide_eq_true_iff, Bool.not_eq_true', decide_eq_false_iff_not]
    exact ⟨fun ⟨hstatus, before, after, hkeys, hbefore⟩ => ⟨before, after, hkeys, hstatus, hbefore⟩,
      fun ⟨before, after, hkeys, hstatus, hbefore⟩ => ⟨hstatus, before, after, hkeys, hbefore⟩⟩
  have hnone : ∀ status, ((ordered stages).map (·.key)).find? (fun key => stageMap key = status) =
      none ↔ ∀ stage ∈ stages, stageMap stage.key ≠ status := by
    intro status
    rw [List.find?_eq_none, forall_mem_map]
    simp only [ordered, mem_insertionSort, decide_eq_true_iff]
  have hcases : Next stages stageMap stageKey ↔
      ((ordered stages).map (·.key)).find? (fun key => stageMap key = .running) = some stageKey ∨
      (((ordered stages).map (·.key)).find? (fun key => stageMap key = .awaiting) = some stageKey ∧
        ((ordered stages).map (·.key)).find? (fun key => stageMap key = .running) = none) ∨
      (((ordered stages).map (·.key)).find? (fun key => stageMap key = .pending) = some stageKey ∧
        ((ordered stages).map (·.key)).find? (fun key => stageMap key = .running) = none ∧
        ((ordered stages).map (·.key)).find? (fun key => stageMap key = .awaiting) = none ∧
        ((ordered stages).map (·.key)).find? (fun key => stageMap key = .blocked) = none) := by
    rw [hfirst, hfirst, hfirst, hnone, hnone, hnone, Next]
    constructor
    · rintro ⟨before, after, hkeys, hrun | ⟨hwait, hruns⟩ | ⟨hpend, hall⟩⟩
      · exact .inl ⟨before, after, hkeys, hrun⟩
      · exact .inr (.inl ⟨⟨before, after, hkeys, hwait⟩, hruns⟩)
      · exact .inr (.inr ⟨⟨before, after, hkeys, hpend⟩, fun stage h => (hall stage h).1,
          fun stage h => (hall stage h).2.1, fun stage h => (hall stage h).2.2⟩)
    · rintro (⟨before, after, hkeys, hrun⟩ | ⟨⟨before, after, hkeys, hwait⟩, hruns⟩ |
        ⟨⟨before, after, hkeys, hpend⟩, hruns, hwaits, hblocks⟩)
      · exact ⟨before, after, hkeys, .inl hrun⟩
      · exact ⟨before, after, hkeys, .inr (.inl ⟨hwait, hruns⟩)⟩
      · exact ⟨before, after, hkeys, .inr (.inr ⟨hpend, fun stage h =>
          ⟨hruns stage h, hwaits stage h, hblocks stage h⟩⟩)⟩
  have hblocked : ((ordered stages).map (·.key)).any (fun key => stageMap key = .blocked) =
      (((ordered stages).map (·.key)).find? fun key => stageMap key = .blocked).isSome :=
    List.isSome_find?.symm
  rw [nextExecutableStage, hcases]
  rw [hblocked]
  cases ((ordered stages).map (·.key)).find? fun key => stageMap key = .running with
  | some key => simp
  | none =>
    cases ((ordered stages).map (·.key)).find? fun key => stageMap key = .awaiting with
    | some key => simp
    | none =>
      cases ((ordered stages).map (·.key)).find? fun key => stageMap key = .blocked with
      | some key => simp
      | none => simp

/-! ## The driver -/

theorem ready_of_startStage {stageMap : StageMap} {gates : List StageMap} {stageKey : String}
    (h : startStage env ticket stageMap gates = .ok stageKey) :
    StageReady env ticket stageMap gates := by
  induction gates generalizing stageMap with
  | nil =>
    rw [startStage] at h
    split at h
    · cases h
    · next hnext =>
        split at h
        · cases h
        · next hbudget =>
            split at h
            · cases h
            · next hstatus => exact .pick (next_iff.mp hnext) (eq_false_iff.mpr hbudget) hstatus
  | cons resolved rest ih =>
    rw [startStage] at h
    split at h
    · cases h
    · next hnext =>
        split at h
        · cases h
        · next hbudget =>
            split at h
            · next hstatus =>
                exact .gate (next_iff.mp hnext) (eq_false_iff.mpr hbudget) hstatus (ih h)
            · next hstatus => exact .pick (next_iff.mp hnext) (eq_false_iff.mpr hbudget) hstatus

theorem startStage_of_ready {stageMap : StageMap} {gates : List StageMap}
    (h : StageReady env ticket stageMap gates) :
    ∃ stageKey, startStage env ticket stageMap gates = .ok stageKey := by
  induction h with
  | @pick _ _ stageKey hnext hbudget hstatus =>
    refine ⟨stageKey, ?_⟩
    rw [startStage.eq_def]
    dsimp only
    rw [next_iff.mpr hnext]
    dsimp only
    rw [if_neg (eq_false_iff.mp hbudget), if_neg hstatus]
  | gate hnext hbudget hstatus _ ih =>
    obtain ⟨stageKey, hstart⟩ := ih
    refine ⟨stageKey, ?_⟩
    rw [startStage, next_iff.mpr hnext]
    dsimp only
    rw [if_neg (eq_false_iff.mp hbudget), if_pos hstatus, hstart]

def StepsSoundly (env : Env W) (pass : Except Pause Step) : Prop :=
  ∃ step, pass = .ok step ∧ step.Sound env

theorem not_stepsSoundly_error (pause : Pause) : ¬ StepsSoundly env (.error pause) := by
  rintro ⟨step, hstep, -⟩
  cases hstep

theorem stepsSoundly_ok {step : Step} : StepsSoundly env (.ok step) ↔ step.Sound env := by
  constructor
  · rintro ⟨other, hother, hsound⟩
    obtain rfl := Except.ok.inj hother
    exact hsound
  · intro hsound
    exact ⟨step, rfl, hsound⟩

theorem resumedMap_eq (env : Env W) (ticket : Ticket) (stageMap : StageMap) :
    recoverInterruptedStage env ticket stageMap = resumedMap env ticket stageMap := by
  funext stageKey
  have hopen : blockedByInterruption ticket = true ↔
      ticket.state ≠ .done ∧ ticket.state ≠ .wontDo ∧ ticket.interrupted = true := by
    rw [blockedByInterruption, and_eq_true, decide_eq_true_iff, mem_terminalTicketStates, not_or,
      and_assoc]
  rw [recoverInterruptedStage, resumedMap]
  by_cases hblocked : blockedByInterruption ticket = true
  · rw [if_pos hblocked]
    obtain ⟨hdone, hwontDo, hinterrupted⟩ := hopen.mp hblocked
    cases hkey : env.interruptedStageKey ticket with
    | none => simp
    | some key =>
      by_cases hsame : stageKey = key
      · subst hsame
        simp [hdone, hwontDo, hinterrupted]
      · simp [hsame, Ne.symm hsame]
  · rw [if_neg hblocked, if_neg]
    rintro ⟨hdone, hwontDo, hinterrupted, -⟩
    exact hblocked (hopen.mpr ⟨hdone, hwontDo, hinterrupted⟩)

theorem stop_iff : shouldStopOrchestration ticket = false ↔ ticket.state ≠ .done ∧
    ticket.state ≠ .wontDo ∧ (ticket.state = .blocked → ticket.interrupted = true) := by
  rw [shouldStopOrchestration, blockedByInterruption]
  cases ticket.state <;> simp [terminalTicketStates]

theorem holding_iff : holdingPrerequisites env ticket = [] ↔ ∀ prerequisite reason,
    Owes env (env.workspaceForTicket ticket) ticket prerequisite reason →
      env.overridden ticket.id prerequisite.id = true := by
  rw [holdingPrerequisites, filter_eq_nil_iff]
  constructor
  · intro h prerequisite reason howes
    simpa using h _ (mem_unmetFor_iff.mpr howes)
  · intro h entry hentry
    simpa using h _ _ (mem_unmetFor_iff.mp hentry)

theorem ready_iff : Ready env ticket ↔ ticket.orchestrating = false ∧
    shouldStopOrchestration ticket = false ∧ holdingPrerequisites env ticket = [] := by
  rw [stop_iff, holding_iff]
  exact ⟨fun h => ⟨h.free, h.open_, h.met⟩, fun h => ⟨h.1, h.2.1, h.2.2⟩⟩

theorem runLeaf_iff : StepsSoundly env (runLeaf env ticket) ↔
    unmetPrerequisites env ticket = [] ∧ ticket.stages ≠ [] ∧
      ∃ stageMap, (ensureWorkflowInstance ticket).stageMap = some stageMap ∧
        StageReady env ticket (recoverInterruptedStage env ticket stageMap)
          (env.resolvedGates ticket) := by
  rw [runLeaf]
  cases hmap : (ensureWorkflowInstance ticket).stageMap with
  | none =>
    refine iff_of_false (not_stepsSoundly_error _) ?_
    rintro ⟨-, -, stageMap, hsome, -⟩
    cases hsome
  | some stageMap =>
    dsimp only
    by_cases hstages : ticket.stages = []
    · rw [if_pos (isEmpty_iff.mpr hstages)]
      exact iff_of_false (not_stepsSoundly_error _) fun h => h.2.1 hstages
    rw [if_neg (fun hempty => hstages (isEmpty_iff.mp hempty))]
    cases hstart : startStage env ticket (recoverInterruptedStage env ticket stageMap)
        (env.resolvedGates ticket) with
    | error pause =>
      refine iff_of_false (not_stepsSoundly_error pause) ?_
      rintro ⟨-, -, other, hother, hready⟩
      obtain rfl := some.inj hother
      obtain ⟨stageKey, hok⟩ := startStage_of_ready hready
      cases hstart.symm.trans hok
    | ok stageKey =>
      show StepsSoundly env (.ok (.startsStage ticket stageKey)) ↔ _
      rw [stepsSoundly_ok]
      constructor
      · intro hmet
        exact ⟨hmet, hstages, stageMap, rfl, ready_of_startStage hstart⟩
      · intro h
        exact h.1

theorem finalizeAggregator_iff : StepsSoundly env (finalizeAggregator env ticket children) ↔
    (∀ child ∈ children, Complete child.ticket) ∧
      (ticket.workflowStageStatus ≠ .running ∧ ticket.workflowStageStatus ≠ .awaiting) ∧
      (ticket.stages.any isTerminalStage = true →
        (ensureWorkflowInstance ticket).stageMap.isSome = true ∧
          env.landsBeforeDone ticket = true) := by
  rw [finalizeAggregator]
  by_cases hstatus : ticket.workflowStageStatus = .running ∨ ticket.workflowStageStatus = .awaiting
  · rw [if_pos hstatus]
    refine iff_of_false (not_stepsSoundly_error _) fun h => ?_
    rcases hstatus with hrunning | hawaiting
    · exact h.2.1.1 hrunning
    · exact h.2.1.2 hawaiting
  rw [if_neg hstatus]
  by_cases hinstance : ticket.stages.any isTerminalStage = true ∧
      (ensureWorkflowInstance ticket).stageMap.isNone = true
  · rw [if_pos hinstance]
    refine iff_of_false (not_stepsSoundly_error _) fun h => ?_
    have hsome := (h.2.2 hinstance.1).1
    rw [Option.isNone_iff_eq_none.mp hinstance.2] at hsome
    cases hsome
  rw [if_neg hinstance]
  by_cases hland : ticket.stages.any isTerminalStage = true ∧ ¬ env.landsBeforeDone ticket = true
  · rw [if_pos hland]
    exact iff_of_false (not_stepsSoundly_error _) fun h => hland.2 (h.2.2 hland.1).2
  rw [if_neg hland, stepsSoundly_ok]
  show (∀ child ∈ children.map Tree.ticket, Complete child) ↔ _
  rw [forall_mem_map]
  constructor
  · intro hcomplete
    refine ⟨hcomplete, not_or.mp hstatus, fun hterminal => ⟨?_, ?_⟩⟩
    · rw [Option.isSome_iff_ne_none]
      intro hnone
      exact hinstance ⟨hterminal, Option.isNone_iff_eq_none.mpr hnone⟩
    · exact not_not.mp fun hnot => hland ⟨hterminal, hnot⟩
  · intro h
    exact h.1

theorem driveOf_parent_iff {pass : Tree → Except Pause Step} (hfree : ticket.orchestrating = false)
    (hopen : shouldStopOrchestration ticket = false) (hmet : holdingPrerequisites env ticket = [])
    (hparent : children ≠ []) :
    StepsSoundly env (driveOf env ticket children (children.map pass)) ↔
      (∃ child tree, firstOpenChild env ticket children = some child ∧
        children[child.2]? = some tree ∧ StepsSoundly env (pass tree)) ∨
      (firstOpenChild env ticket children = none ∧
        waitingChildren env (env.workspaceForTicket ticket) (orderedChildren env children) = [] ∧
        parkedChildren (orderedChildren env children) = [] ∧
        StepsSoundly env (finalizeAggregator env ticket children)) := by
  rw [driveOf, if_neg (Bool.eq_false_iff.mp hfree), if_neg (Bool.eq_false_iff.mp hopen), hmet,
    if_neg Bool.noConfusion,
    if_neg (fun hempty => hparent (List.isEmpty_iff.mp hempty))]
  cases hfirst : firstOpenChild env ticket children with
  | some child =>
    obtain ⟨tree, htree, -⟩ := mem_orderedChildren_iff.mp
      (mem_filter.mp (mem_of_find?_eq_some hfirst)).1
    dsimp only
    rw [List.getElem?_map, htree, Option.map_some]
    cases hpass : pass tree with
    | ok step =>
      dsimp only
      refine ⟨fun h => .inl ⟨child, tree, rfl, htree, hpass ▸ h⟩, ?_⟩
      rintro (⟨other, tree', hother, htree', h⟩ | ⟨hnone, -⟩)
      · obtain rfl := some.inj hother
        obtain rfl := some.inj (htree.symm.trans htree')
        exact hpass ▸ h
      · cases hnone
    | error pause =>
      refine iff_of_false (not_stepsSoundly_error _) ?_
      rintro (⟨other, tree', hother, htree', h⟩ | ⟨hnone, -⟩)
      · obtain rfl := some.inj hother
        obtain rfl := some.inj (htree.symm.trans htree')
        rw [hpass] at h
        exact not_stepsSoundly_error pause h
      · cases hnone
  | none =>
    dsimp only
    cases hwaiting : waitingChildren env (env.workspaceForTicket ticket)
        (orderedChildren env children) with
    | cons held rest =>
      refine iff_of_false (not_stepsSoundly_error _) ?_
      rintro (⟨_, _, hsome, -⟩ | ⟨-, hnil, -⟩)
      · cases hsome
      · cases hnil
    | nil =>
      cases hparked : parkedChildren (orderedChildren env children) with
      | cons title rest =>
        refine iff_of_false (not_stepsSoundly_error _) ?_
        rintro (⟨_, _, hsome, -⟩ | ⟨-, -, hnil, -⟩)
        · cases hsome
        · cases hnil
      | nil =>
        refine ⟨fun h => .inr ⟨rfl, rfl, rfl, h⟩, ?_⟩
        rintro (⟨_, _, hsome, -⟩ | ⟨-, -, -, h⟩)
        · cases hsome
        · exact h

theorem not_stepsSoundly_of_not_ready {passes : List (Except Pause Step)}
    (h : ¬ Ready env ticket) : ¬ StepsSoundly env (driveOf env ticket children passes) := by
  rw [driveOf]
  by_cases hfree : ticket.orchestrating = true
  · rw [if_pos hfree]
    exact not_stepsSoundly_error _
  rw [if_neg hfree]
  by_cases hstop : shouldStopOrchestration ticket = true
  · rw [if_pos hstop]
    exact not_stepsSoundly_error _
  rw [if_neg hstop]
  cases hmet : holdingPrerequisites env ticket with
  | cons held rest => exact not_stepsSoundly_error _
  | nil => exact absurd (ready_iff.mpr ⟨eq_false_iff.mpr hfree, eq_false_iff.mpr hstop, hmet⟩) h

theorem siblings_iff (env : Env W) (children : List Tree) (id : Nat) :
    (∃ c ∈ orderedChildren env children, c.1.id = id) ↔
      ∃ t ∈ {t | ∃ c ∈ children, c.ticket = t}, t.id = id := by
  constructor
  · rintro ⟨c, hc, rfl⟩
    obtain ⟨tree, hplace, hticket⟩ := mem_orderedChildren_iff.mp hc
    exact ⟨c.1, ⟨tree, mem_of_getElem? hplace, hticket⟩, rfl⟩
  · rintro ⟨t, ⟨c, hc, rfl⟩, rfl⟩
    obtain ⟨place, -, hordered⟩ := exists_place env hc
    exact ⟨_, hordered, rfl⟩

/-- The child the driver goes down into. -/
theorem firstOpen_iff {child : Tree} : FirstOpen env (.node ticket children) child ↔
    ∃ place, firstOpenChild env ticket children = some (child.ticket, place) ∧
      children[place]? = some child := by
  have hruns : ∀ c : Child, (takesPart c.1 && c.1.state ≠ .parked &&
      (unmetAmong env (env.workspaceForTicket ticket) (orderedChildren env children)
        c.1).isEmpty) = true ↔ Eligible env (env.workspaceForTicket ticket)
          {t | ∃ c ∈ children, c.ticket = t} c.1 :=
    fun c => eligible_iff (siblings_iff env children)
  have hopen : ∀ c : Child,
      (! ticketWorkflowComplete (ensureWorkflowInstance c.1)) = true ↔ ¬ Settled c.1 := by
    intro c
    rw [Bool.not_eq_true', ← settled_iff, Complete, Bool.not_eq_true]
  have hfirst : ∀ c : Child, firstOpenChild env ticket children = some c ↔
      (Eligible env (env.workspaceForTicket ticket) {t | ∃ c ∈ children, c.ticket = t} c.1 ∧
        ¬ Settled c.1) ∧ ∃ before after, orderedChildren env children = before ++ c :: after ∧
          ∀ other ∈ before, Eligible env (env.workspaceForTicket ticket)
            {t | ∃ c ∈ children, c.ticket = t} other.1 → Settled other.1 := by
    intro c
    rw [firstOpenChild, driverRunnable, runnableChildren, find?_filter, find?_eq_some_iff_append]
    simp only [Bool.not_eq_true', decide_eq_true_iff, decide_eq_false_iff_not, hruns, hopen]
    refine and_congr_right fun _ => exists_congr fun before => exists_congr fun after =>
      and_congr_right fun _ => forall₂_congr fun other _ => ?_
    rw [not_and, not_not]
  simp only [hfirst]
  constructor
  · rintro ⟨before, place, after, hordered, hplace, hunsettled, heligible, hbefore⟩
    exact ⟨place, ⟨⟨heligible, hunsettled⟩, before, after, hordered, hbefore⟩, hplace⟩
  · rintro ⟨place, ⟨⟨heligible, hunsettled⟩, before, after, hordered, hbefore⟩, hplace⟩
    exact ⟨before, place, after, hordered, hplace, hunsettled, heligible, hbefore⟩

/-- No child waits or is parked where each that takes part may run. -/
theorem noneHeld_iff :
    (waitingChildren env (env.workspaceForTicket ticket) (orderedChildren env children) = [] ∧
        parkedChildren (orderedChildren env children) = []) ↔
      ∀ child ∈ children, child.ticket.workItemType ≠ .initiative →
        Eligible env (env.workspaceForTicket ticket) {t | ∃ c ∈ children, c.ticket = t}
          child.ticket := by
  rw [waitingChildren, parkedChildren, map_eq_nil_iff, map_eq_nil_iff, filter_eq_nil_iff,
    filter_eq_nil_iff]
  constructor
  · rintro ⟨hwaits, hparked⟩ child hchild hkind
    obtain ⟨place, -, hordered⟩ := exists_place env hchild
    refine (eligible_iff (siblings_iff env children)).mp ?_
    have hwait := hwaits _ hordered
    have hpark := hparked _ hordered
    rw [← takesPart_iff] at hkind
    by_cases hstate : child.ticket.state = .parked
    · simp [hkind, hstate] at hpark
    · simpa [hkind, hstate] using hwait
  · intro h
    have hall : ∀ c ∈ orderedChildren env children, takesPart c.1 = true →
        (takesPart c.1 && c.1.state ≠ .parked &&
          (unmetAmong env (env.workspaceForTicket ticket) (orderedChildren env children)
            c.1).isEmpty) = true := by
      intro c hc htakes
      obtain ⟨tree, hplace, hticket⟩ := mem_orderedChildren_iff.mp hc
      rw [eligible_iff (siblings_iff env children), ← hticket]
      refine h tree (mem_of_getElem? hplace) ?_
      rw [hticket]
      exact takesPart_iff.mp htakes
    refine ⟨fun c hc hwaits => ?_, fun c hc hparks => ?_⟩
    · simp only [and_eq_true] at hwaits
      have hrun := hall c hc hwaits.1.1
      simp only [and_eq_true] at hrun
      rw [hrun.2] at hwaits
      exact Bool.noConfusion hwaits.2
    · simp only [and_eq_true, decide_eq_true_iff] at hparks
      have hrun := hall c hc hparks.1
      simp only [and_eq_true, decide_eq_true_iff] at hrun
      exact hrun.1.2 hparks.2

theorem clear_iff : Clear env tree ↔ Ready env tree.ticket ∧
    ((∃ child, FirstOpen env tree child ∧ Clear env child) ∨ Steps env tree) := by
  constructor
  · rintro ⟨path, hchain, hready, hlast⟩
    refine ⟨hready tree mem_cons_self, ?_⟩
    cases path with
    | nil => exact .inr (hlast tree rfl)
    | cons child path =>
      rw [isChain_cons_cons] at hchain
      rw [getLast?_cons_cons] at hlast
      exact .inl ⟨child, hchain.1, path, hchain.2, fun t ht => hready t (mem_cons_of_mem tree ht),
        hlast⟩
  · rintro ⟨hready, ⟨child, hfirst, path, hchain, hrest, hlast⟩ | hsteps⟩
    · refine ⟨child :: path, isChain_cons_cons.mpr ⟨hfirst, hchain⟩, ?_, ?_⟩
      · exact forall_mem_cons.mpr ⟨hready, hrest⟩
      · rw [getLast?_cons_cons]
        exact hlast
    · refine ⟨[], List.IsChain.singleton tree, forall_mem_singleton.mpr hready, ?_⟩
      intro last hmem
      obtain rfl := Option.some.inj hmem
      exact hsteps

theorem steps_leaf_iff : Steps env (.node ticket []) ↔ StepsSoundly env (runLeaf env ticket) := by
  rw [runLeaf_iff, unmetPrerequisites, unmetFor_eq_nil_iff]
  simp only [resumedMap_eq]
  constructor
  · intro hsteps
    cases hsteps with
    | leaf hmet hstages hmap hstage =>
      exact ⟨hmet, hstages, _, (hasMap_iff hstages).mpr hmap, hstage⟩
    | parent hparent => exact absurd rfl hparent
  · rintro ⟨hmet, hstages, stageMap, hmap, hstage⟩
    exact .leaf hmet hstages ((hasMap_iff hstages).mp hmap) hstage

theorem steps_parent_iff (hparent : children ≠ []) : Steps env (.node ticket children) ↔
    (firstOpenChild env ticket children = none ∧
      waitingChildren env (env.workspaceForTicket ticket) (orderedChildren env children) = [] ∧
      parkedChildren (orderedChildren env children) = [] ∧
      StepsSoundly env (finalizeAggregator env ticket children)) := by
  have hinstance : (∃ stage ∈ ticket.stages, isTerminalStage stage = true) →
      ((∃ stageMap, HasMap ticket stageMap) ↔
        (ensureWorkflowInstance ticket).stageMap.isSome = true) := by
    rintro ⟨stage, hstage, -⟩
    rw [Option.isSome_iff_exists]
    exact exists_congr fun stageMap => (hasMap_iff (ne_nil_of_mem hstage)).symm
  rw [finalizeAggregator_iff, any_eq_true, ← and_assoc (b := parkedChildren _ = []), noneHeld_iff]
  constructor
  · intro hsteps
    cases hsteps with
    | leaf => exact absurd rfl hparent
    | parent _ hsettled hheld hstatus hland =>
      have hcomplete : ∀ child ∈ children, Complete child.ticket :=
        fun child hchild => settled_iff.mpr (hsettled child hchild)
      refine ⟨?_, hheld, hcomplete, hstatus, fun hterminal => ?_⟩
      · rw [Option.eq_none_iff_forall_ne_some]
        intro c hfirst
        obtain ⟨tree, hplace, hticket⟩ := mem_orderedChildren_iff.mp
          (mem_filter.mp (mem_of_find?_eq_some hfirst)).1
        have hopen := find?_some hfirst
        have hdone := hcomplete tree (mem_of_getElem? hplace)
        rw [hticket, Complete] at hdone
        rw [hdone] at hopen
        cases hopen
      · exact ⟨(hinstance hterminal).mp (hland hterminal).1, (hland hterminal).2⟩
  · rintro ⟨-, hheld, hcomplete, hstatus, hland⟩
    exact .parent hparent (fun child hchild => settled_iff.mp (hcomplete child hchild)) hheld
      hstatus fun hterminal =>
        ⟨(hinstance hterminal).mpr (hland hterminal).1, (hland hterminal).2⟩

/-- **A pass takes a step it is for exactly where its path is clear.** -/
theorem drive_iff : StepsSoundly env (drive env tree) ↔ Clear env tree := by
  induction tree using Tree.induct with
  | node ticket children ih =>
    rw [drive, drives_eq_map, clear_iff]
    show _ ↔ Ready env ticket ∧ _
    by_cases hready : Ready env ticket
    swap
    · exact iff_of_false (not_stepsSoundly_of_not_ready hready) fun h => hready h.1
    rw [and_iff_right hready]
    obtain ⟨hfree, hopen, hmet⟩ := ready_iff.mp hready
    by_cases hparent : children = []
    · subst hparent
      have hbody : driveOf env ticket [] [] = runLeaf env ticket := by
        rw [driveOf, if_neg (eq_false_iff.mp hfree), if_neg (eq_false_iff.mp hopen), hmet,
          if_neg Bool.noConfusion]
        rfl
      rw [map_nil, hbody, ← steps_leaf_iff]
      refine ⟨.inr, fun h => h.resolve_left ?_⟩
      rintro ⟨child, hfirst, -⟩
      obtain ⟨place, -, hplace⟩ := firstOpen_iff.mp hfirst
      cases hplace
    · rw [driveOf_parent_iff hfree hopen hmet hparent, ← steps_parent_iff hparent]
      refine or_congr ⟨?_, ?_⟩ Iff.rfl
      · rintro ⟨c, tree, hfirst, hplace, hstep⟩
        obtain ⟨other, hother, hticket⟩ := mem_orderedChildren_iff.mp
          (mem_filter.mp (mem_of_find?_eq_some hfirst)).1
        obtain rfl := Option.some.inj (hother.symm.trans hplace)
        refine ⟨other, firstOpen_iff.mpr ⟨c.2, ?_, hplace⟩, (ih other (mem_of_getElem? hplace)).mp
          hstep⟩
        rw [hticket]
        exact hfirst
      · rintro ⟨child, hfirst, hclear⟩
        obtain ⟨place, hfirst, hplace⟩ := firstOpen_iff.mp hfirst
        exact ⟨_, child, hfirst, hplace, (ih child (mem_of_getElem? hplace)).mpr hclear⟩

def exampleStage : WorkflowStageDef := { key := "work", agentId := "agent" }

def exampleTicket (id : Nat) (priority : Int) : Ticket where
  id := id
  externalId := "t"
  title := "ticket"
  workItemType := .feature
  priority := priority
  state := .inProgress
  stages := [exampleStage]

/-- Ticket 3 waits on ticket 9, which is under no parent of the tree and not done. -/
def exampleEnv : Env Unit where
  ticketRow id := if id = 9 then some (exampleTicket 9 1) else none
  prerequisites id := if id = 3 then [9] else []
  workspaceForTicket _ := some ()
  workIsReachable _ _ _ := none
  overridden _ _ := false
  interruptedStageKey _ := none
  retryBudgetSpent _ _ := false
  resolvedGates _ := []
  landsBeforeDone _ := true

/-- A parent of a parent whose only child waits, and of a leaf that may start. -/
def twoBranches : Tree :=
  .node (exampleTicket 1 1)
    [.node (exampleTicket 2 1) [.node (exampleTicket 3 1) []], .node (exampleTicket 4 2) []]

end Loregarden.Subtree
