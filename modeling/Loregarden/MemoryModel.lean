import Mathlib.Data.List.Infix
import Loregarden.PythonText

/-! # Memory nodes and the versions they replace

`upsert_node`, `record_superseded`, `set_discredited` and `merge` over one shard, as many sessions
call them at once. A call's reads and its write transaction are steps of their own: sqlite3 opens a
transaction at the first write only. The JSON columns are the lists they hold; `str.casefold` is a
parameter. Edges, the vault, observed outcomes and the reads after a write are left out, and what an
edge makes of a merge comes with the step.

`contents` is no table: it records what each live row has held. -/

namespace Loregarden.Memory

open Text

abbrev NodeId := String
abbrev Time := Nat

abbrev Str := List Char

scoped instance lawfulStr : LawfulBEq Str := inferInstance

/-- What a version records: everything a writer can change. -/
structure NodeContent where
  title : Str
  body : Str
  tags : List Str
  discredited : Bool
  aliases : List Str
  deriving DecidableEq

structure Origin where
  kind : Option String := none
  ref : Option String := none

/-- A row of `memory_nodes`. -/
structure Node where
  content : NodeContent
  ticketId : String := ""
  workspaceSlug : String := ""
  nodeType : String := "memory"
  createdAt : Time
  updatedAt : Time
  origin : Origin := {}

structure ChangeAttribution where
  writer : Option String := none
  note : Option String := none

/-- A row of `memory_node_versions`. -/
structure Version where
  version : Nat
  content : NodeContent
  becameCurrentAt : Time
  supersededAt : Time
  attribution : ChangeAttribution

def historyKeepPerNode : Nat := 20

structure Database where
  nodes : NodeId → Option Node := fun _ => none
  versions : NodeId → List Version := fun _ => []
  contents : NodeId → List NodeContent := fun _ => []

namespace Database

variable (db : Database)

/-- `MAX(version)`, or 0. -/
def latest (id : NodeId) : Nat := ((db.versions id).map Version.version).foldr max 0

def put (id : NodeId) (node : Node) : Database :=
  { db with
    nodes := Function.update db.nodes id (some node)
    contents :=
      if (db.nodes id).map Node.content = some node.content then db.contents
      else Function.update db.contents id (db.contents id ++ [node.content]) }

/-- The writes of `record_superseded`, given the number it read; none where the key is taken. -/
def recordSuperseded (id : NodeId) (prior : Node) (latest : Nat) (now : Time)
    (attribution : ChangeAttribution) : Option Database :=
  if (db.versions id).any (fun v => v.version = latest + 1) then none
  else
    let row := { version := latest + 1, content := prior.content, becameCurrentAt := prior.updatedAt
                 supersededAt := now, attribution := attribution }
    some { db with
      versions := Function.update db.versions id
        ((db.versions id ++ [row]).filter fun v => latest + 1 < v.version + historyKeepPerNode) }

end Database

/-- The arguments of `upsert_node`. -/
structure Upsert where
  nodeId : NodeId
  title : Str
  body : Str := []
  tags : List Str := []
  ticketId : String := ""
  workspaceSlug : String := ""
  nodeType : String := "memory"
  discredited : Option Bool := none
  attribution : ChangeAttribution := {}
  aliases : Option (List Str) := none
  origin : Option Origin := none

inductive Request where
  | upsert (args : Upsert)
  | setDiscredited (nodeId : NodeId) (discredited : Bool) (attribution : ChangeAttribution)
  | merge (survivor absorbed : NodeId) (attribution : ChangeAttribution)

inductive Stage where
  | begun (request : Request)
  /-- An upsert before it reads the live row; `seen` is the node it was made from, if any. -/
  | ready (args : Upsert) (seen : Option Node)
  | rowRead (args : Upsert) (seen row : Option Node)
  | latestRead (args : Upsert) (seen : Option Node) (row : Node) (latest : Nat)
  /-- A merge that has fetched its survivor. -/
  | survivorSeen (survivorId absorbedId : NodeId) (attribution : ChangeAttribution)
      (survivor : Node)
  | bothSeen (survivorId absorbedId : NodeId) (attribution : ChangeAttribution)
      (survivor absorbed : Node)
  | survivorRead (survivorId absorbedId : NodeId) (attribution : ChangeAttribution)
      (survivor absorbed prior : Node)
  | bothRead (survivorId absorbedId : NodeId) (attribution : ChangeAttribution)
      (survivor absorbed prior priorAbsorbed : Node)
  | mergeLatestRead (survivorId absorbedId : NodeId) (attribution : ChangeAttribution)
      (survivor absorbed prior priorAbsorbed : Node) (latest : Nat)
  | returned
  /-- It raised; what its transaction wrote is rolled back. -/
  | failed

section Content

variable (casefold : Str → Str)

/-- `" ".join(alias.split())`. -/
def collapse (given : Str) : Str := [' '].intercalate ((given.splitOnP isSpace).filter (· ≠ []))

/-- The loop of `clean_aliases`. -/
def keepAliases (seen : List Str) : List Str → List Str
  | [] => []
  | given :: rest =>
    if collapse given ≠ [] ∧ casefold (collapse given) ∉ seen then
      collapse given :: keepAliases (casefold (collapse given) :: seen) rest
    else keepAliases seen rest

def cleanAliases (aliases : List Str) (title : Str) : List Str :=
  keepAliases casefold [casefold title] aliases

/-- The content an upsert writes, given the live row it read. -/
def Upsert.incoming (args : Upsert) (row : Option Node) : NodeContent where
  title := args.title
  body := args.body
  tags := args.tags
  discredited := args.discredited.getD (row.elim false (·.content.discredited))
  aliases := (args.aliases.map (cleanAliases casefold · args.title)).getD
    (row.elim [] (·.content.aliases))

/-- The row it writes, and what the conflict clause keeps of the one that is there. -/
def Upsert.written (args : Upsert) (row there : Option Node) (now : Time) : Node where
  content := args.incoming casefold row
  ticketId := args.ticketId
  workspaceSlug := args.workspaceSlug
  nodeType := args.nodeType
  createdAt := (there.map Node.createdAt).getD ((row.map Node.createdAt).getD now)
  updatedAt := now
  origin := args.origin.getD (row.elim {} (·.origin))

def mergedBody (survivor absorbed : NodeContent) : Str :=
  let extra := strip isSpace absorbed.body
  if extra = [] ∨ extra <:+: survivor.body then survivor.body
  else
    rstrip isSpace survivor.body ++ "\n\n— merged from “".toList ++ absorbed.title
      ++ "” —\n\n".toList ++ extra

def mergedContent (survivor absorbed : NodeContent) : NodeContent where
  title := survivor.title
  body := mergedBody survivor absorbed
  tags := (survivor.tags ++ absorbed.tags).eraseDups
  discredited := false
  aliases := cleanAliases casefold (survivor.aliases ++ [absorbed.title] ++ absorbed.aliases)
    survivor.title

end Content

/-- The arguments with which `set_discredited` upserts the node it read. -/
def discreditArgs (nodeId : NodeId) (node : Node) (discredited : Bool)
    (attribution : ChangeAttribution) : Upsert where
  nodeId := nodeId
  title := node.content.title
  body := node.content.body
  tags := node.content.tags
  ticketId := node.ticketId
  workspaceSlug := node.workspaceSlug
  nodeType := node.nodeType
  discredited := some discredited
  attribution := attribution

/-- What a merge says of the absorbed node as it withdraws it. -/
def withdrawnContent (absorbed : NodeContent) (prior : Node) : NodeContent where
  title := absorbed.title
  body := absorbed.body
  tags := prior.content.tags
  discredited := true
  aliases := prior.content.aliases

section Step

variable (casefold : Str → Str)

def writeNode (db : Database) (args : Upsert) (row : Option Node) (now : Time) : Database :=
  db.put args.nodeId (args.written casefold row (db.nodes args.nodeId) now)

/-- `UPDATE` of a node's row, where it is there. -/
def Database.updateNode (db : Database) (id : NodeId) (f : Node → Node) : Database :=
  match db.nodes id with
  | none => db
  | some node => db.put id (f node)

/-- The write transaction of a merge; `survivorLatest` is the number read for the survivor, where
    a version of it is due, and `edges` whether its edges could be moved. -/
def mergeWrite (db : Database) (survivorId absorbedId : NodeId) (attribution : ChangeAttribution)
    (survivor absorbed prior priorAbsorbed : Node) (survivorLatest : Option Nat) (now : Time)
    (edges : Bool) : Option Database :=
  let merged := mergedContent casefold survivor.content absorbed.content
  let recorded := match survivorLatest with
    | none => some db
    | some latest => db.recordSuperseded survivorId prior latest now attribution
  recorded.bind fun db =>
    let db := db.updateNode survivorId fun node =>
      { node with
        content := { node.content with
          body := merged.body, tags := merged.tags, aliases := merged.aliases }
        updatedAt := now }
    if !edges then none
    else
      -- the highest number of the absorbed node is read inside the transaction
      let withdrawn :=
        if priorAbsorbed.content = withdrawnContent absorbed.content priorAbsorbed then some db
        else db.recordSuperseded absorbedId priorAbsorbed (db.latest absorbedId) now attribution
      withdrawn.map fun db =>
        db.updateNode absorbedId fun node =>
          { node with content := { node.content with discredited := true }, updatedAt := now }

/-- What ends a call: its transaction went through, or raised. -/
def settle (db : Database) (written : Option Database) : Database × Stage :=
  match written with
  | some db => (db, .returned)
  | none => (db, .failed)

/-- The next step of a call: one read, or its write transaction. `edges` says whether the edges let
    a merge through. -/
def advance (db : Database) (stage : Stage) (now : Time) (edges : Bool) : Database × Stage :=
  match stage with
  | .begun (.upsert args) => (db, .ready args none)
  | .begun (.setDiscredited nodeId discredited attribution) =>
    match db.nodes nodeId with
    | none => (db, .failed)
    | some node =>
      (db, .ready (discreditArgs nodeId node discredited attribution) (some node))
  | .begun (.merge survivorId absorbedId attribution) =>
    if survivorId = absorbedId then (db, .failed)
    else
      match db.nodes survivorId with
      | none => (db, .failed)
      | some survivor =>
        if survivor.content.discredited then (db, .failed)
        else (db, .survivorSeen survivorId absorbedId attribution survivor)
  | .ready args seen => (db, .rowRead args seen (db.nodes args.nodeId))
  | .rowRead args seen row =>
    match row with
    | none => settle db (some (writeNode casefold db args row now))
    | some prior =>
      if prior.content = args.incoming casefold row then
        settle db (some (writeNode casefold db args row now))
      else (db, .latestRead args seen prior (db.latest args.nodeId))
  | .latestRead args _ row latest =>
    settle db ((db.recordSuperseded args.nodeId row latest now args.attribution).map
      fun db => writeNode casefold db args (some row) now)
  | .survivorSeen survivorId absorbedId attribution survivor =>
    match db.nodes absorbedId with
    | none => (db, .failed)
    | some absorbed =>
      if absorbed.content.discredited then (db, .failed)
      else (db, .bothSeen survivorId absorbedId attribution survivor absorbed)
  | .bothSeen survivorId absorbedId attribution survivor absorbed =>
    if !edges then (db, .failed)
    else
      match db.nodes survivorId with
      | none => (db, .failed)
      | some prior =>
        (db, .survivorRead survivorId absorbedId attribution survivor absorbed prior)
  | .survivorRead survivorId absorbedId attribution survivor absorbed prior =>
    match db.nodes absorbedId with
    | none => (db, .failed)
    | some priorAbsorbed =>
      (db, .bothRead survivorId absorbedId attribution survivor absorbed prior priorAbsorbed)
  | .bothRead survivorId absorbedId attribution survivor absorbed prior priorAbsorbed =>
    if prior.content = mergedContent casefold survivor.content absorbed.content then
      settle db (mergeWrite casefold db survivorId absorbedId attribution survivor absorbed prior
        priorAbsorbed none now edges)
    else
      (db, .mergeLatestRead survivorId absorbedId attribution survivor absorbed prior
        priorAbsorbed (db.latest survivorId))
  | .mergeLatestRead survivorId absorbedId attribution survivor absorbed prior priorAbsorbed
      latest =>
      settle db (mergeWrite casefold db survivorId absorbedId attribution survivor absorbed prior
        priorAbsorbed (some latest) now edges)
  | .returned => (db, .returned)
  | .failed => (db, .failed)

end Step

/-- The shard and the calls on it, in the order they came. -/
structure World where
  db : Database := {}
  calls : List Stage := []

inductive Event where
  | call (request : Request)
  /-- A call takes its next step. -/
  | step (call : Nat) (now : Time) (edges : Bool)

def World.after (casefold : Str → Str) (w : World) : Event → World
  | .call request => { w with calls := w.calls ++ [.begun request] }
  | .step call now edges =>
    match w.calls[call]? with
    | none => w
    | some stage =>
      let (db, stage) := advance casefold w.db stage now edges
      { db := db, calls := w.calls.set call stage }

end Loregarden.Memory
