import Loregarden.MemoryModel

/-! # Merging two learnings

    `memory_curation.merge`, run by itself over a shard with its edges and over the table of what
    runs were briefed with.  The ids and times of edges, the other columns of an application, the
    vault and the reads behind the commits are left out. -/

namespace Loregarden.Memory

/-- A row of `memory_relations`. -/
structure Relation where
  sourceId : NodeId
  targetId : NodeId
  relationType : String
  deriving DecidableEq

/-- The values of `MemoryRelationType`. -/
def relationTypes : List String :=
  ["related", "supports", "contradicts", "extends", "part_of", "applies", "supersedes"]

structure LearningApplication where
  runId : String
  nodeId : NodeId
  deriving DecidableEq

structure Graph where
  db : Database := {}
  relations : List Relation := []
  applications : List LearningApplication := []

/-- `insert_relation`; none where it raises. -/
def insertRelation (db : Database) (relations : List Relation) (relation : Relation) :
    Option (List Relation) :=
  if relation.sourceId = relation.targetId then none
  else if (db.nodes relation.sourceId).isNone ∨ (db.nodes relation.targetId).isNone then none
  else if relation ∈ relations then some relations
  else some (relations ++ [relation])

def Relation.repointed (relation : Relation) (absorbed survivor : NodeId) : Relation where
  sourceId := if relation.sourceId = absorbed then survivor else relation.sourceId
  targetId := if relation.targetId = absorbed then survivor else relation.targetId
  relationType := relation.relationType

/-- A turn of the loop of `_repoint_edges`. -/
def repointEdge (db : Database) (absorbed survivor : NodeId) (relations : List Relation)
    (relation : Relation) : Option (List Relation) :=
  let relations := relations.erase relation
  let moved := relation.repointed absorbed survivor
  if moved.sourceId = moved.targetId then some relations
  else if moved.relationType ∉ relationTypes then none
  else insertRelation db relations moved

def Relation.touches (relation : Relation) (id : NodeId) : Bool :=
  relation.sourceId = id || relation.targetId = id

def repointEdges (db : Database) (absorbed survivor : NodeId) (relations : List Relation) :
    Option (List Relation) :=
  (relations.filter (·.touches absorbed)).foldlM (repointEdge db absorbed survivor) relations

def rekeyApplications (absorbed survivor : NodeId) (applications : List LearningApplication) :
    List LearningApplication :=
  applications.map fun row =>
    if row.nodeId = absorbed ∧ ⟨row.runId, survivor⟩ ∉ applications then
      { row with nodeId := survivor }
    else row

/-- `_live_node`; none where it raises. -/
def liveNode (db : Database) (id : NodeId) : Option Node :=
  (db.nodes id).filter fun node => !node.content.discredited

def contradict (relations : List Relation) (a b : NodeId) : Bool :=
  (⟨a, b, "contradicts"⟩ : Relation) ∈ relations ||
    (⟨b, a, "contradicts"⟩ : Relation) ∈ relations

section Merge

variable (casefold : Str → Str)

/-- `_merge_in_shard`; none where it raises and its transaction is rolled back. -/
def mergeInShard (g : Graph) (survivorId absorbedId : NodeId) (survivor absorbed : Node)
    (attribution : ChangeAttribution) (now : Time) : Option Graph :=
  if contradict g.relations survivorId absorbedId then none
  else
    let unchanged := survivor.content = mergedContent casefold survivor.content absorbed.content
    (repointEdges g.db absorbedId survivorId g.relations).bind fun relations =>
    (insertRelation g.db relations ⟨survivorId, absorbedId, "supersedes"⟩).bind fun relations =>
    -- run alone, the rows read inside the transaction are those of before it
    (mergeWrite casefold g.db survivorId absorbedId attribution survivor absorbed survivor absorbed
      (if unchanged then none else some (g.db.latest survivorId)) now true).map fun db =>
      { g with db := db, relations := relations }

inductive MergeOutcome where
  /-- It raised before the shard's commit. -/
  | raised
  /-- The shard is committed, the outcomes are not. -/
  | outcomesLost
  | merged
  deriving DecidableEq

/-- `merge`; `shardTakes` and `tableTakes` say whether the two databases take its writes. -/
def merge (g : Graph) (survivorId absorbedId : NodeId) (attribution : ChangeAttribution)
    (now : Time) (shardTakes tableTakes : Bool) : MergeOutcome × Graph :=
  if survivorId = absorbedId then (.raised, g)
  else
    match liveNode g.db survivorId, liveNode g.db absorbedId with
    | some survivor, some absorbed =>
      match mergeInShard casefold g survivorId absorbedId survivor absorbed attribution now with
      | none => (.raised, g)
      | some g' =>
        if !shardTakes then (.raised, g)
        else if !tableTakes then (.outcomesLost, g')
        else
          (.merged, { g' with
            applications := rekeyApplications absorbedId survivorId g.applications })
    | _, _ => (.raised, g)

end Merge

end Loregarden.Memory
