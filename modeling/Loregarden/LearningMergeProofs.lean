import Mathlib.Data.List.Nodup
import Loregarden.LearningMergeModel
import Loregarden.MemoryProofs

/-! # What a merge keeps

    The texts and the names of both learnings, every edge either had with a third one, the runs
    that were briefed with them and what they said before.  A merge that raises leaves all as it
    was. -/

namespace Loregarden.Memory

open List Text
open Option hiding mem_map_of_mem

variable {casefold : Str → Str} {g g' : Graph} {db db' : Database} {attribution : ChangeAttribution}
variable {survivorId absorbedId : NodeId} {survivor absorbed : Node} {now : Time}
variable {relations relations' : List Relation} {relation edge : Relation}

/-! ## Texts and names -/

theorem survivor_in_mergedBody (s a : NodeContent) : rstrip isSpace s.body <:+: mergedBody s a := by
  rw [mergedBody]
  split
  · exact (rstrip_isPrefix _ _).isInfix
  · simp only [append_assoc]
    exact (prefix_append _ _).isInfix

theorem absorbed_in_mergedBody (s a : NodeContent) : strip isSpace a.body <:+: mergedBody s a := by
  rw [mergedBody]
  split
  · rename_i h
    rcases h with h | h
    · rw [h]
      exact nil_infix
    · exact h
  · exact (suffix_append _ _).isInfix

theorem exists_keepAliases (casefold : Str → Str) {given : List Str} (seen : List Str) {name : Str}
    (h : name ∈ given) (hname : collapse name ≠ []) :
    casefold (collapse name) ∈ seen ∨
      ∃ kept ∈ keepAliases casefold seen given, casefold kept = casefold (collapse name) := by
  induction given generalizing seen with
  | nil => exact absurd h not_mem_nil
  | cons first rest ih =>
    rw [keepAliases]
    rcases mem_cons.mp h with rfl | h
    · by_cases hseen : casefold (collapse name) ∈ seen
      · exact .inl hseen
      · rw [if_pos ⟨hname, hseen⟩]
        exact .inr ⟨_, mem_cons_self, rfl⟩
    · split
      · rcases ih (casefold (collapse first) :: seen) h with hseen | ⟨kept, hmem, hkept⟩
        · rcases mem_cons.mp hseen with heq | hseen
          · exact .inr ⟨_, mem_cons_self, heq.symm⟩
          · exact .inl hseen
        · exact .inr ⟨kept, mem_cons_of_mem _ hmem, hkept⟩
      · exact ih _ h

def NodeContent.names (content : NodeContent) : List Str := content.title :: content.aliases

/-- `kept` is the name, ignoring case and spacing. -/
def SameName (casefold : Str → Str) (name kept : Str) : Prop :=
  kept = name ∨ casefold kept = casefold (collapse name)

theorem name_kept {s a : NodeContent} {name : Str} (h : name ∈ s.names ++ a.names)
    (hname : collapse name ≠ []) :
    ∃ kept ∈ (mergedContent casefold s a).names, SameName casefold name kept := by
  have hcases : name = s.title ∨ name ∈ s.aliases ++ [a.title] ++ a.aliases := by
    simp only [NodeContent.names, mem_append, mem_cons] at h ⊢
    tauto
  rcases hcases with rfl | h
  · exact ⟨_, mem_cons_self, .inl rfl⟩
  · rcases exists_keepAliases casefold [casefold s.title] h hname with
      hseen | ⟨kept, hmem, hkept⟩
    · exact ⟨s.title, mem_cons_self, .inr (mem_singleton.mp hseen).symm⟩
    · exact ⟨kept, mem_cons_of_mem _ hmem, .inr hkept⟩

/-! ## Edges -/

theorem count_insertRelation (h : insertRelation db relations relation = some relations') :
    relations'.count edge =
      if edge = relation then max 1 (relations.count edge) else relations.count edge := by
  simp only [insertRelation, ite_none_left_eq_some] at h
  obtain ⟨-, -, h⟩ := h
  split at h
  all_goals
    rename_i hmem
    obtain rfl := some.inj h
  · split
    · rename_i heq
      rw [heq, max_eq_right (count_pos_iff.mpr hmem)]
    · rfl
  · rw [count_append, count_singleton]
    grind [count_eq_zero]

section Repoint

variable (hedge : edge.touches absorbedId = false) (hloop : edge.sourceId ≠ edge.targetId)
include hedge hloop

theorem count_repointEdge
    (h : repointEdge db absorbedId survivorId relations relation = some relations')
    (htouches : relation.touches absorbedId) : relations'.count edge =
      if edge = relation.repointed absorbedId survivorId then max 1 (relations.count edge)
      else relations.count edge := by
  have herase : (relations.erase relation).count edge = relations.count edge := by
    refine count_erase_of_ne ?_
    rintro rfl
    rw [hedge] at htouches
    cases htouches
  rw [repointEdge] at h
  split at h
  · rename_i hends
    rw [← some.inj h, herase, if_neg]
    rintro rfl
    exact hloop hends
  · split at h
    · cases h
    · rw [count_insertRelation h, herase]

theorem count_repointEdges {moving : List Relation}
    (h : moving.foldlM (repointEdge db absorbedId survivorId) relations = some relations')
    (htouch : ∀ relation ∈ moving, relation.touches absorbedId) : relations'.count edge =
      if edge ∈ moving.map (·.repointed absorbedId survivorId) then max 1 (relations.count edge)
      else relations.count edge := by
  induction moving generalizing relations with
  | nil =>
    obtain rfl := some.inj h
    simp
  | cons relation moving ih =>
    obtain ⟨mid, hmid, hrest⟩ := bind_eq_some_iff.mp (foldlM_cons.symm.trans h)
    rw [ih hrest fun r hr => htouch r (mem_cons_of_mem _ hr),
      count_repointEdge hedge hloop hmid (htouch relation mem_cons_self)]
    simp only [map_cons, mem_cons]
    grind

end Repoint

theorem repointed_of_not_touches (h : relation.touches absorbedId = false) :
    relation.repointed absorbedId survivorId = relation := by
  simp only [Relation.touches, Bool.or_eq_false_iff, decide_eq_false_iff_not] at h
  simp [Relation.repointed, h]

theorem touches_repointed (hne : survivorId ≠ absorbedId) (relation : Relation) :
    (relation.repointed absorbedId survivorId).touches absorbedId = false := by
  simp only [Relation.touches, Relation.repointed]
  grind

/-- Each edge is there once on the survivor, or as often as it was. -/
theorem edge_kept {relations'' : List Relation} (hne : survivorId ≠ absorbedId)
    (h : repointEdges db absorbedId survivorId g.relations = some relations')
    (h' : insertRelation db relations' ⟨survivorId, absorbedId, "supersedes"⟩ = some relations'')
    (hmem : relation ∈ g.relations)
    (hloop : (relation.repointed absorbedId survivorId).sourceId ≠
      (relation.repointed absorbedId survivorId).targetId) :
    relations''.count (relation.repointed absorbedId survivorId) =
      max 1 (g.relations.count (relation.repointed absorbedId survivorId)) := by
  have hedge := touches_repointed hne relation
  rw [count_insertRelation h', if_neg,
    count_repointEdges hedge hloop h fun r hr => (mem_filter.mp hr).2]
  · split
    · rfl
    · rename_i hnot
      cases htouches : relation.touches absorbedId with
      | true => exact absurd (mem_map_of_mem (mem_filter.mpr ⟨hmem, htouches⟩)) hnot
      | false =>
        rw [repointed_of_not_touches htouches]
        exact (max_eq_right (count_pos_iff.mpr hmem)).symm
  · intro heq
    rw [heq] at hedge
    simp [Relation.touches] at hedge

/-! ## Runs -/

theorem count_rekeyApplications {applications : List LearningApplication} {run : String}
    (hunique : applications.Nodup) (hne : survivorId ≠ absorbedId)
    (h : ⟨run, survivorId⟩ ∈ applications ∨ ⟨run, absorbedId⟩ ∈ applications) :
    (rekeyApplications absorbedId survivorId applications).count ⟨run, survivorId⟩ = 1 := by
  refine count_eq_one_of_mem ((nodup_map_iff_inj_on hunique).mpr ?_) (mem_map.mpr ?_)
  · rintro ⟨run₁, node₁⟩ h₁ ⟨run₂, node₂⟩ h₂
    grind
  · by_cases hmem : (⟨run, survivorId⟩ : LearningApplication) ∈ applications
    · exact ⟨_, hmem, if_neg fun heq => hne heq.1⟩
    · exact ⟨_, h.resolve_left hmem, if_pos ⟨rfl, hmem⟩⟩

/-! ## The merge -/

theorem recordSuperseded_spec {id : NodeId} {prior : Node} {latest : Nat}
    (h : db.recordSuperseded id prior latest now attribution = some db') :
    db'.nodes = db.nodes ∧ prior.content ∈ (db'.versions id).map Version.content ∧
      ∀ other ≠ id, db'.versions other = db.versions other := by
  obtain ⟨-, hnodes, -, hothers, hversions⟩ := recordSuperseded_eq_some h
  refine ⟨hnodes, ?_, hothers⟩
  have hmem : (prior.content, latest + 1) ∈
      (db'.versions id).map fun v => (v.content, v.version) := by
    rw [hversions]
    exact mem_filter.mpr ⟨by simp, by simp [historyKeepPerNode]⟩
  obtain ⟨v, hv, heq⟩ := mem_map.mp hmem
  exact mem_map.mpr ⟨v, hv, congrArg Prod.fst heq⟩

/-- What a merge leaves of two live nodes. -/
structure Merged (casefold : Str → Str) (g g' : Graph) (survivorId absorbedId : NodeId)
    (survivor absorbed : NodeContent) : Prop where
  live : ∃ node : Node, g'.db.nodes survivorId = some node ∧
    rstrip isSpace survivor.body <:+: node.content.body ∧
    strip isSpace absorbed.body <:+: node.content.body ∧
    (∀ name ∈ survivor.names ++ absorbed.names, collapse name ≠ [] →
      ∃ kept ∈ node.content.names, SameName casefold name kept) ∧
    (node.content = survivor ∨ survivor ∈ (g'.db.versions survivorId).map Version.content)
  absorbed : absorbed ∈ (g'.db.versions absorbedId).map Version.content
  edges : ∀ relation ∈ g.relations, ∀ moved : Relation,
    moved = relation.repointed absorbedId survivorId → moved.sourceId ≠ moved.targetId →
      g'.relations.count moved = max 1 (g.relations.count moved)
  runs : ∀ run, ⟨run, survivorId⟩ ∈ g.applications ∨ ⟨run, absorbedId⟩ ∈ g.applications →
    g'.applications.count ⟨run, survivorId⟩ = 1
  again : ∀ a b, a = absorbedId ∨ b = absorbedId → ∀ attribution now shardTakes tableTakes,
    merge casefold g' a b attribution now shardTakes tableTakes = (.raised, g')

theorem liveNode_eq_some {id : NodeId} {node : Node} (h : liveNode db id = some node) :
    db.nodes id = some node ∧ node.content.discredited = false := by
  simpa [liveNode, filter_eq_some_iff] using h

theorem mergeWrite_merged {unchanged : Prop} [Decidable unchanged] {latest : Nat}
    (hne : survivorId ≠ absorbedId)
    (hsurvivor : liveNode db survivorId = some survivor)
    (habsorbed : liveNode db absorbedId = some absorbed)
    (hwrite : mergeWrite casefold db survivorId absorbedId attribution survivor absorbed survivor
      absorbed (if unchanged then none else some latest) now true = some db') :
    db'.nodes survivorId = some (mergedNode casefold survivor absorbed survivor now) ∧
      (¬ unchanged → survivor.content ∈ (db'.versions survivorId).map Version.content) ∧
      absorbed.content ∈ (db'.versions absorbedId).map Version.content ∧
      liveNode db' absorbedId = none := by
  obtain ⟨hsurvivor, -⟩ := liveNode_eq_some hsurvivor
  obtain ⟨habsorbed, hflag⟩ := liveNode_eq_some habsorbed
  obtain ⟨first, second, hfirst, hsecond, rfl⟩ := mergeWrite_eq_some hwrite
  have hnodes : first.nodes = db.nodes ∧
      (¬ unchanged → survivor.content ∈ (first.versions survivorId).map Version.content) := by
    split at hfirst
    · exact ⟨congrArg Database.nodes (some.inj hfirst).symm, fun h => absurd ‹_› h⟩
    · obtain ⟨hnodes, hmem, -⟩ := recordSuperseded_spec hfirst
      exact ⟨hnodes, fun _ => hmem⟩
  rw [updateNode_eq (hnodes.1 ▸ hsurvivor), if_neg fun h => by
    have := congrArg NodeContent.discredited h
    simp [hflag, withdrawnContent] at this] at hsecond
  obtain ⟨hnodes', hmem, hothers⟩ := recordSuperseded_spec hsecond
  have hthere : second.nodes absorbedId = some absorbed := by
    rw [hnodes', (sameAt_put hne.symm).1, hnodes.1, habsorbed]
  rw [updateNode_eq hthere]
  refine ⟨?_, ?_, hmem, ?_⟩
  · rw [(sameAt_put hne).1, hnodes', put_nodes]
  · rw [put_versions, hothers _ hne]
    exact hnodes.2
  · rw [liveNode, put_nodes]
    rfl

theorem merge_raised_of_withdrawn {a b : NodeId} (h : liveNode g.db absorbedId = none)
    (hmem : a = absorbedId ∨ b = absorbedId) (shardTakes tableTakes : Bool) :
    merge casefold g a b attribution now shardTakes tableTakes = (.raised, g) := by
  rw [merge]
  split
  · rfl
  · rcases hmem with rfl | rfl
    · rw [h]
    · rw [h]
      cases liveNode g.db a <;> rfl

theorem mergeInShard_merged (hunique : g.applications.Nodup) (hne : survivorId ≠ absorbedId)
    (hs : liveNode g.db survivorId = some survivor) (ha : liveNode g.db absorbedId = some absorbed)
    (h : mergeInShard casefold g survivorId absorbedId survivor absorbed attribution now =
      some g') :
    g'.applications = g.applications ∧
      Merged casefold g { g' with
        applications := rekeyApplications absorbedId survivorId g.applications }
        survivorId absorbedId survivor.content absorbed.content := by
  rw [mergeInShard] at h
  split at h
  · cases h
  obtain ⟨moved, hmoved, h⟩ := bind_eq_some_iff.mp h
  obtain ⟨relations, hrelations, h⟩ := bind_eq_some_iff.mp h
  obtain ⟨db, hwrite, rfl⟩ := map_eq_some_iff.mp h
  obtain ⟨hnode, hkept, hwithdrawn, hdead⟩ := mergeWrite_merged hne hs ha hwrite
  have hcontent : (mergedNode casefold survivor absorbed survivor now).content =
      mergedContent casefold survivor.content absorbed.content :=
    congrArg (NodeContent.mk _ _ _ · _) (liveNode_eq_some hs).2
  refine ⟨rfl, ⟨_, hnode, ?_⟩, hwithdrawn, ?_, ?_, ?_⟩
  · rw [hcontent]
    refine ⟨survivor_in_mergedBody _ _, absorbed_in_mergedBody _ _, fun name => name_kept, ?_⟩
    by_cases hsame : survivor.content = mergedContent casefold survivor.content absorbed.content
    · exact .inl hsame.symm
    · exact .inr (hkept hsame)
  · rintro relation hmem moved rfl hloop
    exact edge_kept hne hmoved hrelations hmem hloop
  · exact fun run => count_rekeyApplications hunique hne
  · intro a b hmem attribution now shardTakes tableTakes
    exact merge_raised_of_withdrawn hdead hmem shardTakes tableTakes

/-- **A merge keeps everything**, or raises and changes nothing, or has lost no more than the
    outcomes it was to carry over. -/
theorem merge_keeps_everything (casefold : Str → Str) (g : Graph)
    (hunique : g.applications.Nodup) (survivorId absorbedId : NodeId)
    (attribution : ChangeAttribution) (now : Time) (shardTakes tableTakes : Bool) :
    match merge casefold g survivorId absorbedId attribution now shardTakes tableTakes with
    | (.raised, g') => g' = g
    | (.outcomesLost, g') => g'.applications = g.applications
    | (.merged, g') => ∃ survivor absorbed : Node, liveNode g.db survivorId = some survivor ∧
        liveNode g.db absorbedId = some absorbed ∧
        Merged casefold g g' survivorId absorbedId survivor.content absorbed.content := by
  rw [merge]
  by_cases hne : survivorId = absorbedId
  · rw [if_pos hne]
  rw [if_neg hne]
  cases hs : liveNode g.db survivorId with
  | none => rfl
  | some survivor =>
    cases ha : liveNode g.db absorbedId with
    | none => rfl
    | some absorbed =>
      dsimp only
      cases h : mergeInShard casefold g survivorId absorbedId survivor absorbed attribution
        now with
      | none => rfl
      | some g' =>
        obtain ⟨happlications, hmerged⟩ := mergeInShard_merged hunique hne hs ha h
        cases shardTakes with
        | false => rfl
        | true =>
          cases tableTakes with
          | false => exact happlications
          | true => exact ⟨survivor, absorbed, rfl, rfl, hmerged⟩

def learning (title body : String) : Node where
  content := ⟨title.toList, body.toList, [], false, []⟩
  createdAt := 0
  updatedAt := 0

/-- Two learnings of one title, one within the other, and a third one without a title. -/
def threeLearnings : Graph where
  db :=
    { nodes := fun id =>
        if id = "a" then some (learning "Cache" "Keys go stale.")
        else if id = "b" then some (learning "cache" "stale")
        else if id = "c" then some (learning " " "Pin it.")
        else none }
  relations := [⟨"a", "c", "related"⟩, ⟨"a", "c", "related"⟩, ⟨"c", "b", "extends"⟩]
  applications := [⟨"r", "b"⟩]

def mergedLearnings (absorbedId : NodeId) : Graph :=
  (merge asciiFold threeLearnings "a" absorbedId {} 1 true true).2

theorem threeLearnings_merged : ∃ survivor absorbed : Node,
    liveNode threeLearnings.db "a" = some survivor ∧
      liveNode threeLearnings.db "b" = some absorbed ∧
      Merged asciiFold threeLearnings (mergedLearnings "b") "a" "b" survivor.content
        absorbed.content :=
  merge_keeps_everything asciiFold threeLearnings (by decide) "a" "b" {} 1 true true

/-- A merge that changes nothing of the survivor records nothing of it, the survivor's own edges
    stay as often as they are there, and a blank title is lost. -/
theorem merge_does_not_keep :
    (merge asciiFold threeLearnings "a" "b" {} 1 true true).1 = .merged ∧
    (mergedLearnings "b").db.versions "a" = [] ∧
    (mergedLearnings "b").relations.count ⟨"a", "c", "related"⟩ = 2 ∧
    (merge asciiFold threeLearnings "a" "c" {} 1 true true).1 = .merged ∧
    ((mergedLearnings "c").db.nodes "a").map (·.content.names) = some ["Cache".toList] := by
  refine ⟨?_, length_eq_zero_iff.mp ?_, ?_, ?_, ?_⟩
  all_goals decide +kernel

end Loregarden.Memory
