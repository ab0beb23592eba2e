import Loregarden.MemoryModel
import Loregarden.RunProofs
import Loregarden.VersionLogProofs

/-! # What a node's history keeps

Each content the live row of a node has held is the live one or the one of its number among the
node's versions: `Kept`. A write keeps that when what its call has read still stands as it writes; a
write that meets its version number taken fails and changes nothing. Between a call's first read and
its write nothing holds other sessions off, so an edit can be overwritten that no version holds:
`lost_edit`. -/

namespace Loregarden.Memory

open VersionLog Runs List Stage Function
open Option hiding filter_map map_map

variable {latest : Nat} {now : Time} {attribution : ChangeAttribution} {live prior : Node}
variable {stage : Stage} {survivorLatest : Option Nat} {edges : Bool}

/-- **Every content a node has held is kept**: the last is the live one, and the ones before it are
    the versions, numbered in the order they were replaced, of which the newest are retained. -/
structure Kept (db : Database) (id : NodeId) : Prop where
  absent : db.nodes id = none → db.contents id = [] ∧ db.versions id = []
  recorded : ∀ node : Node, db.nodes id = some node → ∃ past : List NodeContent,
    db.contents id = past ++ [node.content] ∧
      (db.versions id).map (fun v => (v.content, v.version)) = recent historyKeepPerNode past

/-! ## One node under the database's writes -/

section Writes

variable {db db' : Database} {id other : NodeId} {node prior : Node}

def numberTaken (db : Database) (id : NodeId) (latest : Nat) : Bool :=
  (db.versions id).any fun v => v.version = latest + 1

def SameAt (db db' : Database) (id : NodeId) : Prop :=
  db'.nodes id = db.nodes id ∧ db'.versions id = db.versions id ∧ db'.contents id = db.contents id

theorem SameAt.trans {db'' : Database} (h : SameAt db db' id) (h' : SameAt db' db'' id) :
    SameAt db db'' id :=
  ⟨h'.1.trans h.1, h'.2.1.trans h.2.1, h'.2.2.trans h.2.2⟩

theorem Kept.of_same (h : Kept db id) (hsame : SameAt db db' id) : Kept db' id := by
  obtain ⟨hnodes, hversions, hcontents⟩ := hsame
  constructor
  · rw [hnodes, hversions, hcontents]
    exact h.absent
  · rw [hnodes, hversions, hcontents]
    exact h.recorded

theorem put_nodes : (db.put id node).nodes id = some node := by
  show update db.nodes id (some node) id = some node
  rw [update_self]

@[simp] theorem put_versions : (db.put id node).versions = db.versions := rfl

theorem put_contents_same (h : (db.nodes id).map Node.content = some node.content) :
    (db.put id node).contents id = db.contents id := by
  show (if _ then _ else _ : NodeId → List NodeContent) id = _
  rw [if_pos h]

theorem put_contents_new (h : (db.nodes id).map Node.content ≠ some node.content) :
    (db.put id node).contents id = db.contents id ++ [node.content] := by
  show (if _ then _ else _ : NodeId → List NodeContent) id = _
  rw [if_neg h, update_self]

theorem sameAt_put (h : other ≠ id) : SameAt db (db.put id node) other := by
  refine ⟨?_, rfl, ?_⟩
  · show update db.nodes id (some node) other = _
    rw [update_of_ne h]
  · show (if _ then _ else _ : NodeId → List NodeContent) other = _
    split
    · rfl
    · rw [update_of_ne h]

theorem contents_prefix_put : db.contents other <+: (db.put id node).contents other := by
  by_cases h : other = id
  · subst h
    by_cases hc : (db.nodes other).map Node.content = some node.content
    · rw [put_contents_same hc]
    · rw [put_contents_new hc]
      exact prefix_append _ _
  · rw [(sameAt_put h).2.2]

theorem recordSuperseded_eq_some
    (h : db.recordSuperseded id prior latest now attribution = some db') :
    numberTaken db id latest = false ∧ db'.nodes = db.nodes ∧ db'.contents = db.contents ∧
      (∀ other, other ≠ id → db'.versions other = db.versions other) ∧
      (db'.versions id).map (fun v => (v.content, v.version)) =
        ((db.versions id).map (fun v => (v.content, v.version)) ++
          [(prior.content, latest + 1)]).filter
            fun p => latest + 1 < p.2 + historyKeepPerNode := by
  rw [Database.recordSuperseded] at h
  split at h
  · cases h
  · rename_i htaken
    obtain rfl := some.inj h
    refine ⟨by simpa [numberTaken] using htaken, rfl, rfl, ?_, ?_⟩
    · intro other hne
      exact update_of_ne hne _ _
    · show (update db.versions id _ id).map _ = _
      rw [update_self, ← map_singleton (f := fun v : Version => (v.content, v.version))
          (a := ⟨latest + 1, prior.content, prior.updatedAt, now, attribution⟩),
        ← map_append, filter_map]
      rfl

theorem latest_of_recent {past : List NodeContent}
    (hpast : (db.versions id).map (fun v => (v.content, v.version)) =
      recent historyKeepPerNode past) : db.latest id = past.length := by
  rw [Database.latest, ← foldr_max_recent (show 0 < historyKeepPerNode by decide) past, ← hpast,
    map_map]
  rfl

theorem kept_put (h : ∃ past, (db.put id node).contents id = past ++ [node.content] ∧
    ((db.put id node).versions id).map (fun v => (v.content, v.version)) =
      recent historyKeepPerNode past) : Kept (db.put id node) id where
  absent habs := by
    rw [put_nodes] at habs
    cases habs
  recorded live hlive := by
    rw [put_nodes] at hlive
    exact some.inj hlive ▸ h

section

variable (h : Kept db id)
include h

theorem Kept.create (hnone : db.nodes id = none) : Kept (db.put id node) id := by
  obtain ⟨hcontents, hversions⟩ := h.absent hnone
  refine kept_put ⟨[], ?_, ?_⟩
  · rw [put_contents_new (by simp [hnone]), hcontents]
  · rw [put_versions, hversions]
    simp

section

variable (hlive : db.nodes id = some live)
include hlive

theorem Kept.rewrite (hsame : live.content = node.content) : Kept (db.put id node) id := by
  obtain ⟨past, hcontents, hversions⟩ := h.recorded live hlive
  refine kept_put ⟨past, ?_, hversions⟩
  rw [put_contents_same (by rw [hlive, map_some, hsame]), hcontents, hsame]

section

variable (hprior : prior.content = live.content)
  (hrec : db.recordSuperseded id prior (db.latest id) now attribution = some db')
  (hnew : node.content ≠ live.content)
include hprior hrec hnew

/-- **A row that replaces another**, once a version holds what was there. -/
theorem Kept.replace : Kept (db'.put id node) id := by
  obtain ⟨past, hcontents, hversions⟩ := h.recorded live hlive
  obtain ⟨-, hnodes', hcontents', -, hversions'⟩ := recordSuperseded_eq_some hrec
  refine kept_put ⟨past ++ [live.content], ?_, ?_⟩
  · have hne : (db'.nodes id).map Node.content ≠ some node.content := by
      rw [hnodes', hlive]
      intro heq
      exact hnew (some.inj heq).symm
    rw [put_contents_new hne, hcontents', hcontents]
  · rw [put_versions, hversions', hversions, latest_of_recent hversions, hprior, recent_snoc]

structure Written (db db' : Database) (id : NodeId) (node : Node) : Prop where
  row : db'.nodes id = some node
  same : ∀ other : NodeId, other ≠ id → SameAt db db' other
  grows : ∀ other : NodeId, db.contents other <+: db'.contents other
  kept : Kept db' id

omit hlive in
omit hprior hrec hnew in
theorem written_create (hnone : db.nodes id = none) : Written db (db.put id node) id node where
  row := put_nodes
  same _ hne := sameAt_put hne
  grows _ := contents_prefix_put
  kept := h.create hnone

omit hprior hrec hnew in
theorem written_rewrite
    (hsame : live.content = node.content) : Written db (db.put id node) id node where
  row := put_nodes
  same _ hne := sameAt_put hne
  grows _ := contents_prefix_put
  kept := h.rewrite hlive hsame

theorem written_replace : Written db (db'.put id node) id node := by
  obtain ⟨-, hnodes, hcontents, hversions, -⟩ := recordSuperseded_eq_some hrec
  refine ⟨put_nodes, ?_, ?_, h.replace hlive hprior hrec hnew⟩
  · intro other hne
    have hrest : SameAt db db' other := by
      refine ⟨?_, hversions other hne, ?_⟩
      · rw [hnodes]
      · rw [hcontents]
    exact hrest.trans (sameAt_put hne)
  · intro other
    rw [← hcontents]
    exact contents_prefix_put

end

end

end

end Writes

/-! ## The calls -/

section Calls

variable (casefold : Str → Str)

def Step (w : World) (e : Event) (w' : World) : Prop := w.after casefold e = w'

/-- Whether the next step of a call is its write transaction. -/
def Stage.writes : Stage → Bool
  | .rowRead args _ row => (row.map Node.content).all (· = args.incoming casefold row)
  | .latestRead .. => true
  | .bothRead _ _ _ survivor absorbed prior _ =>
    prior.content = mergedContent casefold survivor.content absorbed.content
  | .mergeLatestRead .. => true
  | _ => false

/-- Whether that transaction raises: its version number is taken, or the edges turn a merge away. -/
def Stage.turnedAway (db : Database) (edges : Bool) : Stage → Bool
  | .latestRead args _ _ latest => numberTaken db args.nodeId latest
  | .bothRead .. => !edges
  | .mergeLatestRead survivorId _ _ _ _ _ _ latest => numberTaken db survivorId latest || !edges
  | _ => false

/-- Whether the content read of a node is the content that stands. -/
def stands (db : Database) (id : NodeId) (row : Option Node) : Bool :=
  row.map Node.content = (db.nodes id).map Node.content

/-- Whether the texts of the node that an upsert was made from, if any, stand. -/
def textStands (db : Database) (id : NodeId) (seen : Option Node) : Bool :=
  seen.all fun node => (db.nodes id).all fun live =>
    live.content.title = node.content.title ∧ live.content.body = node.content.body ∧
      live.content.tags = node.content.tags

/-- Whether all that a call has read of the nodes it writes still stands. -/
def Stage.standing (db : Database) : Stage → Bool
  | .rowRead args seen row => stands db args.nodeId row && textStands db args.nodeId seen
  | .latestRead args seen row latest =>
    stands db args.nodeId (some row) && textStands db args.nodeId seen &&
      latest = db.latest args.nodeId
  | .bothRead survivorId absorbedId _ survivor absorbed prior priorAbsorbed =>
    stands db survivorId (some survivor) && stands db survivorId (some prior) &&
      stands db absorbedId (some absorbed) && stands db absorbedId (some priorAbsorbed)
  | .mergeLatestRead survivorId absorbedId _ survivor absorbed prior priorAbsorbed latest =>
    stands db survivorId (some survivor) && stands db survivorId (some prior) &&
      stands db absorbedId (some absorbed) && stands db absorbedId (some priorAbsorbed) &&
      latest = db.latest survivorId
  | _ => true

/-- No other session comes between a call's reads and its write, or the write is turned away. -/
def undisturbed (w : World) : Event → Bool
  | .call _ => true
  | .step call _ edges =>
    (w.calls[call]?).all fun stage =>
      !stage.writes casefold || stage.turnedAway w.db edges || stage.standing w.db

/-- Whether a call brings a flag of its own for a node. -/
def Stage.passesFlag (id : NodeId) : Stage → Bool
  | .begun (.upsert args) | .ready args _ | .rowRead args _ _ | .latestRead args _ _ _ =>
    args.nodeId = id && args.discredited.isSome
  | .begun (.setDiscredited nodeId _ _) => nodeId = id
  | .begun (.merge _ absorbedId _) | .survivorSeen _ absorbedId _ _
  | .bothSeen _ absorbedId _ _ _ | .survivorRead _ absorbedId _ _ _ _
  | .bothRead _ absorbedId _ _ _ _ _ | .mergeLatestRead _ absorbedId _ _ _ _ _ _ =>
    absorbedId = id
  | .returned | .failed => false

/-- Whether a call brings a title, a body or tags of its own for a node. -/
def Stage.passesText (id : NodeId) : Stage → Bool
  | .begun (.upsert args) => args.nodeId = id
  | .ready args seen | .rowRead args seen _ | .latestRead args seen _ _ =>
    args.nodeId = id && seen.isNone
  | .begun (.setDiscredited _ _ _) => false
  | .begun (.merge survivorId _ _) | .survivorSeen survivorId _ _ _
  | .bothSeen survivorId _ _ _ _ | .survivorRead survivorId _ _ _ _ _
  | .bothRead survivorId _ _ _ _ _ _ | .mergeLatestRead survivorId _ _ _ _ _ _ _ =>
    survivorId = id
  | .returned | .failed => false

end Calls

def LeavesFlag (db db' : Database) (id : NodeId) : Prop :=
  ∀ node : Node, db.nodes id = some node → ∃ node' : Node, db'.nodes id = some node' ∧
    node'.content.discredited = node.content.discredited

def LeavesText (db db' : Database) (id : NodeId) : Prop :=
  ∀ node : Node, db.nodes id = some node → ∃ node' : Node, db'.nodes id = some node' ∧
    node'.content.title = node.content.title ∧ node'.content.body = node.content.body ∧
    node'.content.tags = node.content.tags

/-- What a step of a call does: every content is kept, and what the call does not bring is left. -/
structure Keeps (db db' : Database) (stage : Stage) : Prop where
  kept : ∀ id : NodeId, Kept db' id
  grows : ∀ id : NodeId, db.contents id <+: db'.contents id
  flag : ∀ id : NodeId, stage.passesFlag id = false → LeavesFlag db db' id
  text : ∀ id : NodeId, stage.passesText id = false → LeavesText db db' id

section Leaves

variable {db db' db'' : Database} {id : NodeId} {stage : Stage}

theorem SameAt.leavesFlag (h : SameAt db db' id) : LeavesFlag db db' id := by
  intro node hnode
  exact ⟨node, h.1.trans hnode, rfl⟩

theorem SameAt.leavesText (h : SameAt db db' id) : LeavesText db db' id := by
  intro node hnode
  exact ⟨node, h.1.trans hnode, rfl, rfl, rfl⟩

theorem Keeps.refl (h : ∀ id, Kept db id) : Keeps db db stage where
  kept := h
  grows _ := prefix_refl _
  flag _ _ := SameAt.leavesFlag ⟨rfl, rfl, rfl⟩
  text _ _ := SameAt.leavesText ⟨rfl, rfl, rfl⟩

theorem Keeps.of_written {node : Node} (h : ∀ id, Kept db id) (hw : Written db db' id node)
    (hflag : stage.passesFlag id = false → ∀ live : Node, db.nodes id = some live →
      node.content.discredited = live.content.discredited)
    (htext : stage.passesText id = false → ∀ live : Node, db.nodes id = some live →
      node.content.title = live.content.title ∧ node.content.body = live.content.body ∧
        node.content.tags = live.content.tags) : Keeps db db' stage := by
  refine ⟨?_, hw.grows, ?_, ?_⟩
  · intro other
    by_cases hid : other = id
    · rw [hid]
      exact hw.kept
    · exact (h other).of_same (hw.same other hid)
  · intro other hpass
    by_cases hid : other = id
    · subst hid
      intro live hlive
      exact ⟨node, hw.row, hflag hpass live hlive⟩
    · exact (hw.same other hid).leavesFlag
  · intro other hpass
    by_cases hid : other = id
    · subst hid
      intro live hlive
      exact ⟨node, hw.row, htext hpass live hlive⟩
    · exact (hw.same other hid).leavesText

end Leaves

section Upsert

variable {casefold : Str → Str} {db : Database} {args : Upsert} {seen row : Option Node}
  {now : Time}

theorem incoming_flag (hrow : stands db args.nodeId row = true)
    (hlive : db.nodes args.nodeId = some live) (hpass : args.discredited = none) :
    (args.incoming casefold row).discredited = live.content.discredited := by
  have hmap : row.map Node.content = some live.content := by simpa [stands, hlive] using hrow
  obtain ⟨prior, rfl, hprior⟩ := map_eq_some_iff.mp hmap
  simp [Upsert.incoming, hpass, hprior]

/-- The stages of an upsert that was made from a node it read bring that node's texts. -/
def Carries (args : Upsert) (seen : Option Node) : Prop :=
  ∀ node : Node, seen = some node → args.title = node.content.title ∧
    args.body = node.content.body ∧ args.tags = node.content.tags

theorem incoming_text (hcarries : Carries args seen) (hseen : textStands db args.nodeId seen = true)
    (hsome : seen.isNone = false) (hlive : db.nodes args.nodeId = some live) :
    (args.incoming casefold row).title = live.content.title ∧
      (args.incoming casefold row).body = live.content.body ∧
      (args.incoming casefold row).tags = live.content.tags := by
  cases seen with
  | none => cases hsome
  | some node =>
    obtain ⟨htitle, hbody, htags⟩ := hcarries node rfl
    have h : live.content.title = node.content.title ∧ live.content.body = node.content.body ∧
        live.content.tags = node.content.tags := by
      simpa [textStands, hlive] using hseen
    exact ⟨htitle.trans h.1.symm, hbody.trans h.2.1.symm, htags.trans h.2.2.symm⟩

section

variable (h : ∀ id, Kept db id)
include h

theorem Keeps.upsert {db' : Database} {there : Option Node}
    (hw : Written db db' args.nodeId (args.written casefold row there now))
    (hflag : stage.passesFlag args.nodeId = false → args.discredited = none)
    (htext : stage.passesText args.nodeId = false → seen.isNone = false)
    (hcarries : Carries args seen) (hrow : stands db args.nodeId row = true)
    (hseen : textStands db args.nodeId seen = true) : Keeps db db' stage := by
  refine Keeps.of_written h hw ?_ ?_
  · intro hpass live hlive
    exact incoming_flag hrow hlive (hflag hpass)
  · intro hpass live hlive
    exact incoming_text hcarries hseen (htext hpass) hlive

theorem keeps_rowRead (hcarries : Carries args seen)
    (hsame : (row.map Node.content).all (· = args.incoming casefold row) = true)
    (hstand : (rowRead args seen row).standing db = true) :
    Keeps db (writeNode casefold db args row now) (.rowRead args seen row) := by
  obtain ⟨hrow, hseen⟩ := Bool.and_eq_true_iff.mp hstand
  have hw : Written db (writeNode casefold db args row now) args.nodeId
      (args.written casefold row (db.nodes args.nodeId) now) := by
    have hmap : row.map Node.content = (db.nodes args.nodeId).map Node.content := by
      simpa [stands] using hrow
    obtain hlive | ⟨live, hlive⟩ := eq_none_or_eq_some (db.nodes args.nodeId)
    · exact written_create (h args.nodeId) hlive
    · refine written_rewrite (h args.nodeId) hlive ?_
      rw [hmap, hlive] at hsame
      show live.content = args.incoming casefold row
      simpa using hsame
  refine Keeps.upsert h hw ?_ ?_ hcarries hrow hseen
  · simp [passesFlag]
  · simp [passesText]

theorem keeps_latestRead {db' : Database} (hcarries : Carries args seen)
    (hnew : prior.content ≠ args.incoming casefold (some prior))
    (hstand : (latestRead args seen prior latest).standing db = true)
    (hrec : db.recordSuperseded args.nodeId prior latest now args.attribution = some db') :
    Keeps db (writeNode casefold db' args (some prior) now)
      (.latestRead args seen prior latest) := by
  obtain ⟨hfirst, hlatest⟩ := Bool.and_eq_true_iff.mp hstand
  obtain ⟨hrow, hseen⟩ := Bool.and_eq_true_iff.mp hfirst
  obtain rfl : latest = db.latest args.nodeId := by simpa using hlatest
  have hw : Written db (writeNode casefold db' args (some prior) now) args.nodeId
      (args.written casefold (some prior) (db'.nodes args.nodeId) now) := by
    have hmap : some prior.content = (db.nodes args.nodeId).map Node.content := by
      simpa [stands] using hrow
    obtain ⟨live, hlive, hcontent⟩ := map_eq_some_iff.mp hmap.symm
    refine written_replace (h args.nodeId) hlive hcontent.symm hrec ?_
    rw [hcontent]
    exact fun heq => hnew heq.symm
  refine Keeps.upsert h hw ?_ ?_ hcarries hrow hseen
  · intro hpass
    simpa [passesFlag] using hpass
  · simp [passesText]

end

end Upsert

/-! ## A merge's write -/

section Merge

variable {casefold : Str → Str} {db db' : Database} {survivorId absorbedId : NodeId}
  {survivor absorbed prior priorAbsorbed live : Node} {now : Time}
  {attribution : ChangeAttribution}

def mergedNode (casefold : Str → Str) (survivor absorbed live : Node) (now : Time) : Node :=
  { live with
    content := { live.content with
      body := (mergedContent casefold survivor.content absorbed.content).body
      tags := (mergedContent casefold survivor.content absorbed.content).tags
      aliases := (mergedContent casefold survivor.content absorbed.content).aliases }
    updatedAt := now }

def withdrawnNode (live : Node) (now : Time) : Node :=
  { live with content := { live.content with discredited := true }, updatedAt := now }

theorem updateNode_eq {id : NodeId} {f : Node → Node} (hlive : db.nodes id = some live) :
    db.updateNode id f = db.put id (f live) := by
  rw [Database.updateNode, hlive]

section

variable (h : Kept db survivorId) (hlive : db.nodes survivorId = some live)
include h hlive

theorem written_unmerged
    (hsame : live.content = mergedContent casefold survivor.content absorbed.content) :
    Written db (db.put survivorId (mergedNode casefold survivor absorbed live now)) survivorId
      (mergedNode casefold survivor absorbed live now) := by
  refine written_rewrite h hlive ?_
  show live.content = NodeContent.mk live.content.title _ _ live.content.discredited _
  rw [← hsame]

theorem written_merged
    (hsurvivor : survivor.content = live.content) (hprior : prior.content = live.content)
    (hflag : survivor.content.discredited = false)
    (hnew : prior.content ≠ mergedContent casefold survivor.content absorbed.content)
    (hrec : db.recordSuperseded survivorId prior (db.latest survivorId) now attribution
      = some db') :
    Written db (db'.put survivorId (mergedNode casefold survivor absorbed live now)) survivorId
      (mergedNode casefold survivor absorbed live now) := by
  refine written_replace h hlive hprior hrec ?_
  intro heq
  refine hnew ?_
  rw [hprior, ← heq]
  show NodeContent.mk live.content.title _ _ live.content.discredited _ = _
  rw [← hsurvivor]
  show NodeContent.mk survivor.content.title _ _ survivor.content.discredited _ = _
  rw [hflag]
  rfl

end

theorem written_withdrawn (h : Kept db absorbedId) (hlive : db.nodes absorbedId = some live)
    (habsorbed : absorbed.content = live.content) (hprior : priorAbsorbed.content = live.content)
    (hrec : (if priorAbsorbed.content = withdrawnContent absorbed.content priorAbsorbed then some db
      else db.recordSuperseded absorbedId priorAbsorbed (db.latest absorbedId) now attribution)
        = some db') :
    Written db (db'.put absorbedId (withdrawnNode live now)) absorbedId
      (withdrawnNode live now) := by
  have hwithdrawn : withdrawnContent absorbed.content priorAbsorbed =
      (withdrawnNode live now).content := by
    rw [withdrawnContent, habsorbed, hprior]
    rfl
  split at hrec
  · rename_i hsame
    obtain rfl := some.inj hrec
    refine written_rewrite h hlive ?_
    rw [← hprior, hsame, hwithdrawn]
  · rename_i hnew
    refine written_replace h hlive hprior hrec ?_
    rw [← hwithdrawn, ← hprior]
    exact fun heq => hnew heq.symm

theorem mergeWrite_eq_some
    (hwrite : mergeWrite casefold db survivorId absorbedId attribution survivor absorbed prior
      priorAbsorbed survivorLatest now edges = some db') :
    ∃ first second : Database, (survivorLatest.elim (some db)
        fun latest => db.recordSuperseded survivorId prior latest now attribution) = some first ∧
      (if priorAbsorbed.content = withdrawnContent absorbed.content priorAbsorbed then
          some (first.updateNode survivorId fun node =>
            mergedNode casefold survivor absorbed node now)
        else
          (first.updateNode survivorId fun node =>
            mergedNode casefold survivor absorbed node now).recordSuperseded absorbedId
              priorAbsorbed ((first.updateNode survivorId fun node =>
                mergedNode casefold survivor absorbed node now).latest absorbedId) now
              attribution) = some second ∧
      db' = second.updateNode absorbedId fun node => withdrawnNode node now := by
  obtain ⟨first, hfirst, hrest⟩ := bind_eq_some_iff.mp hwrite
  split at hrest
  · cases hrest
  · obtain ⟨second, hsecond, rfl⟩ := map_eq_some_iff.mp hrest
    refine ⟨first, second, ?_, hsecond, rfl⟩
    cases survivorLatest with
    | none | some latest => exact hfirst

section

variable (h : ∀ id, Kept db id) (hne : survivorId ≠ absorbedId)
include h hne

theorem Keeps.of_two {first second : Database} {node node' : Node}
    (hw : Written db first survivorId node)
    (hw' : Written first second absorbedId node') (hsurvivor : db.nodes survivorId = some live)
    (hflag : node.content.discredited = live.content.discredited)
    (htext : ∀ there : Node, db.nodes absorbedId = some there →
      node'.content.title = there.content.title ∧ node'.content.body = there.content.body ∧
        node'.content.tags = there.content.tags)
    (hpasses : ∀ id, stage.passesFlag id = decide (absorbedId = id))
    (htexts : ∀ id, stage.passesText id = decide (survivorId = id)) : Keeps db second stage := by
  have hrow : second.nodes survivorId = some node := (hw'.same survivorId hne).1.trans hw.row
  refine ⟨?_, ?_, ?_, ?_⟩
  · intro id
    by_cases hid : id = absorbedId
    · rw [hid]
      exact hw'.kept
    · refine Kept.of_same ?_ (hw'.same id hid)
      by_cases hid' : id = survivorId
      · rw [hid']
        exact hw.kept
      · exact (h id).of_same (hw.same id hid')
  · intro id
    exact (hw.grows id).trans (hw'.grows id)
  · intro id hpass
    have hid : id ≠ absorbedId := by
      rw [hpasses, decide_eq_false_iff_not] at hpass
      exact fun heq => hpass heq.symm
    by_cases hid' : id = survivorId
    · subst hid'
      intro there hthere
      obtain rfl : live = there := some.inj (hsurvivor.symm.trans hthere)
      exact ⟨node, hrow, hflag⟩
    · exact ((hw.same id hid').trans (hw'.same id hid)).leavesFlag
  · intro id hpass
    have hid : id ≠ survivorId := by
      rw [htexts, decide_eq_false_iff_not] at hpass
      exact fun heq => hpass heq.symm
    by_cases hid' : id = absorbedId
    · subst hid'
      intro there hthere
      exact ⟨node', hw'.row, htext there hthere⟩
    · exact ((hw.same id hid).trans (hw'.same id hid')).leavesText

/-- **A merge's transaction**, with what the call has read still standing. -/
theorem keeps_mergeWrite
    (hstands : stands db survivorId (some survivor) = true)
    (hprior : stands db survivorId (some prior) = true)
    (hstands' : stands db absorbedId (some absorbed) = true)
    (hprior' : stands db absorbedId (some priorAbsorbed) = true)
    (hflag : survivor.content.discredited = false)
    (hlatest : ∀ latest, survivorLatest = some latest → latest = db.latest survivorId ∧
      prior.content ≠ mergedContent casefold survivor.content absorbed.content)
    (hnone : survivorLatest = none →
      prior.content = mergedContent casefold survivor.content absorbed.content)
    (hpasses : ∀ id, stage.passesFlag id = decide (absorbedId = id))
    (htexts : ∀ id, stage.passesText id = decide (survivorId = id))
    (hwrite : mergeWrite casefold db survivorId absorbedId attribution survivor absorbed prior
      priorAbsorbed survivorLatest now edges = some db') : Keeps db db' stage := by
  have hread : ∀ {id : NodeId} {node : Node}, stands db id (some node) = true →
      ∃ live : Node, db.nodes id = some live ∧ node.content = live.content := by
    intro id node hst
    have hmap : some node.content = (db.nodes id).map Node.content := by
      simpa [stands] using hst
    obtain ⟨live, hlive, hcontent⟩ := map_eq_some_iff.mp hmap.symm
    exact ⟨live, hlive, hcontent.symm⟩
  obtain ⟨live, hlive, hsurvivor⟩ := hread hstands
  obtain ⟨there, hthere, habsorbed⟩ := hread hstands'
  have hpriorLive : prior.content = live.content := by
    obtain ⟨live', hlive', heq⟩ := hread hprior
    rw [heq, some.inj (hlive'.symm.trans hlive)]
  have hpriorThere : priorAbsorbed.content = there.content := by
    obtain ⟨there', hthere', heq⟩ := hread hprior'
    rw [heq, some.inj (hthere'.symm.trans hthere)]
  obtain ⟨first, second, hfirst, hsecond, rfl⟩ := mergeWrite_eq_some hwrite
  -- the survivor's row first, behind its version where one is due
  have hw : Written db (first.updateNode survivorId fun node =>
      mergedNode casefold survivor absorbed node now) survivorId
      (mergedNode casefold survivor absorbed live now) := by
    cases survivorLatest with
    | none =>
      obtain rfl : db = first := some.inj hfirst
      rw [updateNode_eq hlive]
      exact written_unmerged (h survivorId) hlive (hpriorLive.symm.trans (hnone rfl))
    | some latest =>
      obtain ⟨rfl, hnew⟩ := hlatest latest rfl
      have hrec : db.recordSuperseded survivorId prior (db.latest survivorId) now attribution =
        some first := hfirst
      have hlive' : first.nodes survivorId = some live := by
        rw [(recordSuperseded_eq_some hrec).2.1, hlive]
      rw [updateNode_eq hlive']
      exact written_merged (h survivorId) hlive hsurvivor hpriorLive hflag hnew hrec
  -- then the absorbed row
  have hsame := hw.same absorbedId hne.symm
  have hthere' := hsame.1.trans hthere
  have hw' := written_withdrawn ((h absorbedId).of_same hsame) hthere' habsorbed hpriorThere hsecond
  have hthere'' : second.nodes absorbedId = some there := by
    split at hsecond
    · rw [← some.inj hsecond, hthere']
    · rw [(recordSuperseded_eq_some hsecond).2.1, hthere']
  rw [updateNode_eq hthere'']
  refine Keeps.of_two h hne hw hw' hlive rfl ?_ hpasses htexts
  intro row hrow
  obtain rfl : there = row := some.inj (hthere.symm.trans hrow)
  exact ⟨rfl, rfl, rfl⟩

end

end Merge

/-! ## One step of a call -/

section Advance

variable {casefold : Str → Str} {db : Database} {stage : Stage} {now : Time} {edges : Bool}

def Stage.Sound (casefold : Str → Str) : Stage → Prop
  | .begun _ | .returned | .failed => True
  | .ready args seen | .rowRead args seen _ => Carries args seen
  | .latestRead args seen row _ =>
    Carries args seen ∧ row.content ≠ args.incoming casefold (some row)
  | .survivorSeen survivorId absorbedId _ survivor
  | .bothSeen survivorId absorbedId _ survivor _
  | .survivorRead survivorId absorbedId _ survivor _ _
  | .bothRead survivorId absorbedId _ survivor _ _ _ =>
    survivorId ≠ absorbedId ∧ survivor.content.discredited = false
  | .mergeLatestRead survivorId absorbedId _ survivor absorbed prior _ _ =>
    (survivorId ≠ absorbedId ∧ survivor.content.discredited = false) ∧
      prior.content ≠ mergedContent casefold survivor.content absorbed.content

theorem carries_none (args : Upsert) : Carries args none := by
  intro node hnode
  cases hnode

theorem carries_discreditArgs (nodeId : NodeId) (node : Node) (discredited : Bool)
    (attribution : ChangeAttribution) :
    Carries (discreditArgs nodeId node discredited attribution) (some node) := by
  intro node' hnode
  obtain rfl := some.inj hnode
  exact ⟨rfl, rfl, rfl⟩

theorem recordSuperseded_taken {id : NodeId} (h : numberTaken db id latest = true) :
    db.recordSuperseded id prior latest now attribution = none := by
  exact if_pos h

theorem mergeWrite_turnedAway {survivorId absorbedId : NodeId}
    {survivor absorbed priorAbsorbed : Node}
    (h : (survivorLatest.any (numberTaken db survivorId) || !edges) = true) :
    mergeWrite casefold db survivorId absorbedId attribution survivor absorbed prior
      priorAbsorbed survivorLatest now edges = none := by
  rw [mergeWrite.eq_def]
  rcases Bool.or_eq_true_iff.mp h with htaken | hedges
  · cases survivorLatest with
    | none => cases htaken
    | some latest =>
      show (db.recordSuperseded survivorId prior latest now attribution).bind _ = none
      rw [recordSuperseded_taken htaken]
      rfl
  · rw [hedges]
    exact bind_eq_none_iff.mpr fun _ _ => rfl

section

variable (h : ∀ id, Kept db id)
include h

theorem keeps_settle {written : Option Database}
    (hw : ∀ db' : Database, written = some db' → Keeps db db' stage) :
    Keeps db (settle db written).1 stage ∧ (settle db written).2.Sound casefold := by
  cases written with
  | none => exact ⟨Keeps.refl h, trivial⟩
  | some db' => exact ⟨hw db' rfl, trivial⟩

theorem advance_rowRead {args : Upsert} {seen row : Option Node}
    (hcarries : Carries args seen) (hq : (!(rowRead args seen row).writes casefold ||
      (rowRead args seen row).standing db) = true) :
    Keeps db (advance casefold db (.rowRead args seen row) now edges).1
        (.rowRead args seen row) ∧
      (advance casefold db (.rowRead args seen row) now edges).2.Sound casefold := by
  cases row with
  | none =>
    refine keeps_settle h ?_
    rintro db' hdb'
    obtain rfl := some.inj hdb'
    exact keeps_rowRead h hcarries rfl (by simpa [writes] using hq)
  | some prior =>
    rw [advance.eq_def]
    dsimp only
    split
    · rename_i hsame
      refine keeps_settle h ?_
      rintro db' hdb'
      obtain rfl := some.inj hdb'
      exact keeps_rowRead h hcarries (by simpa using hsame)
        (by simpa [writes, hsame] using hq)
    · rename_i hnew
      exact ⟨Keeps.refl h, hcarries, hnew⟩

theorem advance_latestRead {args : Upsert} {seen : Option Node}
    (hs : (latestRead args seen prior latest).Sound casefold)
    (hq : ((latestRead args seen prior latest).turnedAway db edges ||
      (latestRead args seen prior latest).standing db) = true) :
    Keeps db (advance casefold db (.latestRead args seen prior latest) now edges).1
        (.latestRead args seen prior latest) ∧
      (advance casefold db (.latestRead args seen prior latest) now edges).2.Sound casefold := by
  refine keeps_settle h ?_
  intro db' hdb'
  obtain ⟨recorded, hrec, rfl⟩ := map_eq_some_iff.mp hdb'
  rcases Bool.or_eq_true_iff.mp hq with htaken | hstand
  · rw [recordSuperseded_taken htaken] at hrec
    cases hrec
  · exact keeps_latestRead h hs.1 hs.2 hstand hrec

end

section Merge

variable {survivorId absorbedId : NodeId} {attribution : ChangeAttribution}
  {survivor absorbed prior priorAbsorbed : Node}

theorem advance_bothRead (h : ∀ id, Kept db id) (hne : survivorId ≠ absorbedId)
    (hflag : survivor.content.discredited = false) (hstage : stage =
      .bothRead survivorId absorbedId attribution survivor absorbed prior priorAbsorbed)
    (hq : (!stage.writes casefold || stage.turnedAway db edges || stage.standing db) = true) :
    Keeps db (advance casefold db stage now edges).1 stage ∧
      (advance casefold db stage now edges).2.Sound casefold := by
  subst hstage
  rw [advance.eq_def]
  dsimp only
  split
  · rename_i hsame
    refine keeps_settle h ?_
    intro db' hdb'
    have hq' : (!edges) = true ∨ standing db (.bothRead survivorId absorbedId attribution
        survivor absorbed prior priorAbsorbed) = true := by
      simpa [writes, hsame, turnedAway] using hq
    rcases hq' with haway | hstand
    · rw [mergeWrite_turnedAway (by simpa using haway)] at hdb'
      cases hdb'
    · simp only [standing, Bool.and_eq_true] at hstand
      obtain ⟨⟨⟨hsurvivor, hprior⟩, habsorbed⟩, hprior'⟩ := hstand
      refine keeps_mergeWrite h hne hsurvivor hprior habsorbed hprior' hflag ?_
        (fun _ => hsame) (fun _ => rfl) (fun _ => rfl) hdb'
      intro latest hlatest
      cases hlatest
  · rename_i hnew
    exact ⟨Keeps.refl h, ⟨hne, hflag⟩, hnew⟩

theorem advance_mergeLatestRead (h : ∀ id, Kept db id)
    (hs : (mergeLatestRead survivorId absorbedId attribution survivor absorbed prior
      priorAbsorbed latest).Sound casefold)
    (hstage : stage = .mergeLatestRead survivorId absorbedId attribution survivor absorbed prior
      priorAbsorbed latest) (hq : (stage.turnedAway db edges || stage.standing db) = true) :
    Keeps db (advance casefold db stage now edges).1 stage ∧
      (advance casefold db stage now edges).2.Sound casefold := by
  obtain ⟨⟨hne, hflag⟩, hnew⟩ := hs
  subst hstage
  refine keeps_settle h ?_
  intro db' hdb'
  rcases Bool.or_eq_true_iff.mp hq with haway | hstand
  · have haway' : ((some latest).any (numberTaken db survivorId) || !edges) = true := haway
    rw [mergeWrite_turnedAway haway'] at hdb'
    cases hdb'
  · simp only [standing, Bool.and_eq_true, decide_eq_true_eq] at hstand
    obtain ⟨⟨⟨⟨hsurvivor, hprior⟩, habsorbed⟩, hprior'⟩, hlatest⟩ := hstand
    refine keeps_mergeWrite h hne hsurvivor hprior habsorbed hprior' hflag ?_ ?_
      (fun _ => rfl) (fun _ => rfl) hdb'
    · intro number hnumber
      obtain rfl := some.inj hnumber
      exact ⟨hlatest, hnew⟩
    · intro hnone
      cases hnone

end Merge

/-- **One step of a call** keeps every content where nothing came between, and
    leaves what the call does not bring. -/
theorem advance_keeps (h : ∀ id, Kept db id) (hs : stage.Sound casefold)
    (hq : (!stage.writes casefold || stage.turnedAway db edges || stage.standing db) = true) :
    Keeps db (advance casefold db stage now edges).1 stage ∧
      (advance casefold db stage now edges).2.Sound casefold := by
  cases stage with
  | begun request =>
    cases request with
    | upsert args => exact ⟨Keeps.refl h, carries_none args⟩
    | setDiscredited nodeId discredited attribution =>
      rw [advance.eq_def]
      dsimp only
      split
      · exact ⟨Keeps.refl h, trivial⟩
      · exact ⟨Keeps.refl h, carries_discreditArgs _ _ _ _⟩
    | merge survivorId absorbedId attribution =>
      rw [advance.eq_def]
      dsimp only
      split
      · exact ⟨Keeps.refl h, trivial⟩
      · rename_i hne
        split
        · exact ⟨Keeps.refl h, trivial⟩
        · split
          · exact ⟨Keeps.refl h, trivial⟩
          · rename_i hflag
            exact ⟨Keeps.refl h, hne, by simpa using hflag⟩
  | ready args seen => exact ⟨Keeps.refl h, hs⟩
  | rowRead args seen row => exact advance_rowRead h hs (by simpa [turnedAway] using hq)
  | latestRead args seen row latest =>
    exact advance_latestRead h hs (by simpa [writes] using hq)
  | survivorSeen survivorId absorbedId attribution survivor
  | bothSeen survivorId absorbedId attribution survivor absorbed =>
    rw [advance.eq_def]
    dsimp only
    split
    · exact ⟨Keeps.refl h, trivial⟩
    · split
      · exact ⟨Keeps.refl h, trivial⟩
      · exact ⟨Keeps.refl h, hs⟩
  | survivorRead survivorId absorbedId attribution survivor absorbed prior =>
    rw [advance.eq_def]
    dsimp only
    split
    · exact ⟨Keeps.refl h, trivial⟩
    · exact ⟨Keeps.refl h, hs⟩
  | bothRead survivorId absorbedId attribution survivor absorbed prior priorAbsorbed =>
    exact advance_bothRead h hs.1 hs.2 rfl hq
  | mergeLatestRead survivorId absorbedId attribution survivor absorbed prior priorAbsorbed
      latest => exact advance_mergeLatestRead h hs rfl (by simpa [writes] using hq)
  | returned => exact ⟨Keeps.refl h, trivial⟩
  | failed => exact ⟨Keeps.refl h, trivial⟩

end Advance

section Run

variable {casefold : Str → Str} {w : World} {e : Event}

structure Sound (casefold : Str → Str) (w : World) : Prop where
  kept : ∀ id : NodeId, Kept w.db id
  calls : ∀ stage : Stage, stage ∈ w.calls → stage.Sound casefold

theorem Sound.start : Sound casefold {} where
  kept _ := ⟨fun _ => ⟨rfl, rfl⟩, fun _ hlive => nomatch hlive⟩
  calls _ hmem := nomatch hmem

theorem Sound.advance {call : Nat} (h : Sound casefold w) (hcall : w.calls[call]? = some stage)
    (hq : undisturbed casefold w (.step call now edges) = true) :
    Keeps w.db (Memory.advance casefold w.db stage now edges).1 stage ∧
      (Memory.advance casefold w.db stage now edges).2.Sound casefold := by
  rw [undisturbed, hcall] at hq
  exact advance_keeps h.kept (h.calls stage (mem_of_getElem? hcall)) hq

theorem after_step {call : Nat} (hcall : w.calls[call]? = some stage) :
    w.after casefold (.step call now edges) =
      { db := (Memory.advance casefold w.db stage now edges).1
        calls := w.calls.set call (Memory.advance casefold w.db stage now edges).2 } := by
  simp only [World.after, hcall]

theorem Sound.step (h : Sound casefold w) (hq : undisturbed casefold w e = true) :
    Sound casefold (w.after casefold e) := by
  cases e with
  | call request =>
    refine ⟨h.kept, ?_⟩
    intro stage hmem
    rcases mem_append.mp hmem with hmem | hmem
    · exact h.calls stage hmem
    · obtain rfl := mem_singleton.mp hmem
      trivial
  | step call now edges =>
    cases hcall : w.calls[call]? with
    | none =>
      have hsame : w.after casefold (.step call now edges) = w := by
        simp only [World.after, hcall]
      rw [hsame]
      exact h
    | some stage =>
      obtain ⟨hkeeps, hsound⟩ := h.advance hcall hq
      rw [after_step hcall]
      refine ⟨hkeeps.kept, ?_⟩
      intro other hmem
      rcases mem_or_eq_of_mem_set hmem with hmem | rfl
      · exact h.calls other hmem
      · exact hsound

/-- **Nothing a memory held is lost while no session comes between a call's reads and its write**:
    every content is the live one or the one of its number, for as long as its number is among the
    newest, the numbers follow the order of the contents for good, and a call leaves the flag, or
    the texts, that it does not bring. -/
theorem kept_while_undisturbed {tr : List Event}
    (hr : Run (Guarded (Step casefold) fun w e => undisturbed casefold w e = true) {} tr w) :
    (∀ id : NodeId, Kept w.db id) ∧
      ∀ (call : Nat) (now : Time) (edges : Bool) (stage : Stage) (w' : World),
        w.calls[call]? = some stage →
        undisturbed casefold w (.step call now edges) = true →
        Step casefold w (.step call now edges) w' →
        ∀ id : NodeId, w.db.contents id <+: w'.db.contents id ∧
          (stage.passesFlag id = false → LeavesFlag w.db w'.db id) ∧
          (stage.passesText id = false → LeavesText w.db w'.db id) := by
  have hsound : Sound casefold w := by
    refine hr.invariant ?_ Sound.start
    rintro s l t hs ⟨hq, rfl⟩
    exact hs.step hq
  refine ⟨hsound.kept, ?_⟩
  rintro call now edges stage w' hcall hq rfl id
  obtain ⟨hkeeps, -⟩ := hsound.advance hcall hq
  rw [after_step hcall]
  exact ⟨hkeeps.grows id, hkeeps.flag id, hkeeps.text id⟩

end Run

/-- `str.casefold` on the letters below. -/
def asciiFold : Str → Str := List.map Char.toLower

/-- A call that runs by itself, taking its steps at one time. -/
def alone (call : Nat) (now : Time) (request : Request) : List Event :=
  .call request :: List.replicate 4 (.step call now true)

/-- An edit of the node `m`. -/
def edit (body : String) : Request :=
  .upsert { nodeId := "m", title := "M".toList, body := body.toList }

/-- A memory written, edited, withdrawn and edited again. -/
def oneByOne : List Event :=
  alone 0 1 (edit "first") ++ alone 1 2 (edit "second") ++
    alone 2 3 (.setDiscredited "m" true {}) ++ alone 3 4 (edit "third")

theorem oneByOne_kept : ((oneByOne.foldl (World.after asciiFold) {}).db.contents "m").map
        (fun content => (content.body, content.discredited)) =
      [("first".toList, false), ("second".toList, false), ("second".toList, true),
        ("third".toList, true)] ∧
    Kept (oneByOne.foldl (World.after asciiFold) {}).db "m" :=
  ⟨by decide +kernel, (kept_while_undisturbed (Run.of_meets (fun _ _ hq => ⟨hq, rfl⟩)
      (by decide +kernel : meets (World.after asciiFold) (undisturbed asciiFold) {} oneByOne
        = true))).1 "m"⟩

/-- Two edits at once: the second has read the row, and reads the highest
    number once the first is through. -/
def atOnce : List Event :=
  alone 0 1 (edit "first") ++
    [.call (edit "second"), .call (edit "third"), .step 2 2 true, .step 2 2 true,
      .step 1 3 true, .step 1 3 true, .step 1 3 true, .step 1 3 true,
      .step 2 4 true, .step 2 4 true]

/-- **An edit that no version holds.** -/
theorem lost_edit : ¬ ∀ (tr : List Event) (w : World), Run (Step asciiFold) {} tr w →
    ∀ (id : NodeId) (content : NodeContent), content ∈ w.db.contents id →
      (w.db.nodes id).map Node.content = some content ∨
        ∃ v ∈ w.db.versions id, v.content = content := by
  intro h
  have hrun : Run (Step asciiFold) {} atOnce (atOnce.foldl (World.after asciiFold) {}) :=
    Run.of_foldl (fun _ _ => rfl) _ _
  have hlost := h _ _ hrun "m"
    { title := "M".toList, body := "second".toList, tags := [], discredited := false
      aliases := [] }
    (by decide +kernel)
  revert hlost
  decide +kernel

end Loregarden.Memory

