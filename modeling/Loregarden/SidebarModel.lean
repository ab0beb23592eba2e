import Loregarden.RunProofs
import Loregarden.SortedRowProofs

/-! # The sidebar of a workspace

`view_service.py`: views, and the one ranking they share with pinned pages. An operation reads, and
then writes in one transaction, which fails as a whole where a row it updates is gone or an index
would be broken; a pass that failed is started again. A deletion closes the gaps from a ranking it
reads after its DELETE, under the write lock of its transaction, and is never refused
(`deletion_commits`). A view's texts are left out. -/

namespace Loregarden.Sidebars

open Ranked (Keyed ranked)

inductive Place where
  | page (key : String)
  | view (id : Nat)
  deriving DecidableEq

structure Entry where
  id : Nat
  position : Int
  place : Place
  pinned : Bool := false

structure View where
  id : Nat

structure Sidebar where
  views : Keyed View View.id
  entries : Keyed Entry Entry.id

def maxPageKeyLength : Nat := 200

def listEntries (entries : Keyed Entry Entry.id) : List Entry := ranked Entry.position entries.rows

def nextPosition (entries : Keyed Entry Entry.id) : Int :=
  match (entries.rows.map Entry.position).max? with
  | none => 0
  | some highest => highest + 1

/-- `INSERT`: none where an index would be broken. -/
def insertEntry (entries : Keyed Entry Entry.id) (place : Place) (position : Int) :
    Option (Keyed Entry Entry.id) :=
  if entries.rows.any fun e => e.position = position ∨ e.place = place then none
  else some (entries.insert { id := entries.next, position := position, place := place } rfl)

/-- `UPDATE` of a rank: none where the row is gone, or another row holds the rank. -/
def setRank (entries : Keyed Entry Entry.id) (id : Nat) (position : Int) :
    Option (Keyed Entry Entry.id) :=
  if entries.get id = none then none
  else if entries.rows.any fun e => e.id ≠ id ∧ e.position = position then none
  else some (entries.update id (fun e => { e with position := position }) fun _ => rfl)

def setRanks (entries : Keyed Entry Entry.id) : List (Nat × Int) → Option (Keyed Entry Entry.id)
  | [] => some entries
  | (id, position) :: rest =>
    (setRank entries id position).bind fun entries => setRanks entries rest

/-- The ranks of a list of entries, from an index on. -/
def ranksFrom (rank : Nat → Int) : Nat → List Nat → List (Nat × Int)
  | _, [] => []
  | index, id :: rest => (id, rank index) :: ranksFrom rank (index + 1) rest

/-- `_renumber`: every row is parked on a negative rank first. -/
def renumber (entries : Keyed Entry Entry.id) (order : List Nat) : Option (Keyed Entry Entry.id) :=
  (setRanks entries (ranksFrom (fun index => -(index + 1)) 0 order)).bind fun parked =>
    setRanks parked (ranksFrom (fun index => index) 0 order)

def closeGaps (entries : Keyed Entry Entry.id) : Option (Keyed Entry Entry.id) :=
  renumber entries ((listEntries entries).map Entry.id)

/-! ## Operations -/

inductive Request where
  | createView
  | pinPage (key : String)
  | deleteView (view : Nat)
  | deleteEntry (id : Nat)
  | setEntryPinned (id : Nat) (pinned : Bool)
  | reorderEntries (ids : List Nat)

inductive Pass where
  | createView (position : Int)
  | pinChecked (key : String)
  | pinPage (key : String) (position : Int)
  | viewLoaded (view : Nat)
  | deleteView (view : Nat) (staged : List Nat)
  | deleteEntry (id : Nat)
  | setEntryPinned (id : Nat) (pinned : Bool)
  | reorderChecked (ids : List Nat)
  | reorderEntries (ids : List Nat)
  deriving DecidableEq

def namesAll (ids : List Nat) (entries : Keyed Entry Entry.id) : Bool :=
  ids.all (· ∈ entries.rows.map Entry.id) && entries.rows.all fun e => e.id ∈ ids

/-- What a request reads first: none where it is refused, or has nothing to write. -/
def openPass (s : Sidebar) : Request → Option Pass
  | .createView => some (.createView (nextPosition s.entries))
  | .pinPage key =>
    if maxPageKeyLength < key.length then none
    else if s.entries.rows.any fun e => e.place = .page key then none
    else some (.pinChecked key)
  | .deleteView view => (s.views.get view).map fun view => .viewLoaded view.id
  | .deleteEntry id =>
    (s.entries.get id).bind fun entry =>
      match entry.place with
      | .page _ => some (.deleteEntry id)
      | .view _ => none
  | .setEntryPinned id pinned =>
    (s.entries.get id).bind fun entry =>
      match entry.place with
      | .page _ => none
      | .view _ => if entry.pinned = pinned then none else some (.setEntryPinned id pinned)
  | .reorderEntries ids =>
    if ids.Nodup ∧ namesAll ids s.entries then some (.reorderChecked ids) else none

/-- The next read of a pass: none where it finds that a peer was there. -/
def readOn (s : Sidebar) : Pass → Option Pass
  | .pinChecked key => some (.pinPage key (nextPosition s.entries))
  | .viewLoaded view =>
    let found := (listEntries s.entries).filter fun e => e.place = .view view
    some (.deleteView view (found.map Entry.id))
  | .reorderChecked ids =>
    if namesAll ids s.entries then some (.reorderEntries ids) else none
  | pass => some pass

def commit (s : Sidebar) : Pass → Option Sidebar
  | .createView position =>
    (insertEntry s.entries (.view s.views.next) position).map fun entries =>
      { views := s.views.insert { id := s.views.next } rfl, entries := entries }
  | .pinPage key position =>
    (insertEntry s.entries (.page key) position).map fun entries => { s with entries := entries }
  | .deleteView view staged =>
    let entries := staged.foldl Keyed.delete s.entries
    -- the foreign key of an entry that would be left; the gaps are read under the lock of the
    -- DELETE, so no peer comes between
    if entries.rows.any fun e => e.place = .view view then none
    else
      (closeGaps entries).map fun entries =>
        { views := s.views.delete view, entries := entries }
  | .deleteEntry id =>
    (closeGaps (s.entries.delete id)).map fun entries => { s with entries := entries }
  | .setEntryPinned id pinned =>
    (s.entries.get id).map fun _ =>
      { s with
        entries := s.entries.update id (fun e => { e with pinned := pinned }) fun _ => rfl }
  | .reorderEntries ids =>
    (renumber s.entries ids).map fun entries => { s with entries := entries }
  | .pinChecked _ | .viewLoaded _ | .reorderChecked _ => none

structure World where
  sidebar : Sidebar
  passes : Nat → Option Pass := fun _ => none

inductive Event where
  | start (session : Nat) (request : Request)
  | read (session : Nat)
  | write (session : Nat)

def step (w : World) : Event → World
  | .start session request =>
    { w with passes := Function.update w.passes session (openPass w.sidebar request) }
  | .read session =>
    { w with
      passes := Function.update w.passes session ((w.passes session).bind (readOn w.sidebar)) }
  | .write session =>
    { sidebar := ((w.passes session).bind (commit w.sidebar)).getD w.sidebar
      passes := Function.update w.passes session none }

def Step (w : World) (e : Event) (w' : World) : Prop := step w e = w'

end Loregarden.Sidebars
