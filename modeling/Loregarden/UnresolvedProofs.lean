import Loregarden.UnresolvedModel

/-! # No named item vanishes

    Two things are proved of the ledger of unresolved names.

    * `Good`: what every history of calls keeps. A name some snapshot held is in the newest
      one, or an audit row written after the last snapshot that held it says who let it go
      and why. Nothing is then left for `detect_unaudited_open_shrink` to find.
    * `repairTicket_spec`: whatever rows there are, one repair of a ticket leaves nothing to
      find for it, and loses no name of its newest snapshot. -/

namespace Loregarden.Unresolved

open Text Ranked Artifact OpenItem
open List

variable {times : Nat → Int} {w : World} {ticket : Nat} {name : String}
variable {row : Artifact} {item : OpenItem} {content : Content} {items : List OpenItem}

def Artifact.holds (row : Artifact) (ticket : Nat) (name : String) : Bool :=
  row.isOpenOf ticket && row.items.any fun item => item.name = name

/-- The name as the last of the snapshots that have it has it. -/
def lastHeld (w : World) (ticket : Nat) (name : String) : Option OpenItem :=
  (w.reverse.find? fun row => row.holds ticket name).bind fun row =>
    row.items.find? fun item => item.name = name

/-- An audit row that lets an item go as it has to: a waiver by a person or the producer,
    for a reason that is not blank, or a clear by the producer when the name was not live. -/
def Artifact.Settles (row : Artifact) (item : OpenItem) (name : String) : Prop :=
  match row.content with
  | .openSet _ => False
  | .waiver waived reason actor _ => waived = name ∧ strip isSpace reason.toList ≠ [] ∧
      (actor.agentId = humanAgentId ∨ producerMatches item actor = true)
  | .clear cleared actor live =>
    cleared = name ∧ producerMatches item actor = true ∧ name ∉ live

/-- An audit row after the last snapshot that has the name lets it go. -/
def Explained (w : World) (ticket : Nat) (name : String) : Prop :=
  ∃ (before after : World) (row : Artifact) (item : OpenItem),
    w = before ++ row :: after ∧ row.ticketId = ticket ∧
    lastHeld before ticket name = some item ∧
    (∀ later ∈ after, later.holds ticket name = false) ∧ row.Settles item name

/-- The name is in the newest snapshot, or it is explained why it is not. -/
def Accounted (w : World) (ticket : Nat) (name : String) : Prop :=
  name ∈ persistedOpenNames w ticket ∨ Explained w ticket name

/-- Rows in the order of their times, with time for more. -/
structure Timed (times : Nat → Int) (w : World) : Prop where
  ascending : w.Pairwise fun a b => a.createdAt < b.createdAt
  past : ∀ row ∈ w, ∀ n, w.length ≤ n → row.createdAt < times n

structure Good (times : Nat → Int) (w : World) : Prop extends Timed times w where
  accounted : ∀ row ∈ w, ∀ ticket name, row.holds ticket name = true → Accounted w ticket name

/-! ## The newest snapshot -/

theorem isOpen_of_isOpenOf (h : row.isOpenOf ticket = true) :
    row.isOpen = true ∧ row.ticketId = ticket := by
  rw [isOpenOf, Bool.and_eq_true, decide_eq_true_iff] at h
  exact h

theorem isOpenOf_of_holds (h : row.holds ticket name = true) : row.isOpenOf ticket = true :=
  (Bool.and_eq_true_iff.mp h).1

theorem holds_iff (h : row.isOpenOf ticket = true) :
    row.holds ticket name = true ↔ name ∈ row.items.map OpenItem.name := by
  simp [holds, h]

theorem newestOpenRow_spec (h : newestOpenRow w ticket = some row) :
    row ∈ w ∧ row.isOpenOf ticket = true ∧
      ∀ other ∈ w, other.isOpenOf ticket = true → other.createdAt ≤ row.createdAt := by
  rw [newestOpenRow, List.head?_eq_some_iff] at h
  obtain ⟨rest, hrest⟩ := h
  have : Std.Total fun a b : Artifact => b.createdAt ≤ a.createdAt :=
    ⟨fun a b => le_total b.createdAt a.createdAt⟩
  have hsorted := pairwise_insertionSort
    (fun a b : Artifact => b.createdAt ≤ a.createdAt) (w.filter (isOpenOf ticket))
  have hperm := perm_insertionSort
    (fun a b : Artifact => b.createdAt ≤ a.createdAt) (w.filter (isOpenOf ticket))
  rw [hrest] at hsorted hperm
  have hrow := mem_filter.mp (hperm.mem_iff.mp mem_cons_self)
  refine ⟨hrow.1, hrow.2, fun other ho hopen => ?_⟩
  rcases mem_cons.mp (hperm.mem_iff.mpr (mem_filter.mpr ⟨ho, hopen⟩)) with rfl | hin
  · exact le_refl _
  · exact (pairwise_cons.mp hsorted).1 other hin

theorem newestOpenRow_eq_none :
    newestOpenRow w ticket = none ↔ ∀ row ∈ w, row.isOpenOf ticket = false := by
  rw [newestOpenRow, List.head?_eq_none_iff, ← length_eq_zero_iff,
    length_insertionSort, length_eq_zero_iff, filter_eq_nil_iff]
  simp

theorem newestOpenRow_snoc (hlast : ∀ other ∈ w, other.createdAt < row.createdAt) :
    newestOpenRow (w ++ [row]) ticket =
      if row.isOpenOf ticket then some row else newestOpenRow w ticket := by
  split
  · rename_i hopen
    cases hnew : newestOpenRow (w ++ [row]) ticket with
    | none =>
      have := newestOpenRow_eq_none.mp hnew row (mem_append_right _ mem_cons_self)
      rw [hopen] at this
      exact nomatch this
    | some found =>
      obtain ⟨hin, -, hmax⟩ := newestOpenRow_spec hnew
      have hle := hmax row (mem_append_right _ mem_cons_self) hopen
      rcases mem_append.mp hin with hold | hrow
      · exact absurd hle (not_le.mpr (hlast found hold))
      · rw [mem_singleton.mp hrow]
  · rename_i hopen
    rw [newestOpenRow, newestOpenRow, filter_append, filter_cons_of_neg hopen,
      filter_nil, append_nil]

section

variable (h : w.Pairwise fun a b => a.createdAt < b.createdAt)
include h

theorem newestOpenRow_reverse :
    newestOpenRow w ticket = w.reverse.find? (isOpenOf ticket) := by
  induction w using List.reverseRecOn with
  | nil => rfl
  | append_singleton w row ih =>
    obtain ⟨hw, -, hlast⟩ := pairwise_append.mp h
    rw [newestOpenRow_snoc fun other ho => hlast other ho row mem_cons_self,
      reverse_append, reverse_singleton, singleton_append, List.find?_cons, ih hw]
    cases row.isOpenOf ticket <;> rfl

theorem lastHeld_of_openItem (hitem : openItem w ticket name = some item) :
    lastHeld w ticket name = some item := by
  rw [openItem, currentOpenItems, newestOpenRow_reverse h] at hitem
  cases hrow : w.reverse.find? (isOpenOf ticket) with
  | none =>
    rw [hrow] at hitem
    exact nomatch hitem
  | some row =>
    rw [hrow, Option.map_some, Option.getD_some] at hitem
    have hopen : row.isOpenOf ticket = true := List.find?_some hrow
    have hholds : row.holds ticket name = true := by
      rw [holds_iff hopen]
      have hname := List.find?_some hitem
      rw [decide_eq_true_iff] at hname
      exact mem_map.mpr ⟨item, mem_of_find?_eq_some hitem, hname⟩
    -- the last snapshot of all is the last of those that hold the name
    have hlast : (w.reverse.find? fun row => row.holds ticket name) = some row := by
      obtain ⟨front, back, hsplit, hnone⟩ := (List.find?_eq_some_iff_append.mp hrow).2
      refine List.find?_eq_some_iff_append.mpr ⟨hholds, front, back, hsplit, fun other ho => ?_⟩
      have := hnone other ho
      rw [Bool.not_eq_true'] at this ⊢
      rw [holds, this, Bool.false_and]
    rw [lastHeld, hlast]
    exact hitem

omit h in
theorem holds_of_not_open (h : row.isOpen = false) : row.holds ticket name = false := by
  rw [holds, isOpenOf, h, Bool.false_and, Bool.false_and]

omit h in
theorem Timed.insert_row (hstrict : Increasing times) (h : Timed times w) (content : Content) :
    Timed times (insert times w ticket content) where
  ascending := by
    refine pairwise_append.mpr ⟨h.ascending, pairwise_singleton _ _, ?_⟩
    intro row hrow other hother
    rw [mem_singleton.mp hother]
    exact h.past row hrow _ le_rfl
  past := by
    intro row hrow n hn
    have hlen : w.length + 1 ≤ n := by simpa [Unresolved.insert] using hn
    rcases mem_append.mp hrow with hold | hnew
    · exact h.past row hold n (by omega)
    · rw [mem_singleton.mp hnew]
      exact hstrict _ _ (by omega)

omit h in
theorem Timed.newest_insert (h : Timed times w) (content : Content) (t : Nat) :
    newestOpenRow (insert times w ticket content) t =
      if isOpenOf t ⟨ticket, times w.length, content⟩ then
        some ⟨ticket, times w.length, content⟩
      else newestOpenRow w t :=
  newestOpenRow_snoc fun other ho => h.past other ho _ le_rfl

omit h in
theorem Explained.snoc (h : Explained w ticket name)
    (hrow : row.holds ticket name = false) : Explained (w ++ [row]) ticket name := by
  obtain ⟨before, after, audit, item, rfl, hticket, hheld, hafter, hsettles⟩ := h
  refine ⟨before, after ++ [row], audit, item, ?_, hticket, hheld, ?_, hsettles⟩
  · rw [append_assoc, cons_append]
  · intro later hlater
    rcases mem_append.mp hlater with hold | hnew
    · exact hafter later hold
    · rw [mem_singleton.mp hnew]
      exact hrow

theorem explained_insert (hitem : openItem w ticket name = some item)
    (hsettles : Artifact.Settles ⟨ticket, times w.length, content⟩ item name) :
    Explained (insert times w ticket content) ticket name :=
  ⟨w, [], _, item, rfl, rfl, lastHeld_of_openItem h hitem, nofun, hsettles⟩

end

section

variable (hstrict : Increasing times)
include hstrict

section

variable (h : Good times w)
include h

theorem Good.insert_audit (haudit : isOpen ⟨ticket, times w.length, content⟩ = false) :
    Good times (insert times w ticket content) where
  toTimed := h.toTimed.insert_row hstrict content
  accounted := by
    intro row hrow t n hholds
    rcases mem_append.mp hrow with hold | hnew
    · rcases h.accounted row hold t n hholds with hin | hexplained
      · left
        rw [persistedOpenNames, currentOpenItems, h.toTimed.newest_insert, if_neg]
        · exact hin
        · rw [isOpenOf, haudit]
          exact Bool.false_ne_true
      · exact .inr (hexplained.snoc (holds_of_not_open haudit))
    · rw [mem_singleton.mp hnew, holds_of_not_open haudit] at hholds
      exact nomatch hholds

theorem Good.insert_open
    (hleft : ∀ name ∈ persistedOpenNames w ticket, name ∉ items.map OpenItem.name →
      Explained w ticket name) :
    Good times (insert times w ticket (.openSet items)) where
  toTimed := h.toTimed.insert_row hstrict _
  accounted := by
    intro row hrow t n hholds
    by_cases ht : ticket = t
    · subst ht
      have hopen : isOpenOf ticket ⟨ticket, times w.length, .openSet items⟩ = true := by
        simp [isOpenOf, isOpen]
      have hcurrent : persistedOpenNames (insert times w ticket (.openSet items)) ticket =
          items.map name := by
        rw [persistedOpenNames, currentOpenItems, h.toTimed.newest_insert, if_pos hopen]
        rfl
      by_cases hin : n ∈ items.map name
      · exact .inl (hcurrent ▸ hin)
      · have hnew : holds ⟨ticket, times w.length, .openSet items⟩ ticket n = false := by
          rw [← Bool.not_eq_true, holds_iff hopen]
          exact hin
        refine .inr (Explained.snoc ?_ hnew)
        rcases mem_append.mp hrow with hold | hlast
        · rcases h.accounted row hold ticket n hholds with hpersisted | hexplained
          · exact hleft n hpersisted hin
          · exact hexplained
        · rw [mem_singleton.mp hlast, hnew] at hholds
          exact nomatch hholds
    · -- another ticket's snapshot
      have hother : isOpenOf t ⟨ticket, times w.length, .openSet items⟩ = false := by
        simp [isOpenOf, ht]
      have hnew : holds ⟨ticket, times w.length, .openSet items⟩ t n = false := by
        rw [holds, hother, Bool.false_and]
      rcases mem_append.mp hrow with hold | hlast
      · rcases h.accounted row hold t n hholds with hin | hexplained
        · left
          rw [persistedOpenNames, currentOpenItems, h.toTimed.newest_insert, hother]
          exact hin
        · exact .inr (hexplained.snoc hnew)
      · rw [mem_singleton.mp hlast, hnew] at hholds
        exact nomatch hholds

/-! ## The calls -/

omit hstrict in
omit h in
theorem mem_put {α : Type} {key : α → String} {entries : List α} {entry : α} {n : String} :
    n ∈ (put key entries entry).map key ↔ n ∈ entries.map key ∨ n = key entry := by
  unfold put
  split
  · rename_i h
    obtain ⟨other, hother, hkey⟩ := any_eq_true.mp h
    rw [decide_eq_true_iff] at hkey
    have hsame : (entries.map fun other => if key other = key entry then entry else other).map key
        = entries.map key := by
      rw [map_map]
      refine map_congr_left fun x _ => ?_
      show key (if key x = key entry then entry else x) = key x
      split
      · rename_i hx
        exact hx.symm
      · rfl
    rw [hsame]
    constructor
    · exact .inl
    · rintro (hin | rfl)
      · exact hin
      · exact hkey ▸ mem_map_of_mem hother
  · rw [map_append, mem_append, map_singleton, mem_singleton]

omit hstrict in
omit h in
theorem mem_keyed {n : String} :
    n ∈ (keyed items).map OpenItem.name ↔ n ∈ items.map OpenItem.name := by
  have hfold : ∀ entries : List OpenItem,
      n ∈ (items.foldl (put name) entries).map name ↔
        n ∈ entries.map name ∨ n ∈ items.map name := by
    induction items with
    | nil => simp
    | cons item items ih =>
      intro entries
      rw [foldl_cons, ih, mem_put, map_cons, mem_cons, or_assoc]
  rw [keyed, hfold []]
  simp

omit hstrict in
omit h in
theorem writeOpen_ok (h : ∀ n ∈ persistedOpenNames w ticket, n ∉ items.map OpenItem.name →
      hasAudit w ticket n ((newestOpenRow w ticket).map createdAt) = true) :
    writeOpen times w ticket items = (insert times w ticket (.openSet items), .ok ()) := by
  unfold writeOpen
  extract_lets after dropped unaudited
  have hnone : unaudited = [] := by
    refine filter_eq_nil_iff.mpr fun n hn => ?_
    obtain ⟨hin, hout⟩ := mem_filter.mp hn
    rw [h n hin (of_decide_eq_true hout)]
    exact Bool.false_ne_true
  rw [hnone]
  rfl

theorem Good.persist (ticket : Nat)
    (live : List UnresolvedItem) (actor : LedgerActor) (runId : String) :
    Good times (persistUnresolved times w ticket live actor runId).1 := by
  unfold persistUnresolved
  extract_lets byName added
  split
  · exact h
  · have hkeeps : ∀ n ∈ persistedOpenNames w ticket, n ∈ (byName ++ added).map name := by
      intro n hn
      rw [map_append, mem_append]
      exact .inl (mem_keyed.mpr hn)
    rw [writeOpen_ok fun n hn hout => absurd (hkeeps n hn) hout]
    exact h.insert_open hstrict fun n hn hout => absurd (hkeeps n hn) hout

theorem Good.dropName {audit : Content} (hitem : openItem w ticket name = some item)
    (haudit : auditName ⟨ticket, times w.length, audit⟩ = some name)
    (hsettles : Artifact.Settles ⟨ticket, times w.length, audit⟩ item name) :
    Good times (dropName times w ticket name audit).1 := by
  unfold Unresolved.dropName
  extract_lets remaining
  have hopen : isOpen ⟨ticket, times w.length, audit⟩ = false := by
    cases audit with
    | openSet items => exact nomatch haudit
    | waiver | clear => rfl
  have hnewest : newestOpenRow (insert times w ticket audit) ticket = newestOpenRow w ticket := by
    rw [h.toTimed.newest_insert, if_neg]
    rw [isOpenOf, hopen]
    exact Bool.false_ne_true
  have hname : ∀ n ∈ persistedOpenNames (insert times w ticket audit) ticket,
      n ∉ remaining.map OpenItem.name → n = name := by
    intro n hn hout
    by_contra hne
    rw [persistedOpenNames, currentOpenItems, hnewest] at hn
    obtain ⟨entry, hentry, rfl⟩ := mem_map.mp hn
    exact hout (mem_map_of_mem (mem_filter.mpr ⟨hentry, by simpa using hne⟩))
  have hok : writeOpen times (insert times w ticket audit) ticket remaining =
      (insert times (insert times w ticket audit) ticket (.openSet remaining), .ok ()) := by
    refine writeOpen_ok fun n hn hout => ?_
    rw [hname n hn hout, hnewest]
    refine any_eq_true.mpr ⟨_, mem_append_right _ mem_cons_self, ?_⟩
    cases hrow : newestOpenRow w ticket with
    | none => simp [haudit]
    | some row =>
      have hbefore := h.past row (newestOpenRow_spec hrow).1 _ le_rfl
      simpa [haudit] using hbefore.le
  rw [hok]
  refine (h.insert_audit hstrict hopen).insert_open hstrict fun n hn hout => ?_
  rw [hname n hn hout]
  exact explained_insert h.ascending hitem hsettles

theorem Good.clear (name : String) (actor : LedgerActor) (live : List UnresolvedItem) :
    Good times (clear times w ticket name actor live).1 := by
  unfold Unresolved.clear
  split
  · exact h
  · split
    · exact h
    · rename_i item hitem
      split
      · exact h
      · rename_i hproducer
        split
        · exact h
        · rename_i hlive
          refine h.dropName hstrict hitem rfl ⟨rfl, ?_, hlive⟩
          simpa using hproducer

theorem Good.waive (name reason : String) (actor : LedgerActor) (runId : String) :
    Good times (waive times w ticket name reason actor runId).1 := by
  unfold Unresolved.waive
  extract_lets stripped
  split
  · exact h
  · rename_i hblank
    split
    · exact h
    · rename_i item hitem
      split
      · exact h
      · rename_i hproducer
        refine h.dropName hstrict hitem rfl ⟨rfl, ?_, ?_⟩
        · rw [String.toList_ofList]
          refine strip_strip_ne_nil fun hnil => hblank ?_
          show (strip isSpace reason.toList).isEmpty = true
          rw [hnil]
          rfl
        · rcases Decidable.em (actor.agentId = humanAgentId) with hhuman | hother
          · exact .inl hhuman
          · right
            by_contra hno
            exact hproducer ⟨hother, by simpa using hno⟩

omit hstrict in
theorem Good.eachCall {α : Type} (call : World → α → World × Except String Bool)
    (hcall : ∀ (w : World) (entry : α), Good times w → Good times (call w entry).1)
    (entries : List α) : Good times (eachCall call w entries).1 := by
  induction entries generalizing w with
  | nil => exact h
  | cons entry entries ih =>
    have hnext := hcall w entry h
    unfold Unresolved.eachCall
    split
    · rename_i w' ok heq
      rw [heq] at hnext
      exact ih hnext
    · rename_i w' message heq
      rw [heq] at hnext
      exact hnext

theorem Good.settle (live : List UnresolvedItem)
    (actor : LedgerActor) (waivers : List WaiverItem) (currentStageKey runId : String) :
    Good times
      (settleUnresolved times w ticket live actor waivers currentStageKey runId).1 := by
  have h₁ := h.persist hstrict ticket live actor runId
  unfold settleUnresolved
  split
  · rename_i w₁ message heq
    rw [heq] at h₁
    exact h₁
  · rename_i w₁ heq
    rw [heq] at h₁
    have h₂ := h₁.eachCall
      (fun w (waiver : WaiverItem) =>
        Unresolved.waive times w ticket waiver.name waiver.reason actor runId)
      (fun w waiver hw => hw.waive hstrict _ _ _ _) waivers
    split
    · rename_i w₂ message heq₂
      rw [heq₂] at h₂
      exact h₂
    · rename_i w₂ heq₂
      rw [heq₂] at h₂
      extract_lets gone
      have h₃ := h₂.eachCall
        (fun w (item : OpenItem) => Unresolved.clear times w ticket item.name actor live)
        (fun w item hw => hw.clear hstrict _ _ _) gone
      split
      · rename_i w₃ message heq₃
        rw [heq₃] at h₃
        exact h₃
      · rename_i w₃ heq₃
        rw [heq₃] at h₃
        exact h₃

theorem Good.after (call : Call) : Good times (after times w call) := by
  cases call with
  | persist ticket live actor runId => exact h.persist hstrict ticket live actor runId
  | clear ticket name actor live => exact h.clear hstrict name actor live
  | waive ticket name reason actor runId => exact h.waive hstrict name reason actor runId
  | settle ticket live actor waivers currentStageKey runId =>
    exact h.settle hstrict live actor waivers currentStageKey runId

end

/-- **Every history keeps it.** -/
theorem good_history (calls : List Call) : Good times (calls.foldl (after times) []) := by
  have hfold : ∀ w, Good times w → Good times (calls.foldl (Unresolved.after times) w) := by
    induction calls with
    | nil => exact fun w h => h
    | cons call calls ih => exact fun w h => ih _ (h.after hstrict call)
  exact hfold [] { ascending := .nil, past := nofun, accounted := nofun }

end

theorem mem_openRowsOf : row ∈ openRowsOf w ticket ↔ row ∈ w ∧ row.isOpenOf ticket = true := by
  rw [openRowsOf, openRows, mem_filter, mem_ranked, mem_filter, isOpenOf,
    Bool.and_eq_true, and_assoc]

theorem openRowsOf_snoc (hlast : ∀ other ∈ w, other.createdAt ≤ row.createdAt) :
    openRowsOf (w ++ [row]) ticket =
      if row.isOpenOf ticket then openRowsOf w ticket ++ [row] else openRowsOf w ticket := by
  rw [openRowsOf, openRows, filter_append]
  by_cases hopen : row.isOpen = true
  · rw [filter_cons_of_pos hopen, filter_nil, ranked_snoc, filter_append]
    · by_cases hticket : row.ticketId = ticket
      · simp [isOpenOf, hopen, hticket, openRowsOf, openRows]
      · simp [isOpenOf, hticket, openRowsOf, openRows]
    · exact fun other ho => hlast other (mem_filter.mp ho).1
  · simp [isOpenOf, hopen, openRowsOf, openRows]

/-- The names of the last snapshot in the order detection reads them. -/
def latestNames (w : World) (ticket : Nat) : List String :=
  (((openRowsOf w ticket).getLast?.map Artifact.items).getD []).map OpenItem.name

theorem latestNames_eq
    (hnodup : ((w.filter (isOpenOf ticket)).map createdAt).Nodup) :
    latestNames w ticket = persistedOpenNames w ticket := by
  have hrow : (openRowsOf w ticket).getLast? = newestOpenRow w ticket := by
    cases hnewest : newestOpenRow w ticket with
    | none =>
      rw [List.getLast?_eq_none_iff, eq_nil_iff_forall_not_mem]
      intro row hin
      obtain ⟨hw, hopen⟩ := mem_openRowsOf.mp hin
      rw [newestOpenRow_eq_none.mp hnewest row hw] at hopen
      exact nomatch hopen
    | some row =>
      obtain ⟨hw, hopen, hmax⟩ := newestOpenRow_spec hnewest
      have hin := mem_openRowsOf.mpr ⟨hw, hopen⟩
      have hne := ne_nil_of_mem hin
      rw [List.getLast?_eq_some_getLast hne]
      have hlast := mem_openRowsOf.mp (getLast_mem hne)
      have hsorted : (openRowsOf w ticket).Pairwise fun a b => a.createdAt ≤ b.createdAt :=
        (ranked_pairwise _).filter _
      have hle : row.createdAt ≤ ((openRowsOf w ticket).getLast hne).createdAt := by
        rw [← dropLast_append_getLast hne] at hin hsorted
        rcases mem_append.mp hin with hfront | hend
        · exact (pairwise_append.mp hsorted).2.2 row hfront _ mem_cons_self
        · rw [mem_singleton.mp hend]
      have hsame := le_antisymm (hmax _ hlast.1 hlast.2) hle
      rw [inj_on_of_nodup_map hnodup (mem_filter.mpr hlast)
        (mem_filter.mpr ⟨hw, hopen⟩) hsame]
  rw [latestNames, hrow]
  rfl

theorem Timed.nodup (h : Timed times w) :
    ((w.filter (isOpenOf ticket)).map createdAt).Nodup := by
  rw [List.Nodup, pairwise_map]
  exact (h.ascending.filter _).imp fun hlt => hlt.ne

theorem mem_heldItems {rows : List Artifact} {held : Int × OpenItem} :
    held ∈ heldItems rows ↔ ∃ row ∈ rows, held.1 = row.createdAt ∧ held.2 ∈ row.items := by
  rw [heldItems, mem_flatMap]
  constructor
  · rintro ⟨row, hrow, hin⟩
    obtain ⟨item, hitem, rfl⟩ := mem_map.mp hin
    exact ⟨row, hrow, rfl, hitem⟩
  · rintro ⟨row, hrow, htime, hitem⟩
    exact ⟨row, hrow, mem_map.mpr ⟨held.2, hitem, Prod.ext htime.symm rfl⟩⟩

theorem missingItems_covers (held : List (Int × OpenItem)) (known : List String) :
    ∀ p ∈ held, p.2.name ∈ known ∨ hasAudit w ticket p.2.name (some p.1) = true ∨
      p.2.name ∈ (missingItems w ticket held known).map OpenItem.name := by
  induction held generalizing known with
  | nil => exact nofun
  | cons q held ih =>
    obtain ⟨time, item⟩ := q
    intro p hp
    rw [missingItems]
    split
    · rename_i hskip
      rcases mem_cons.mp hp with rfl | hin
      · exact hskip.imp_right .inl
      · exact ih known p hin
    · rw [map_cons, mem_cons]
      rcases mem_cons.mp hp with rfl | hin
      · exact .inr (.inr (.inl rfl))
      · rcases ih (item.name :: known) p hin with hknown | haudit | hfound
        · rcases mem_cons.mp hknown with hsame | hold
          · exact .inr (.inr (.inl hsame))
          · exact .inl hold
        · exact .inr (.inl haudit)
        · exact .inr (.inr (.inr hfound))

theorem missingItems_eq_nil {held : List (Int × OpenItem)} {known : List String}
    (h : ∀ p ∈ held, p.2.name ∈ known ∨ hasAudit w ticket p.2.name (some p.1) = true) :
    missingItems w ticket held known = [] := by
  induction held with
  | nil => rfl
  | cons p held ih =>
    rw [missingItems, if_pos (h _ mem_cons_self)]
    exact ih fun q hq => h q (mem_cons_of_mem _ hq)

theorem shrinkOf_eq_none {externalId : Nat → Option String}
    (h : ∀ row ∈ openRowsOf w ticket, ∀ item ∈ row.items, item.name ∈ latestNames w ticket ∨
      hasAudit w ticket item.name (some row.createdAt) = true) :
    shrinkOf externalId w ticket = none := by
  unfold shrinkOf
  extract_lets rows
  split
  · rfl
  · split
    · rfl
    · rename_i latest hlatest
      have hnames : latestNames w ticket = latest.items.map name := by
        rw [latestNames, show (openRowsOf w ticket).getLast? = some latest from hlatest]
        rfl
      extract_lets missing
      have hnil : missing = [] := by
        refine missingItems_eq_nil fun p hp => ?_
        obtain ⟨row, hrow, htime, hitem⟩ := mem_heldItems.mp hp
        rw [htime, ← hnames]
        exact h row (dropLast_subset _ hrow) p.2 hitem
      rw [hnil]
      rfl

theorem Explained.hasAudit (h : Explained w ticket name)
    (hasc : w.Pairwise fun a b => a.createdAt < b.createdAt) (hrow : row ∈ w)
    (hholds : row.holds ticket name = true) :
    hasAudit w ticket name (some row.createdAt) = true := by
  obtain ⟨before, after, audit, item, rfl, hticket, -, hafter, hsettles⟩ := h
  have hname : audit.auditName = some name := by
    obtain ⟨audited, time, content⟩ := audit
    cases content with
    | openSet items => exact False.elim hsettles
    | waiver waived reason actor runId | clear cleared actor live => exact congrArg some hsettles.1
  have hbefore : row ∈ before := by
    rcases mem_append.mp hrow with hin | hin
    · exact hin
    · rcases mem_cons.mp hin with rfl | hlater
      · have hopen := (isOpen_of_isOpenOf (isOpenOf_of_holds hholds)).1
        obtain ⟨audited, time, content⟩ := row
        cases content with
        | openSet items => exact nomatch hname
        | waiver | clear => exact nomatch hopen
      · rw [hafter row hlater] at hholds
        exact nomatch hholds
  have hlt := (pairwise_append.mp hasc).2.2 row hbefore audit mem_cons_self
  refine any_eq_true.mpr ⟨audit, mem_append_right _ mem_cons_self, ?_⟩
  simpa [hticket, hname] using hlt.le

theorem Good.shrinkOf (h : Good times w) (externalId : Nat → Option String) (ticket : Nat) :
    shrinkOf externalId w ticket = none := by
  refine shrinkOf_eq_none fun row hrow item hitem => ?_
  obtain ⟨hw, hopen⟩ := mem_openRowsOf.mp hrow
  have hholds : row.holds ticket item.name = true := (holds_iff hopen).mpr (mem_map_of_mem hitem)
  rcases h.accounted row hw ticket item.name hholds with hin | hexplained
  · exact .inl (latestNames_eq h.toTimed.nodup ▸ hin)
  · exact .inr (hexplained.hasAudit h.ascending hw hholds)

/-! ## Repair -/

variable {externalId : Nat → Option String}

theorem hasAudit_insert_open {t : Nat} {after : Option Int} :
    hasAudit (insert times w ticket (.openSet items)) t name after = hasAudit w t name after := by
  simp [hasAudit, insert, Artifact.auditName]

theorem latestNames_insert_open (hpast : ∀ row ∈ w, row.createdAt < times w.length) :
    latestNames (insert times w ticket (.openSet items)) ticket = items.map OpenItem.name := by
  rw [latestNames, insert, openRowsOf_snoc fun other ho => (hpast other ho).le,
    if_pos (by simp [Artifact.isOpenOf, Artifact.isOpen])]
  simp [Artifact.items]

theorem openRowsOf_insert_other {t : Nat} (ht : t ≠ ticket)
    (hpast : ∀ row ∈ w, row.createdAt < times w.length) :
    openRowsOf (insert times w t content) ticket = openRowsOf w ticket := by
  rw [insert, openRowsOf_snoc fun other ho => (hpast other ho).le,
    if_neg (by simp [isOpenOf, ht])]

/-- **A turn of the repair**: it leaves the table alone and there is nothing to find, or it
    adds a snapshot with the names of the last one and every name that left with no audit. -/
theorem repairTicket_spec (times : Nat → Int) (w : World)
    (hticket : (externalId ticket).isSome = true) :
    (∃ done, repairTicket times externalId w ticket = (w, .ok done) ∧
      shrinkOf externalId w ticket = none) ∨
    ∃ items, repairTicket times externalId w ticket =
        (insert times w ticket (.openSet items), .ok true) ∧
      (∀ n ∈ latestNames w ticket, n ∈ items.map OpenItem.name) ∧
      ∀ row ∈ openRowsOf w ticket, ∀ item ∈ row.items, item.name ∈ items.map OpenItem.name ∨
        hasAudit w ticket item.name (some row.createdAt) = true := by
  unfold repairTicket shrinkOf
  extract_lets rows
  by_cases hfew : rows.length < 2
  · exact .inl ⟨false, by rw [if_pos (.inr hfew)], if_pos hfew⟩
  · have hknown : ¬ ((externalId ticket).isNone = true ∨ rows.length < 2) := by
      rintro (hnone | hlt)
      · rw [Option.isNone_iff_eq_none] at hnone
        rw [hnone] at hticket
        exact nomatch hticket
      · exact hfew hlt
    rw [if_neg hknown, if_neg hfew]
    cases hlatest : rows.getLast? with
    | none => exact .inl ⟨false, rfl, rfl⟩
    | some latest =>
      dsimp only
      generalize hmissing : missingItems w ticket (heldItems rows.dropLast)
        (latest.items.map name) = missing
      have hnames : latestNames w ticket = latest.items.map name := by
        rw [latestNames, show (openRowsOf w ticket).getLast? = some latest from hlatest]
        rfl
      by_cases hempty : missing.isEmpty = true
      · exact .inl ⟨false, if_pos hempty, if_pos hempty⟩
      rw [if_neg hempty]
      have hkeeps : ∀ n ∈ latestNames w ticket,
          n ∈ (keyed latest.items ++ missing).map name := by
        intro n hn
        rw [map_append, mem_append]
        exact .inl (mem_keyed.mpr (hnames ▸ hn))
      have hcovers : ∀ row ∈ rows, ∀ item ∈ row.items,
          item.name ∈ (keyed latest.items ++ missing).map name ∨
            hasAudit w ticket item.name (some row.createdAt) = true := by
        intro row hrow item hitem
        have hlast : rows = rows.dropLast ++ [latest] := by
          have hne := ne_nil_of_mem hrow
          rw [List.getLast?_eq_some_getLast hne, Option.some_inj] at hlatest
          rw [← hlatest, dropLast_append_getLast hne]
        rw [hlast] at hrow
        rcases mem_append.mp hrow with hold | hend
        · rcases missingItems_covers _ (latest.items.map name) (row.createdAt, item)
            (mem_heldItems.mpr ⟨row, hold, rfl, hitem⟩) with hin | haudit | hfound
          · exact .inl (hkeeps _ (hnames ▸ hin))
          · exact .inr haudit
          · rw [hmissing] at hfound
            rw [map_append, mem_append]
            exact .inl (.inr hfound)
        · rw [mem_singleton.mp hend] at hitem
          exact .inl (hkeeps _ (hnames ▸ mem_map_of_mem hitem))
      -- the newest snapshot may be another of its time than the last
      have hok : writeOpen times w ticket (keyed latest.items ++ missing) =
          (insert times w ticket (.openSet (keyed latest.items ++ missing)), .ok ()) :=
        writeOpen_ok fun n hn hout => by
          rw [persistedOpenNames, currentOpenItems] at hn
          cases hnewest : newestOpenRow w ticket with
          | none =>
            rw [hnewest] at hn
            exact nomatch hn
          | some row =>
            rw [hnewest] at hn
            obtain ⟨item, hitem, rfl⟩ := mem_map.mp hn
            obtain ⟨hw, hopen, -⟩ := newestOpenRow_spec hnewest
            exact (hcovers row (mem_openRowsOf.mpr ⟨hw, hopen⟩) item hitem).resolve_left hout
      rw [hok]
      exact .inr ⟨_, rfl, hkeeps, hcovers⟩

structure Repaired (times : Nat → Int) (externalId : Nat → Option String) (ticket : Nat)
    (w w' : World) : Prop where
  past : ∀ row ∈ w', row.createdAt < times w'.length
  clean : shrinkOf externalId w ticket = none → shrinkOf externalId w' ticket = none
  names : ∀ n ∈ latestNames w ticket, n ∈ latestNames w' ticket
  distinct : ((w.filter (Artifact.isOpenOf ticket)).map Artifact.createdAt).Nodup →
    ((w'.filter (Artifact.isOpenOf ticket)).map Artifact.createdAt).Nodup

theorem Repaired.refl (hpast : ∀ row ∈ w, row.createdAt < times w.length) :
    Repaired times externalId ticket w w :=
  ⟨hpast, id, fun _ hn => hn, id⟩

theorem Repaired.trans {w₁ w₂ : World} (h₁ : Repaired times externalId ticket w w₁)
    (h₂ : Repaired times externalId ticket w₁ w₂) : Repaired times externalId ticket w w₂ where
  past := h₂.past
  clean := fun h => h₂.clean (h₁.clean h)
  names := fun n hn => h₂.names n (h₁.names n hn)
  distinct := fun h => h₂.distinct (h₁.distinct h)

theorem missingItems_congr {w' : World}
    (h : ∀ name after, hasAudit w' ticket name after = hasAudit w ticket name after)
    (held : List (Int × OpenItem)) (known : List String) :
    missingItems w' ticket held known = missingItems w ticket held known := by
  induction held generalizing known with
  | nil => rfl
  | cons p held ih =>
    rw [missingItems, missingItems, h, ih, ih]

theorem shrinkOf_congr {w' : World} (hrows : openRowsOf w' ticket = openRowsOf w ticket)
    (h : ∀ name after, hasAudit w' ticket name after = hasAudit w ticket name after) :
    shrinkOf externalId w' ticket = shrinkOf externalId w ticket := by
  unfold shrinkOf
  rw [hrows]
  simp only [missingItems_congr h]

theorem shrinkOf_insert_open (hpast : ∀ row ∈ w, row.createdAt < times w.length)
    (hcovers : ∀ row ∈ openRowsOf w ticket, ∀ item ∈ row.items,
      item.name ∈ items.map OpenItem.name ∨
        hasAudit w ticket item.name (some row.createdAt) = true) :
    shrinkOf externalId (insert times w ticket (.openSet items)) ticket = none := by
  refine shrinkOf_eq_none fun row hrow item hitem => ?_
  rw [latestNames_insert_open hpast, hasAudit_insert_open]
  rw [insert, openRowsOf_snoc fun other ho => (hpast other ho).le,
    if_pos (by simp [isOpenOf, isOpen])] at hrow
  rcases mem_append.mp hrow with hold | hnew
  · exact hcovers row hold item hitem
  · rw [mem_singleton.mp hnew] at hitem
    exact .inl (mem_map_of_mem hitem)

theorem repairTicket_keeps (externalId : Nat → Option String) (ticket : Nat)
    (hstrict : Increasing times) (hpast : ∀ row ∈ w, row.createdAt < times w.length) (t : Nat) :
    ∃ w' done, repairTicket times externalId w t = (w', .ok done) ∧
      Repaired times externalId ticket w w' ∧
      (t = ticket → (externalId ticket).isSome = true → shrinkOf externalId w' ticket = none) := by
  by_cases hknown : (externalId t).isSome = true
  · rcases repairTicket_spec times w hknown with
      ⟨done, heq, hclean⟩ | ⟨items, heq, hnames, hcovers⟩
    · exact ⟨w, done, heq, .refl hpast, fun ht _ => ht ▸ hclean⟩
    · refine ⟨_, true, heq, ?_, fun ht _ => ?_⟩
      · constructor
        · intro row hrow
          have hlen : (insert times w t (.openSet items)).length = w.length + 1 := by
            simp [insert]
          rw [hlen]
          rcases mem_append.mp hrow with hold | hnew
          · exact (hpast row hold).trans (hstrict _ _ (Nat.lt_succ_self _))
          · rw [mem_singleton.mp hnew]
            exact hstrict _ _ (Nat.lt_succ_self _)
        · intro hclean
          by_cases ht : t = ticket
          · subst ht
            exact shrinkOf_insert_open hpast hcovers
          · rw [shrinkOf_congr (openRowsOf_insert_other ht hpast)
              fun _ _ => hasAudit_insert_open]
            exact hclean
        · intro n hn
          by_cases ht : t = ticket
          · subst ht
            rw [latestNames_insert_open hpast]
            exact hnames n hn
          · rw [latestNames, openRowsOf_insert_other ht hpast]
            exact hn
        · intro hnodup
          rw [insert, filter_append, map_append]
          refine nodup_append.mpr ⟨hnodup, ?_, ?_⟩
          · exact (filter_sublist.map createdAt).nodup (nodup_singleton _)
          · intro time htime time' htime' heq
            obtain ⟨row, hrow, rfl⟩ := mem_map.mp htime
            obtain ⟨new, hnew, rfl⟩ := mem_map.mp htime'
            rw [mem_singleton.mp (mem_filter.mp hnew).1] at heq
            exact absurd heq (hpast row (mem_filter.mp hrow).1).ne
      · subst ht
        exact shrinkOf_insert_open hpast hcovers
  · -- no ticket is found
    have hskip : repairTicket times externalId w t = (w, .ok false) := by
      unfold repairTicket
      rw [if_pos (.inl (by simpa using hknown))]
    exact ⟨w, false, hskip, .refl hpast, fun ht hsome => absurd (ht ▸ hsome) hknown⟩

theorem repair_keeps (externalId : Nat → Option String) (ticket : Nat) (hstrict : Increasing times)
    (ids : List Nat) (hpast : ∀ row ∈ w, row.createdAt < times w.length) :
    ∃ w', repairUnauditedOpenShrink times externalId w ids = (w', .ok ()) ∧
      Repaired times externalId ticket w w' ∧
      (ticket ∈ ids → (externalId ticket).isSome = true →
        shrinkOf externalId w' ticket = none) := by
  unfold repairUnauditedOpenShrink
  induction ids generalizing w with
  | nil => exact ⟨w, rfl, .refl hpast, nofun⟩
  | cons t ids ih =>
    obtain ⟨w₁, done, heq, hturn, hclean⟩ := repairTicket_keeps externalId ticket
      hstrict hpast t
    obtain ⟨w₂, hrest, hlater, hlast⟩ := ih hturn.past
    refine ⟨w₂, ?_, hturn.trans hlater, fun hin hsome => ?_⟩
    · rw [eachCall, heq]
      exact hrest
    · rcases mem_cons.mp hin with rfl | htail
      · exact hlater.clean (hclean rfl hsome)
      · exact hlast htail hsome

theorem not_mem_detect (h : shrinkOf externalId w ticket = none) :
    ∀ finding ∈ detectUnauditedOpenShrink externalId w, finding.ticketId ≠ ticket := by
  rintro finding hfinding rfl
  obtain ⟨t, -, ht⟩ := mem_filterMap.mp hfinding
  have hid : finding.ticketId = t := by
    unfold shrinkOf at ht
    extract_lets rows at ht
    split at ht
    · exact nomatch ht
    · split at ht
      · exact nomatch ht
      · extract_lets missing at ht
        split at ht
        · exact nomatch ht
        · rw [← Option.some_inj.mp ht]
  rw [hid, ht] at h
  exact nomatch h

/-- **No named item vanishes**: after every history of calls each name a snapshot held is in
    the newest one or let go by an audit row after the last that held it, and detection finds
    nothing; after a repair, from any rows, it finds nothing for the ticket, and the names of
    its newest snapshot are still there. -/
theorem names_never_vanish (times : Nat → Int) (hstrict : Increasing times)
    (externalId : Nat → Option String) :
    (∀ calls : List Call,
      (∀ row ∈ calls.foldl (after times) [], ∀ ticket name, row.holds ticket name = true →
        Accounted (calls.foldl (after times) []) ticket name) ∧
      detectUnauditedOpenShrink externalId (calls.foldl (after times) []) = []) ∧
    ∀ (w : World) (ids : List Nat) (ticket : Nat), (∀ row ∈ w, row.createdAt < times w.length) →
      ticket ∈ ids → (externalId ticket).isSome = true →
      ∃ w', repairUnauditedOpenShrink times externalId w ids = (w', .ok ()) ∧
        (∀ finding ∈ detectUnauditedOpenShrink externalId w', finding.ticketId ≠ ticket) ∧
        (∀ n ∈ latestNames w ticket, n ∈ latestNames w' ticket) ∧
        (((w.filter (Artifact.isOpenOf ticket)).map Artifact.createdAt).Nodup →
          ∀ n ∈ persistedOpenNames w ticket, n ∈ persistedOpenNames w' ticket) := by
  constructor
  · intro calls
    have hgood := good_history hstrict calls
    refine ⟨hgood.accounted, ?_⟩
    rw [detectUnauditedOpenShrink, filterMap_eq_nil_iff]
    exact fun ticket _ => hgood.shrinkOf externalId ticket
  · intro w ids ticket hpast hin hsome
    obtain ⟨w', heq, hkept, hclean⟩ := repair_keeps externalId ticket hstrict ids hpast
    refine ⟨w', heq, not_mem_detect (hclean hin hsome), hkept.names, fun hnodup n hn => ?_⟩
    rw [← latestNames_eq (hkept.distinct hnodup)]
    rw [← latestNames_eq hnodup] at hn
    exact hkept.names n hn

/-- Two interleaved sessions: the second snapshot lost what the first had. -/
def interleaved : World :=
  [⟨1, 10, .openSet [{ name := "tests" }]⟩, ⟨1, 20, .openSet [{ name := "docs" }]⟩]

theorem names_never_vanish_interleaved : (∀ n ∈ latestNames interleaved 1, n ∈ latestNames
      (repairUnauditedOpenShrink (fun n => 100 + n) (fun _ => some "T-1") interleaved [1]).1 1) ∧
    detectUnauditedOpenShrink (fun _ => some "T-1") interleaved ≠ [] := by
  have h := (names_never_vanish (fun n => 100 + n) (fun m n h => by simpa using h)
    (fun _ => some "T-1")).2 interleaved [1] 1 (by decide) (by decide) rfl
  obtain ⟨w', heq, -, hnames, -⟩ := h
  rw [heq]
  exact ⟨hnames, by decide +kernel⟩

end Loregarden.Unresolved

