import Loregarden.OversizedSplitModel
import Loregarden.RefusalProofs

/-! # What a reply to a split makes of it

Which replies raise what the split does not handle: those whose `children` lead its walk, before
anything is refused, to a value that cannot be walked, has no `get`, or is no number. And what the
proposals it accepts are. -/

namespace Loregarden.OversizedSplit

open Refusals List

variable {py : Library}
variable {criteria : List String} {condition : Prop} {refusal e : Raised} {value : Json}
variable {α β : Type} {x : Except Raised α} {f : α → Except Raised β} {limit : Nat} {reply : Reply}
variable {children : List Item}

theorem stripped_stripped (s : String) : stripped (stripped s) = stripped s := by
  rw [stripped, stripped, String.toList_ofList, Text.strip_strip]

@[simp] theorem stripped_normalizeText (s : String) :
    stripped (py.normalizeText s) = py.normalizeText s :=
  stripped_stripped _

@[simp] theorem normalizeText_normalizeText (s : String) :
    py.normalizeText (py.normalizeText s) = py.normalizeText s := by
  show stripped (py.nfc (stripped (py.nfc s))) = stripped (py.nfc s)
  rw [py.nfc_again, stripped_stripped]

theorem mem_normalizeCriteria {c : String}
    (h : c ∈ normalizeCriteria criteria) : stripped c = c ∧ c ≠ "" := by
  obtain ⟨hmem, hne⟩ := mem_filter.mp h
  obtain ⟨raw, -, rfl⟩ := mem_map.mp hmem
  exact ⟨stripped_stripped raw, of_decide_eq_true hne⟩

theorem normalizeCriteria_eq_self
    (h : ∀ c ∈ criteria, stripped c = c ∧ c ≠ "") : normalizeCriteria criteria = criteria := by
  have hmap : criteria.map stripped = criteria :=
    (map_congr_left fun c hc => (h c hc).1).trans (map_id _)
  rw [normalizeCriteria, hmap, filter_eq_self]
  intro c hc
  exact decide_eq_true (h c hc).2

/-! ## Refusals -/

theorem refuse_ok [Decidable condition] {u : Unit} :
    refuse condition refusal = .ok u ↔ ¬ condition := by
  rw [refuse]
  by_cases h : condition
  · rw [if_pos h]
    exact ⟨nofun, fun hn => absurd h hn⟩
  · rw [if_neg h]
    exact ⟨fun _ => h, fun _ => rfl⟩

theorem refuse_error [Decidable condition]
    (h : refuse condition refusal = .error e) : e = refusal := by
  rw [refuse] at h
  by_cases hc : condition
  · rw [if_pos hc] at h
    exact (Except.error.inj h).symm
  · rw [if_neg hc] at h
    cases h

theorem require_error (h : require value refusal = .error e) : e = refusal := by
  rw [require] at h
  by_cases hv : value.truthy = true
  · rw [if_pos hv] at h
    cases h
  · rw [if_neg hv] at h
    exact (Except.error.inj h).symm

def Handled {α : Type} (x : Except Raised α) : Prop := ∀ e, x = .error e → e.handled = true

theorem Handled.bind (hx : Handled x) (hf : ∀ a, Handled (f a)) : Handled (x >>= f) := by
  intro e he
  rcases bind_error_iff.mp he with h | ⟨a, -, h⟩
  · exact hx e h
  · exact hf a e h

theorem Handled.ok (a : α) : Handled (.ok a) := fun _ h => nomatch h

theorem Handled.error (h : e.handled = true) :
    Handled (.error e : Except Raised α) := fun _ he => Except.error.inj he ▸ h

theorem Handled.refuse [Decidable condition]
    (h : refusal.handled = true) : Handled (refuse condition refusal) :=
  fun _ he => refuse_error he ▸ h

theorem Handled.require (h : refusal.handled = true) : Handled (require value refusal) :=
  fun _ he => require_error he ▸ h

theorem Handled.mapM {as : List α} (h : ∀ a, Handled (f a)) : Handled (as.mapM f) := by
  intro e he
  obtain ⟨-, a, -, -, -, ha⟩ := mapM_error_iff.mp he
  exact h a e ha

theorem textOf_handled (value : Json) : Handled (textOf value) := by
  cases value with
  | str s => exact .ok s
  | _ => exact .error rfl

theorem workItemType_handled (value : Json) : Handled (workItemType value) := by
  intro e he
  unfold workItemType at he
  split at he
  all_goals first | cases he; rfl | cases he

theorem criteriaOf_handled (value : Json) : Handled (criteriaOf value) := by
  cases value with
  | arr items => exact .ok items
  | _ => exact .error rfl

theorem parseHead_handled (fields : List (String × Json)) : Handled (parseHead fields) := by
  refine .bind (.require rfl) fun _ => .bind (.require rfl) fun _ => .bind (.require rfl) fun _ =>
    .bind (workItemType_handled _) fun _ => .bind (criteriaOf_handled _) fun _ => .ok _

theorem buildItem_handled (fields : List (String × Json)) (type : TicketWait.WorkItemType)
    (criteria : List Json) (priority : Int) (children : Nat) :
    Handled (buildItem fields type criteria priority children) := by
  refine .bind (textOf_handled _) fun _ => .bind (textOf_handled _) fun _ =>
    .bind (textOf_handled _) fun _ => .bind (.mapM textOf_handled) fun _ => .ok _

/-! ## Replies that raise -/

/-- A value `int` has no answer for, of no kind it refuses. -/
inductive NoNumber : Json → Prop where
  | null : NoNumber .null
  | infinite : NoNumber .infinite
  | arr (items : List Json) : NoNumber (.arr items)
  | obj (fields : List (String × Json)) : NoNumber (.obj fields)

/-- A value of `children` that cannot be walked, or is walked by texts. -/
inductive NoWalk : Json → Prop where
  | null : NoWalk .null
  | bool (b : Bool) : NoWalk (.bool b)
  | int (n : Int) : NoWalk (.int n)
  | float (q : Rat) : NoWalk (.float q)
  | infinite : NoWalk .infinite
  | nan : NoWalk .nan
  | str {s : String} (h : s ≠ "") : NoWalk (.str s)
  | obj {fields : List (String × Json)} (h : fields ≠ []) : NoWalk (.obj fields)

/-- **The items that make `_parse_item` raise what is not handled**: no object, or one with a
    sound head whose priority is of a kind `int` does not take, or whose children cannot be
    walked or have such an item behind sound ones. -/
inductive Chokes (py : Library) : Nat → Json → Prop where
  | notObject {depth : Nat} {value : Json} (h : ∀ fields, value ≠ .obj fields) :
      Chokes py (depth + 1) value
  | priority {depth : Nat} {fields : List (String × Json)}
      {head : TicketWait.WorkItemType × List Json} (hhead : parseHead fields = .ok head)
      (h : NoNumber (field fields "priority" (.int 3))) : Chokes py (depth + 1) (.obj fields)
  | children {depth : Nat} {fields : List (String × Json)}
      {head : TicketWait.WorkItemType × List Json} {priority : Int}
      (hhead : parseHead fields = .ok head)
      (hpriority : priorityOf py (field fields "priority" (.int 3)) = .ok priority)
      (h : NoWalk (field fields "children" (.arr []))) : Chokes py (depth + 1) (.obj fields)
  | child {depth : Nat} {fields : List (String × Json)}
      {head : TicketWait.WorkItemType × List Json} {priority : Int} {front rest : List Json}
      {value : Json} (hhead : parseHead fields = .ok head)
      (hpriority : priorityOf py (field fields "priority" (.int 3)) = .ok priority)
      (hitems : field fields "children" (.arr []) = .arr (front ++ value :: rest))
      (hfront : ∀ v ∈ front, ∃ item, parseItem py depth v = .ok item)
      (h : Chokes py depth value) : Chokes py (depth + 1) (.obj fields)

/-- The replies that make the split raise what it does not handle. -/
inductive ReplyChokes (py : Library) (limit : Nat) : Reply → Prop where
  | children {fields : List (String × Json)} (h : NoWalk (field fields "children" (.arr []))) :
      ReplyChokes py limit (.object fields)
  | child {fields : List (String × Json)} {front rest : List Json} {value : Json}
      (hitems : field fields "children" (.arr []) = .arr (front ++ value :: rest))
      (hfront : ∀ v ∈ front, ∃ item, parseItem py limit v = .ok item)
      (h : Chokes py limit value) : ReplyChokes py limit (.object fields)

theorem priorityOf_unhandled_iff :
    (∃ e, priorityOf py value = .error e ∧ e.handled = false) ↔ NoNumber value := by
  constructor
  · rintro ⟨e, he, hh⟩
    cases value with
    | null => exact .null
    | infinite => exact .infinite
    | arr items => exact .arr items
    | obj fields => exact .obj fields
    | str s =>
      rw [priorityOf] at he
      split at he
      · cases he
      · cases he
        cases hh
    | nan =>
      cases he
      cases hh
    | bool b | int n | float q => cases he
  · intro h
    cases h with
    | infinite | null | arr items | obj fields => exact ⟨_, rfl, rfl⟩

/-- A walk raises what is not handled over a value it cannot walk, or at its first item that is
    not sound. -/
theorem parseEach_unhandled_iff {parse : Json → Except Raised Item} :
    (∃ e, parseEach parse value = .error e ∧ e.handled = false) ↔ NoWalk value ∨
      ∃ front v rest, value = .arr (front ++ v :: rest) ∧
        (∀ u ∈ front, ∃ item, parse u = .ok item) ∧
        ∃ e, parse v = .error e ∧ e.handled = false := by
  constructor
  · rintro ⟨e, he, hh⟩
    cases value with
    | arr items =>
      obtain ⟨front, v, rest, rfl, hfront, hv⟩ := mapM_error_iff.mp he
      exact .inr ⟨front, v, rest, rfl, hfront, e, hv, hh⟩
    | str s =>
      rw [parseEach] at he
      by_cases hs : s = ""
      · rw [if_pos hs] at he
        cases he
      · exact .inl (.str hs)
    | obj fields =>
      by_cases hf : fields = []
      · subst hf
        cases he
      · exact .inl (.obj hf)
    | null => exact .inl .null
    | bool b => exact .inl (.bool b)
    | int n => exact .inl (.int n)
    | float q => exact .inl (.float q)
    | infinite => exact .inl .infinite
    | nan => exact .inl .nan
  · rintro (h | ⟨front, v, rest, rfl, hfront, e, hv, hh⟩)
    · cases h with
      | str hs => exact ⟨.attributeError, if_neg hs, rfl⟩
      | obj hf => exact ⟨.attributeError, if_neg (by simpa using hf), rfl⟩
      | null | bool b | int n | float q | infinite | nan => exact ⟨_, rfl, rfl⟩
    · exact ⟨e, mapM_error_iff.mpr ⟨front, v, rest, rfl, hfront, hv⟩, hh⟩

theorem bind_unhandled_iff : (∃ e, x >>= f = .error e ∧ e.handled = false) ↔
      (∃ e, x = .error e ∧ e.handled = false) ∨
        ∃ a, x = .ok a ∧ ∃ e, f a = .error e ∧ e.handled = false := by
  constructor
  · rintro ⟨e, he, hh⟩
    rcases bind_error_iff.mp he with h | ⟨a, ha, h⟩
    · exact .inl ⟨e, h, hh⟩
    · exact .inr ⟨a, ha, e, h, hh⟩
  · rintro (⟨e, h, hh⟩ | ⟨a, ha, e, h, hh⟩)
    · exact ⟨e, bind_error_iff.mpr (.inl h), hh⟩
    · exact ⟨e, bind_error_iff.mpr (.inr ⟨a, ha, h⟩), hh⟩

theorem Handled.not_unhandled (h : Handled x) : ¬ ∃ e, x = .error e ∧ e.handled = false := by
  rintro ⟨e, he, hh⟩
  rw [h e he] at hh
  cases hh

/-- `_parse_item` raises what is not handled exactly over the items named. -/
theorem parseItem_unhandled_iff {depth : Nat} :
    (∃ e, parseItem py depth value = .error e ∧ e.handled = false) ↔ Chokes py depth value := by
  induction depth generalizing value with
  | zero =>
    constructor
    · rintro ⟨e, he, hh⟩
      cases he
      cases hh
    · intro h
      cases h
  | succ depth ih =>
    by_cases hobj : ∃ fields, value = .obj fields
    · obtain ⟨fields, rfl⟩ := hobj
      rw [parseItem, bind_unhandled_iff]
      constructor
      · rintro (h | ⟨head, hhead, h⟩)
        · exact absurd h (parseHead_handled fields).not_unhandled
        · rcases bind_unhandled_iff.mp h with h | ⟨priority, hpriority, h⟩
          · exact .priority hhead (priorityOf_unhandled_iff.mp h)
          · rcases bind_unhandled_iff.mp h with h | ⟨items, -, h⟩
            · rcases parseEach_unhandled_iff.mp h with h | ⟨front, v, rest, hv, hfront, h⟩
              · exact .children hhead hpriority h
              · exact .child hhead hpriority hv hfront (ih.mp h)
            · exact absurd h (buildItem_handled _ _ _ _ _).not_unhandled
      · intro h
        cases h with
        | notObject h => exact absurd rfl (h fields)
        | priority hhead h =>
          exact .inr ⟨_, hhead, bind_unhandled_iff.mpr
            (.inl (priorityOf_unhandled_iff.mpr h))⟩
        | children hhead hpriority h =>
          exact .inr ⟨_, hhead, bind_unhandled_iff.mpr (.inr ⟨_, hpriority,
            bind_unhandled_iff.mpr (.inl (parseEach_unhandled_iff.mpr (.inl h)))⟩)⟩
        | child hhead hpriority hitems hfront h =>
          exact .inr ⟨_, hhead, bind_unhandled_iff.mpr (.inr ⟨_, hpriority,
            bind_unhandled_iff.mpr (.inl (parseEach_unhandled_iff.mpr
              (.inr ⟨_, _, _, hitems, hfront, ih.mpr h⟩)))⟩)⟩
    · have hno : ∀ fields, value ≠ .obj fields := fun fields h => hobj ⟨fields, h⟩
      constructor
      · intro _
        exact .notObject hno
      · intro _
        refine ⟨.attributeError, ?_, rfl⟩
        cases value with
        | obj fields => exact absurd rfl (hno fields)
        | _ => rfl

theorem proposed_unhandled_iff :
    (∃ e, proposed py limit reply = .error e ∧ e.handled = false) ↔ ReplyChokes py limit reply := by
  cases reply with
  | failed | noObject =>
    constructor
    · rintro ⟨e, he, hh⟩
      cases he
      cases hh
    · intro h
      cases h
  | object fields =>
    show (∃ e, parseEach _ _ = .error e ∧ e.handled = false) ↔ _
    rw [parseEach_unhandled_iff]
    constructor
    · rintro (h | ⟨front, v, rest, hv, hfront, h⟩)
      · exact .children h
      · exact .child hv hfront (parseItem_unhandled_iff.mp h)
    · intro h
      cases h with
      | children h => exact .inl h
      | child hitems hfront h =>
        exact .inr ⟨_, _, _, hitems, hfront, parseItem_unhandled_iff.mpr h⟩

/-! ## What is accepted -/

theorem normalizeAndValidateItem_handled (item : Item) :
    Handled (normalizeAndValidateItem py item) := by
  refine .bind (.refuse rfl) fun _ => .bind (.refuse rfl) fun _ => .bind (.refuse rfl) fun _ =>
    .bind (.refuse rfl) fun _ => .bind (.refuse rfl) fun _ => .bind (.refuse rfl) fun _ =>
    .bind (.refuse rfl) fun _ => .ok _

theorem validateAll_handled (hierarchy : List Item) : Handled (validateAll py hierarchy) := by
  refine .bind (.refuse rfl) fun _ => .bind (.refuse rfl) fun _ => .bind (.refuse rfl) fun _ =>
    .mapM normalizeAndValidateItem_handled

theorem checkParent_handled (s : Store) (workspace : TicketWait.WorkspaceId)
    (type : TicketWait.WorkItemType) (parent : TicketWait.TicketId) :
    Handled (checkParent s workspace type parent) := by
  rw [checkParent]
  cases s.db.get parent with
  | none => exact .error rfl
  | some linked => exact .bind (.refuse rfl) fun _ => .refuse rfl

theorem buildTicket_handled (s : Store) (workspace : TicketWait.WorkspaceId)
    (parent : TicketWait.TicketId) (item : Item) :
    Handled (buildTicket s workspace parent item) := by
  refine .bind (.refuse rfl) fun _ => .bind (.refuse rfl) fun _ =>
    .bind (checkParent_handled _ _ _ _) fun _ => .bind (.refuse rfl) fun _ =>
    .bind (.refuse rfl) fun _ => .bind (.refuse rfl) fun _ => .ok _

theorem prepared_handled (env : Env) (s : Store) (ticket : TicketWait.Ticket)
    (children : List Item) : Handled (prepared env s ticket children) := by
  rw [prepared]
  cases workspaceFor env ticket with
  | none => exact .error rfl
  | some workspace =>
    exact .bind (validateAll_handled _) fun _ =>
      .bind (.bind (.refuse rfl) fun _ => .refuse rfl) fun _ => .mapM (buildTicket_handled _ _ _)

theorem split_unhandled_iff {childType : TicketWait.WorkItemType} :
    (∃ e, split py limit reply childType criteria = .error e ∧ e.handled = false) ↔
      ReplyChokes py limit reply := by
  rw [split, bind_unhandled_iff, proposed_unhandled_iff]
  constructor
  · rintro (h | ⟨children, -, h⟩)
    · exact h
    · refine absurd h (Handled.not_unhandled ?_)
      exact .bind (.refuse rfl) fun _ => .bind (.refuse rfl) fun _ =>
        .bind (validateAll_handled _) fun _ => .bind (.refuse rfl) fun _ => .ok _
  · intro h
    exact .inl h

theorem normalizeAndValidateItem_ok {item valid : Item}
    (h : normalizeAndValidateItem py item = .ok valid) :
    valid.title = py.normalizeText item.title ∧
      valid.acceptanceCriteria = item.acceptanceCriteria.map py.normalizeText ∧
      valid.workItemType = item.workItemType := by
  simp only [normalizeAndValidateItem, bind_ok_iff, stripped_normalizeText] at h
  obtain ⟨_, _, _, _, _, _, _, _, _, _, _, _, _, _, h⟩ := h
  cases Except.ok.inj h
  exact ⟨rfl, rfl, rfl⟩

theorem validateAll_ok {hierarchy valid : List Item} (h : validateAll py hierarchy = .ok valid) :
    List.Forall₂ (fun item v => normalizeAndValidateItem py item = .ok v) hierarchy valid := by
  simp only [validateAll, bind_ok_iff] at h
  obtain ⟨_, _, _, _, _, _, h⟩ := h
  exact mapM_ok_iff.mp h

theorem split_ok {childType : TicketWait.WorkItemType}
    (h : split py limit reply childType criteria = .ok children) :
    ∃ items, proposed py limit reply = .ok items ∧ 2 ≤ items.length ∧
      List.Forall₂ (fun item v => normalizeAndValidateItem py item = .ok v) items children ∧
      (children.flatMap Item.acceptanceCriteria).Perm (criteria.map py.normalizeText) := by
  simp only [split, requireCriteriaPartition, bind_ok_iff, refuse_ok] at h
  obtain ⟨items, hitems, _, htwo, _, -, valid, hvalid, _, hperm, h⟩ := h
  cases Except.ok.inj h
  exact ⟨items, hitems, Nat.not_lt.mp htwo, validateAll_ok hvalid, not_not.mp hperm⟩

/-- A row carries an item of the proposal: its title, and its criteria as they are stored. -/
structure Rowed (py : Library) (parent : TicketWait.TicketId) (item : Item) (row : NewRow) :
    Prop where
  parent : row.parentTicketId = parent
  review : row.isIntegrationReview = false
  title : row.content.title = py.normalizeText item.title
  criteria : row.content.acceptanceCriteria
    = normalizeCriteria (item.acceptanceCriteria.map py.normalizeText)

theorem buildTicket_ok {s : Store} {workspace : TicketWait.WorkspaceId}
    {parent : TicketWait.TicketId} {item : Item} {row : NewRow}
    (h : buildTicket s workspace parent item = .ok row) :
    row.parentTicketId = parent ∧ row.isIntegrationReview = false ∧
      row.workspaceId = workspace ∧ row.content.title = stripped item.title ∧
      row.content.acceptanceCriteria = normalizeCriteria item.acceptanceCriteria := by
  simp only [buildTicket, bind_ok_iff] at h
  obtain ⟨_, _, _, _, _, _, _, _, _, _, _, _, h⟩ := h
  cases Except.ok.inj h
  exact ⟨rfl, rfl, rfl, rfl, rfl⟩

theorem forall₂_referred {ref : String} :
    List.Forall₂ (fun c r => r.title = c.title ∧ r.acceptanceCriteria = c.acceptanceCriteria)
      children (referred ref children) := by
  rw [referred]
  generalize hf : (fun (i : Nat) (child : Item) =>
    { child with externalId := ref ++ "-part-" ++ toString (i + 1) }) = f
  have hkeep : ∀ i child, (f i child).title = child.title ∧
      (f i child).acceptanceCriteria = child.acceptanceCriteria := by
    intro i child
    rw [← hf]
    exact ⟨rfl, rfl⟩
  clear hf
  induction children generalizing f with
  | nil => exact .nil
  | cons child children ih =>
    rw [mapIdx_cons]
    exact .cons (hkeep 0 child) (ih _ fun i => hkeep (i + 1))

theorem prepared_ok {env : Env} {s : Store} {ticket : TicketWait.Ticket}
    {items : List Item} {rows : List NewRow}
    (hvalid : List.Forall₂ (fun item v => normalizeAndValidateItem env.py item = .ok v) items
      children) (h : prepared env s ticket children = .ok rows) :
    List.Forall₂ (Rowed env.py ticket.id) items rows := by
  rw [prepared] at h
  cases hw : workspaceFor env ticket with
  | none =>
    rw [hw] at h
    cases h
  | some workspace =>
    rw [hw] at h
    simp only [bind_ok_iff] at h
    obtain ⟨valid, hagain, _, -, hrows⟩ := h
    have hbuilt := mapM_ok_iff.mp hrows
    have hrefs := @forall₂_referred children (s.content ticket.id).externalId
    clear hrows
    generalize referred (s.content ticket.id).externalId children = refs at hagain hrefs
    have hsecond := validateAll_ok hagain
    clear hagain
    induction hvalid generalizing refs valid rows with
    | nil =>
      cases hrefs
      cases hsecond
      cases hbuilt
      exact .nil
    | cons hv _ ih =>
      cases hrefs with
      | cons hr hrefs =>
        cases hsecond with
        | cons hv' hsecond =>
          cases hbuilt with
          | cons hb hbuilt =>
            refine .cons ?_ (ih _ hbuilt _ hrefs hsecond)
            obtain ⟨ht, hc, -⟩ := normalizeAndValidateItem_ok hv
            obtain ⟨ht', hc', -⟩ := normalizeAndValidateItem_ok hv'
            obtain ⟨hparent, hreview, -, htitle, hcriteria⟩ := buildTicket_ok hb
            refine ⟨hparent, hreview, ?_, ?_⟩
            · rw [htitle, ht', hr.1, ht, normalizeText_normalizeText, stripped_normalizeText]
            · rw [hcriteria, hc', hr.2, hc, map_map]
              have hsame : env.py.normalizeText ∘ env.py.normalizeText =
                  env.py.normalizeText := funext normalizeText_normalizeText
              rw [hsame]

end Loregarden.OversizedSplit
