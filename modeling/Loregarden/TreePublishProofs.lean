import Loregarden.TreePublishModel

/-! # No landing's publish is lost

A call that found its root in flight is owed another round by the owner of the root. The owner's
look at `_AGAIN` and its release are two sections, and a call between them asks an owner that will
not look again. Where no call comes there (`Punctual`), a call that has returned is covered by a
publish that started after it, or owed one (`publish_follows`). -/

namespace Loregarden.TreePublish

open Runs List
open Function (update_of_ne update_self)
open Nat (lt_succ_of_lt)

variable {w : World} {root : String} {moment c : Nat} {turn turn' : Turn} {ret ret' : Bool}

/-- The owner will look at `_AGAIN` before it releases its root. -/
def Turn.looks : Turn → Bool
  | .claimed | .ready | .publishing | .looking => true
  | .startFailed | .releasing => false

def Turn.started : Turn → Bool
  | .publishing | .looking | .releasing => true
  | .claimed | .startFailed | .ready => false

/-- What keeps the defect away: a call does not reach its section under the guard while the
    owner of its root is past its last look at `_AGAIN`, and a start that fails, or a publish
    that is left by what it does not catch, has nobody waiting. -/
def Punctual (w : World) : Event → Prop
  | .enter c => ∀ root moment, w.calls c = .began root moment →
      ∀ c' moment' turn ret, w.calls c' = .owner root moment' turn ret → turn.looks = true
  | .startFails c | .escape c => ∀ root moment turn ret,
      w.calls c = .owner root moment turn ret → w.again root = false
  | .call _ _ | .startThread _ | .runInline _ | .giveUp _ | .publish _ | .published _ | .look _
  | .release _ => True

def Covered (w : World) (root : String) (moment : Nat) : Prop :=
  ∃ t, w.lastStart root = some t ∧ moment < t

/-- Somebody is asked for another round of the root, or about to start one. -/
def Owed (w : World) (root : String) : Prop :=
  w.again root = true ∨ ∃ c moment ret, w.calls c = .owner root moment .ready ret

structure Good (w : World) : Prop where
  one : ∀ {c c' root moment moment' turn turn' ret ret'}, w.calls c = .owner root moment turn ret →
    w.calls c' = .owner root moment' turn' ret' → c = c'
  held : ∀ {c root moment turn ret}, w.calls c = .owner root moment turn ret →
    w.inFlight root = true
  owned : ∀ {root}, w.inFlight root = true →
    ∃ c moment turn ret, w.calls c = .owner root moment turn ret
  asked : ∀ {root}, w.again root = true →
    ∃ c moment turn ret, w.calls c = .owner root moment turn ret ∧ turn.looks = true
  begun : ∀ {c root moment}, w.calls c = .began root moment → moment < w.clock
  owner : ∀ {c root moment turn ret}, w.calls c = .owner root moment turn ret → moment < w.clock
  started : ∀ {c root moment turn ret}, w.calls c = .owner root moment turn ret →
    turn.started = true → Covered w root moment
  covered : ∀ {c root moment}, (w.calls c).returnedFor = some (root, moment) →
    moment < w.clock ∧ (Covered w root moment ∨ Owed w root)

theorem setCall_self (phase : Phase) : (w.setCall c phase).calls c = phase := update_self _ _ _

theorem setCall_ne {other : Nat} (phase : Phase) (h : other ≠ c) :
    (w.setCall c phase).calls other = w.calls other :=
  update_of_ne h _ _

theorem calls_setCall {w' : World} {phase : Phase} (h : w'.calls = (w.setCall c phase).calls) :
    w'.calls c = phase ∧ ∀ other, other ≠ c → w'.calls other = w.calls other :=
  ⟨h ▸ setCall_self phase, fun _ hother => h ▸ setCall_ne phase hother⟩

section

variable (h : Good w)
include h

theorem Good.tick : Good { w with clock := w.clock + 1 } where
  one := h.one
  held := h.held
  owned := h.owned
  asked := h.asked
  begun := fun hcall => lt_succ_of_lt (h.begun hcall)
  owner := fun hcall => lt_succ_of_lt (h.owner hcall)
  started := h.started
  covered := fun hcall => ⟨lt_succ_of_lt (h.covered hcall).1, (h.covered hcall).2⟩

section

variable (hcall : w.calls c = .owner root moment turn ret)
include hcall

/-- **The owner moves on.** Nobody is left waiting when its new turn looks at `_AGAIN` while
    somebody asks, and when whoever it owed is owed still or covered by the publish that starts. -/
theorem Good.move {w' : World}
    (hcalls : w'.calls = (w.setCall c (.owner root moment turn' ret')).calls)
    (hflight : w'.inFlight = w.inFlight) (hclock : w'.clock = w.clock + 1)
    (hothers : ∀ other, other ≠ root →
      w'.again other = w.again other ∧ w'.lastStart other = w.lastStart other)
    (hlooks : w'.again root = true → turn'.looks = true)
    (hstart : w'.lastStart root = w.lastStart root ∨ w'.lastStart root = some w.clock)
    (howed : w.again root = true ∨ turn = .ready → w'.again root = true ∨ turn' = .ready ∨
      w'.lastStart root = some w.clock)
    (hstarted : turn'.started = true → turn.started = true ∨ w'.lastStart root = some w.clock)
    (hreturned : ret' = true → ret = true ∨ turn' = .ready) : Good w' := by
  obtain ⟨hself, hne⟩ := calls_setCall hcalls
  -- every owner was one, and is one
  have hback : ∀ {c' root' moment' turn₁ ret₁}, w'.calls c' = .owner root' moment' turn₁ ret₁ →
      ∃ turn₀ ret₀, w.calls c' = .owner root' moment' turn₀ ret₀ := by
    intro c' root' moment' turn₁ ret₁ hc'
    by_cases hself' : c' = c
    · subst hself'
      rw [hself] at hc'
      injection hc' with hroot hmoment
      subst hroot hmoment
      exact ⟨turn, ret, hcall⟩
    · rw [hne c' hself'] at hc'
      exact ⟨_, _, hc'⟩
  have hforth : ∀ {c' root' moment' turn₀ ret₀}, w.calls c' = .owner root' moment' turn₀ ret₀ →
      ∃ turn₁ ret₁, w'.calls c' = .owner root' moment' turn₁ ret₁ ∧ (c' ≠ c → turn₁ = turn₀) := by
    intro c' root' moment' turn₀ ret₀ hc'
    by_cases hself' : c' = c
    · subst hself'
      rw [hcall] at hc'
      injection hc' with hroot hmoment
      subst hroot hmoment
      exact ⟨turn', ret', hself, fun hnot => absurd rfl hnot⟩
    · exact ⟨turn₀, ret₀, (hne c' hself').trans hc', fun _ => rfl⟩
  -- what is covered stays so
  have hcover : ∀ {root' : String} {moment' : Nat}, moment' < w.clock →
      Covered w root' moment' → Covered w' root' moment' := by
    rintro root' moment' hpast ⟨t, ht, hlt⟩
    by_cases hroot : root' = root
    · subst hroot
      rcases hstart with hsame | hnew
      · exact ⟨t, hsame.trans ht, hlt⟩
      · exact ⟨w.clock, hnew, hpast⟩
    · exact ⟨t, (hothers root' hroot).2.trans ht, hlt⟩
  refine ⟨?_, ?_, ?_, ?_, ?_, ?_, ?_, ?_⟩
  · intro c₁ c₂ root' moment₁ moment₂ turn₁ turn₂ ret₁ ret₂ h₁ h₂
    obtain ⟨_, _, h₁⟩ := hback h₁
    obtain ⟨_, _, h₂⟩ := hback h₂
    exact h.one h₁ h₂
  · intro c' root' moment' turn₁ ret₁ hc'
    obtain ⟨_, _, hc'⟩ := hback hc'
    rw [hflight]
    exact h.held hc'
  · intro root' hheld
    rw [hflight] at hheld
    obtain ⟨c', moment', turn₀, ret₀, hc'⟩ := h.owned hheld
    obtain ⟨turn₁, ret₁, hc', -⟩ := hforth hc'
    exact ⟨c', moment', turn₁, ret₁, hc'⟩
  · intro root' hagain
    by_cases hroot : root' = root
    · subst hroot
      exact ⟨c, moment, turn', ret', hself, hlooks hagain⟩
    · rw [(hothers root' hroot).1] at hagain
      obtain ⟨c', moment', turn₀, ret₀, hc', hturn⟩ := h.asked hagain
      have hc : c' ≠ c := by
        rintro rfl
        rw [hcall] at hc'
        injection hc' with hroot'
        exact hroot hroot'.symm
      exact ⟨c', moment', turn₀, ret₀, (hne c' hc).trans hc', hturn⟩
  · intro c' root' moment' hc'
    have hc : c' ≠ c := by
      rintro rfl
      rw [hself] at hc'
      exact nomatch hc'
    rw [hne c' hc] at hc'
    rw [hclock]
    exact lt_succ_of_lt (h.begun hc')
  · intro c' root' moment' turn₁ ret₁ hc'
    obtain ⟨_, _, hc'⟩ := hback hc'
    rw [hclock]
    exact lt_succ_of_lt (h.owner hc')
  · intro c' root' moment' turn₁ ret₁ hc' hturn
    by_cases hself' : c' = c
    · subst hself'
      rw [hself] at hc'
      injection hc' with hroot hmoment hturn'
      subst hroot hmoment hturn'
      have hpast := h.owner hcall
      rcases hstarted hturn with hbefore | hnew
      · exact hcover hpast (h.started hcall hbefore)
      · exact ⟨w.clock, hnew, hpast⟩
    · rw [hne c' hself'] at hc'
      exact hcover (h.owner hc') (h.started hc' hturn)
  · -- whoever has returned is covered, or owed by the root's owner
    have hkeep : ∀ {root' : String} {moment' : Nat}, moment' < w.clock →
        (Covered w root' moment' ∨ Owed w root') → Covered w' root' moment' ∨ Owed w' root' := by
      intro root' moment' hpast hcovered
      rcases hcovered with hcovered | howed'
      · exact .inl (hcover hpast hcovered)
      · by_cases hroot : root' = root
        · subst hroot
          have hbefore : w.again root' = true ∨ turn = .ready := by
            rcases howed' with hagain | ⟨c', moment₁, ret₁, hc'⟩
            · exact .inl hagain
            · obtain rfl := h.one hcall hc'
              rw [hcall] at hc'
              injection hc' with _ _ hturn
              exact .inr hturn
          rcases howed hbefore with hagain | hready | hnew
          · exact .inr (.inl hagain)
          · exact .inr (.inr ⟨c, moment, ret', hready ▸ hself⟩)
          · exact .inl ⟨w.clock, hnew, hpast⟩
        · rcases howed' with hasked | ⟨c', moment₁, ret₁, hc'⟩
          · exact .inr (.inl ((hothers root' hroot).1.trans hasked))
          · have hc : c' ≠ c := by
              rintro rfl
              rw [hcall] at hc'
              injection hc' with hroot'
              exact hroot hroot'.symm
            exact .inr (.inr ⟨c', moment₁, ret₁, (hne c' hc).trans hc'⟩)
    intro c' root' moment' hc'
    by_cases hself' : c' = c
    · subst hself'
      rw [hself] at hc'
      cases ret' with
      | false => exact nomatch hc'
      | true =>
        injection hc' with hpair
        injection hpair with hroot hmoment
        subst hroot hmoment
        have hpast := h.owner hcall
        refine ⟨hclock ▸ lt_succ_of_lt hpast, ?_⟩
        rcases hreturned rfl with hret | hready
        · subst hret
          exact hkeep hpast (h.covered (c := c') (by rw [hcall]; rfl)).2
        · exact .inr (.inr ⟨c', moment, true, hready ▸ hself⟩)
    · rw [hne c' hself'] at hc'
      obtain ⟨hpast, hcovered⟩ := h.covered hc'
      exact ⟨hclock ▸ lt_succ_of_lt hpast, hkeep hpast hcovered⟩

theorem Good.not_owed (hturn : turn.looks = false) : w.again root = false ∧ ¬ Owed w root := by
  have hagain : w.again root = false := by
    cases hasked : w.again root with
    | false => rfl
    | true =>
      obtain ⟨c', moment', turn', ret', hc', hlooks⟩ := h.asked hasked
      obtain rfl := h.one hcall hc'
      rw [hcall] at hc'
      injection hc' with _ _ hsame
      rw [hsame, hlooks] at hturn
      exact nomatch hturn
  refine ⟨hagain, ?_⟩
  rintro (hasked | ⟨c', moment', ret', hc'⟩)
  · rw [hagain] at hasked
    exact nomatch hasked
  · obtain rfl := h.one hcall hc'
    rw [hcall] at hc'
    injection hc' with _ _ hsame
    rw [hsame] at hturn
    exact nomatch hturn

/-- **The owner leaves its root**: past its last look, or past a start that failed. -/
theorem Good.leave {w' : World} {phase : Phase} (hturn : turn.looks = false)
    (hphase : phase = .raised ∨ phase = .finished root moment ∧ turn.started = true)
    (hcalls : w'.calls = (w.setCall c phase).calls)
    (hflight : w'.inFlight = Function.update w.inFlight root false)
    (hagain : ∀ other, w'.again other = w.again other) (hlast : w'.lastStart = w.lastStart)
    (hclock : w'.clock = w.clock + 1) : Good w' := by
  obtain ⟨hself, hne⟩ := calls_setCall hcalls
  -- an owner is one of another root
  have howner : ∀ {c' root' moment' turn₁ ret₁}, w'.calls c' = .owner root' moment' turn₁ ret₁ →
      w.calls c' = .owner root' moment' turn₁ ret₁ ∧ root' ≠ root := by
    intro c' root' moment' turn₁ ret₁ hc'
    by_cases hc : c' = c
    · rw [hc, hself] at hc'
      rcases hphase with hraised | ⟨hfinished, -⟩
      · rw [hraised] at hc'
        exact nomatch hc'
      · rw [hfinished] at hc'
        exact nomatch hc'
    · rw [hne c' hc] at hc'
      refine ⟨hc', ?_⟩
      rintro rfl
      exact hc (h.one hc' hcall)
  have hcover : ∀ {root' : String} {moment' : Nat}, Covered w root' moment' →
      Covered w' root' moment' := by
    rintro root' moment' ⟨t, ht, hlt⟩
    exact ⟨t, by rw [hlast]; exact ht, hlt⟩
  refine ⟨?_, ?_, ?_, ?_, ?_, ?_, ?_, ?_⟩
  · intro c₁ c₂ root' moment₁ moment₂ turn₁ turn₂ ret₁ ret₂ h₁ h₂
    exact h.one (howner h₁).1 (howner h₂).1
  · intro c' root' moment' turn₁ ret₁ hc'
    obtain ⟨hc', hroot⟩ := howner hc'
    rw [hflight, update_of_ne hroot]
    exact h.held hc'
  · intro root' hheld
    by_cases hroot : root' = root
    · rw [hflight, hroot, update_self] at hheld
      exact nomatch hheld
    · rw [hflight, update_of_ne hroot] at hheld
      obtain ⟨c', moment', turn₁, ret₁, hc'⟩ := h.owned hheld
      have hc : c' ≠ c := by
        rintro rfl
        rw [hcall] at hc'
        injection hc' with hroot'
        exact hroot hroot'.symm
      exact ⟨c', moment', turn₁, ret₁, (hne c' hc).trans hc'⟩
  · intro root' hasked
    rw [hagain] at hasked
    obtain ⟨c', moment', turn₁, ret₁, hc', hlooks⟩ := h.asked hasked
    have hc : c' ≠ c := by
      rintro rfl
      rw [hcall] at hc'
      injection hc' with _ _ hsame
      rw [hsame, hlooks] at hturn
      exact nomatch hturn
    exact ⟨c', moment', turn₁, ret₁, (hne c' hc).trans hc', hlooks⟩
  · intro c' root' moment' hc'
    have hc : c' ≠ c := by
      rintro rfl
      rw [hself] at hc'
      rcases hphase with hraised | ⟨hfinished, -⟩
      · rw [hraised] at hc'
        exact nomatch hc'
      · rw [hfinished] at hc'
        exact nomatch hc'
    rw [hne c' hc] at hc'
    rw [hclock]
    exact lt_succ_of_lt (h.begun hc')
  · intro c' root' moment' turn₁ ret₁ hc'
    rw [hclock]
    exact lt_succ_of_lt (h.owner (howner hc').1)
  · intro c' root' moment' turn₁ ret₁ hc' hstarted
    exact hcover (h.started (howner hc').1 hstarted)
  · intro c' root' moment' hc'
    rw [hclock]
    by_cases hc : c' = c
    · rw [hc, hself] at hc'
      rcases hphase with hraised | ⟨hfinished, hstarted⟩
      · rw [hraised] at hc'
        exact nomatch hc'
      · rw [hfinished] at hc'
        injection hc' with hpair
        injection hpair with hroot hmoment
        subst hroot hmoment
        exact ⟨lt_succ_of_lt (h.owner hcall), .inl (hcover (h.started hcall hstarted))⟩
    · rw [hne c' hc] at hc'
      obtain ⟨hpast, hcovered⟩ := h.covered hc'
      refine ⟨lt_succ_of_lt hpast, ?_⟩
      rcases hcovered with hcovered | hasked | ⟨c₁, moment₁, ret₁, hc₁⟩
      · exact .inl (hcover hcovered)
      · exact .inr (.inl ((hagain root').trans hasked))
      · have hne₁ : c₁ ≠ c := by
          rintro rfl
          rw [hcall] at hc₁
          injection hc₁ with _ _ hsame
          rw [hsame] at hturn
          exact nomatch hturn
        exact .inr (.inr ⟨c₁, moment₁, ret₁, (hne c₁ hne₁).trans hc₁⟩)

end

theorem Good.outside {w' : World} {phase : Phase}
    (hcall : ∀ root moment turn ret, w.calls c ≠ .owner root moment turn ret)
    (hphase : ∀ root moment turn ret, phase ≠ .owner root moment turn ret)
    (hcalls : w'.calls = (w.setCall c phase).calls) (hflight : w'.inFlight = w.inFlight)
    (hlast : w'.lastStart = w.lastStart) (hclock : w'.clock = w.clock + 1)
    (hkept : ∀ other, w.again other = true → w'.again other = true)
    (hasked : ∀ other, w'.again other = true → w.again other = true ∨
      ∃ c' moment turn ret, w.calls c' = .owner other moment turn ret ∧ turn.looks = true)
    (hbegun : ∀ root moment, phase = .began root moment → moment < w.clock + 1)
    (hreturned : ∀ root moment, phase.returnedFor = some (root, moment) →
      moment < w.clock ∧ w'.again root = true) : Good w' := by
  obtain ⟨hself, hne⟩ := calls_setCall hcalls
  have howner : ∀ {c' root moment turn ret},
      w'.calls c' = .owner root moment turn ret ↔ w.calls c' = .owner root moment turn ret := by
    intro c' root moment turn ret
    by_cases hc : c' = c
    · rw [hc, hself]
      exact ⟨fun h' => absurd h' (hphase _ _ _ _), fun h' => absurd h' (hcall _ _ _ _)⟩
    · rw [hne c' hc]
  refine ⟨?_, ?_, ?_, ?_, ?_, ?_, ?_, ?_⟩
  · intro c₁ c₂ root moment₁ moment₂ turn₁ turn₂ ret₁ ret₂ h₁ h₂
    exact h.one (howner.mp h₁) (howner.mp h₂)
  · intro c' root moment turn ret hc'
    rw [hflight]
    exact h.held (howner.mp hc')
  · intro root hheld
    rw [hflight] at hheld
    obtain ⟨c', moment, turn, ret, hc'⟩ := h.owned hheld
    exact ⟨c', moment, turn, ret, howner.mpr hc'⟩
  · intro root hagain
    rcases hasked root hagain with hbefore | ⟨c', moment, turn, ret, hc', hlooks⟩
    · obtain ⟨c', moment, turn, ret, hc', hlooks⟩ := h.asked hbefore
      exact ⟨c', moment, turn, ret, howner.mpr hc', hlooks⟩
    · exact ⟨c', moment, turn, ret, howner.mpr hc', hlooks⟩
  · intro c' root moment hc'
    rw [hclock]
    by_cases hc : c' = c
    · rw [hc, hself] at hc'
      exact hbegun root moment hc'
    · rw [hne c' hc] at hc'
      exact lt_succ_of_lt (h.begun hc')
  · intro c' root moment turn ret hc'
    rw [hclock]
    exact lt_succ_of_lt (h.owner (howner.mp hc'))
  · intro c' root moment turn ret hc' hstarted
    obtain ⟨t, ht, hlt⟩ := h.started (howner.mp hc') hstarted
    exact ⟨t, hlast ▸ ht, hlt⟩
  · intro c' root moment hc'
    rw [hclock]
    by_cases hc : c' = c
    · rw [hc, hself] at hc'
      obtain ⟨hpast, hagain⟩ := hreturned root moment hc'
      exact ⟨lt_succ_of_lt hpast, .inr (.inl hagain)⟩
    · rw [hne c' hc] at hc'
      obtain ⟨hpast, hcovered⟩ := h.covered hc'
      refine ⟨lt_succ_of_lt hpast, ?_⟩
      rcases hcovered with ⟨t, ht, hlt⟩ | hagain | ⟨c₁, moment₁, ret₁, hc₁⟩
      · exact .inl ⟨t, hlast ▸ ht, hlt⟩
      · exact .inr (.inl (hkept root hagain))
      · exact .inr (.inr ⟨c₁, moment₁, ret₁, howner.mpr hc₁⟩)

theorem Good.claim {w' : World} (hcall : w.calls c = .began root moment)
    (hfree : w.inFlight root = false)
    (hcalls : w'.calls = (w.setCall c (.owner root moment .claimed false)).calls)
    (hflight : w'.inFlight = Function.update w.inFlight root true) (hagain : w'.again = w.again)
    (hlast : w'.lastStart = w.lastStart) (hclock : w'.clock = w.clock + 1) : Good w' := by
  obtain ⟨hself, hne⟩ := calls_setCall hcalls
  have hold : ∀ {c' root' moment' turn ret}, w.calls c' = .owner root' moment' turn ret →
      w'.calls c' = .owner root' moment' turn ret := by
    intro c' root' moment' turn ret hc'
    have hc : c' ≠ c := by
      rintro rfl
      rw [hcall] at hc'
      exact nomatch hc'
    exact (hne c' hc).trans hc'
  have hnew : ∀ {c' root' moment' turn ret}, w'.calls c' = .owner root' moment' turn ret →
      w.calls c' = .owner root' moment' turn ret ∧ root' ≠ root ∨
        c' = c ∧ root' = root ∧ moment' = moment ∧ turn = .claimed := by
    intro c' root' moment' turn ret hc'
    by_cases hc : c' = c
    · subst hc
      rw [hself] at hc'
      injection hc' with hroot hmoment hturn
      exact .inr ⟨rfl, hroot.symm, hmoment.symm, hturn.symm⟩
    · rw [hne c' hc] at hc'
      refine .inl ⟨hc', ?_⟩
      rintro rfl
      rw [h.held hc'] at hfree
      exact nomatch hfree
  refine ⟨?_, ?_, ?_, ?_, ?_, ?_, ?_, ?_⟩
  · intro c₁ c₂ root' moment₁ moment₂ turn₁ turn₂ ret₁ ret₂ h₁ h₂
    rcases hnew h₁ with ⟨h₁, hr₁⟩ | ⟨rfl, hr₁, -⟩
    · rcases hnew h₂ with ⟨h₂, -⟩ | ⟨-, hr₂, -⟩
      · exact h.one h₁ h₂
      · exact absurd hr₂ hr₁
    · rcases hnew h₂ with ⟨-, hr₂⟩ | ⟨rfl, -⟩
      · exact absurd hr₁ hr₂
      · rfl
  · intro c' root' moment' turn ret hc'
    rw [hflight]
    rcases hnew hc' with ⟨hc', hroot⟩ | ⟨-, hroot, -⟩
    · rw [update_of_ne hroot]
      exact h.held hc'
    · rw [hroot, update_self]
  · intro root' hheld
    by_cases hroot : root' = root
    · exact ⟨c, moment, .claimed, false, hroot ▸ hself⟩
    · rw [hflight, update_of_ne hroot] at hheld
      obtain ⟨c', moment', turn, ret, hc'⟩ := h.owned hheld
      exact ⟨c', moment', turn, ret, hold hc'⟩
  · intro root' hasked
    rw [hagain] at hasked
    obtain ⟨c', moment', turn, ret, hc', hlooks⟩ := h.asked hasked
    exact ⟨c', moment', turn, ret, hold hc', hlooks⟩
  · intro c' root' moment' hc'
    have hc : c' ≠ c := by
      rintro rfl
      rw [hself] at hc'
      exact nomatch hc'
    rw [hne c' hc] at hc'
    rw [hclock]
    exact lt_succ_of_lt (h.begun hc')
  · intro c' root' moment' turn ret hc'
    rw [hclock]
    rcases hnew hc' with ⟨hc', -⟩ | ⟨-, -, hmoment, -⟩
    · exact lt_succ_of_lt (h.owner hc')
    · rw [hmoment]
      exact lt_succ_of_lt (h.begun hcall)
  · intro c' root' moment' turn ret hc' hstarted
    rcases hnew hc' with ⟨hc', -⟩ | ⟨-, -, -, hturn⟩
    · obtain ⟨t, ht, hlt⟩ := h.started hc' hstarted
      exact ⟨t, hlast ▸ ht, hlt⟩
    · rw [hturn] at hstarted
      exact nomatch hstarted
  · intro c' root' moment' hc'
    have hc : c' ≠ c := by
      rintro rfl
      rw [hself] at hc'
      exact nomatch hc'
    rw [hne c' hc] at hc'
    obtain ⟨hpast, hcovered⟩ := h.covered hc'
    refine ⟨hclock ▸ lt_succ_of_lt hpast, ?_⟩
    rcases hcovered with ⟨t, ht, hlt⟩ | hasked | ⟨c₁, moment₁, ret₁, hc₁⟩
    · exact .inl ⟨t, hlast ▸ ht, hlt⟩
    · exact .inr (.inl (hagain ▸ hasked))
    · exact .inr (.inr ⟨c₁, moment₁, ret₁, hold hc₁⟩)

/-! ## Every step -/

theorem Good.enter (c : Nat) (hpunctual : Punctual w (.enter c)) : Good (step w (.enter c)) := by
  show Good { TreePublish.enter w c with clock := w.clock + 1 }
  unfold TreePublish.enter
  split
  · rename_i root moment hcall
    split
    · rename_i hheld
      obtain ⟨c', moment', turn, ret, hc'⟩ := h.owned hheld
      have hlooks := hpunctual root moment hcall c' moment' turn ret hc'
      have hnot : ∀ root moment turn ret, w.calls c ≠ .owner root moment turn ret := by
        intro root moment turn ret howner
        rw [hcall] at howner
        exact nomatch howner
      have howner : ∀ root' moment' turn ret,
          Phase.asked root moment ≠ .owner root' moment' turn ret := by
        exact nofun
      refine h.outside hnot howner rfl rfl rfl rfl ?_ ?_ nofun ?_
      · intro other hother
        show Function.update w.again root true other = true
        by_cases hroot : other = root
        · rw [hroot, update_self]
        · rw [update_of_ne hroot, hother]
      · intro other hother
        by_cases hroot : other = root
        · subst hroot
          exact .inr ⟨c', moment', turn, ret, hc', hlooks⟩
        · left
          have hother : Function.update w.again root true other = true := hother
          rwa [update_of_ne hroot] at hother
      · intro root' moment₁ hreturned
        injection hreturned with hpair
        injection hpair with hroot hmoment
        subst hroot hmoment
        exact ⟨h.begun hcall, update_self _ _ _⟩
    · rename_i hfree
      exact h.claim hcall (Bool.eq_false_iff.mpr hfree) rfl rfl rfl rfl rfl
  · exact h.tick

theorem Good.call (c : Nat) (root : String) : Good (step w (.call c root)) := by
  show Good { (if w.calls c = .idle then w.setCall c (.began root w.clock) else w) with
    clock := w.clock + 1 }
  split
  · rename_i hidle
    have hnot : ∀ root moment turn ret, w.calls c ≠ .owner root moment turn ret := by
      intro root moment turn ret howner
      rw [hidle] at howner
      exact nomatch howner
    have howner : ∀ root' moment' turn ret,
        Phase.began root w.clock ≠ .owner root' moment' turn ret := by
      exact nofun
    refine h.outside hnot howner rfl rfl rfl rfl (fun _ hother => hother)
      (fun _ hother => .inl hother) ?_ nofun
    intro root' moment hbegan
    injection hbegan with _ hmoment
    subst hmoment
    exact Nat.lt_succ_self _
  · exact h.tick

theorem Good.start (c : Nat) (ret : Bool) :
    Good { TreePublish.start w c ret with clock := w.clock + 1 } := by
  unfold TreePublish.start
  split
  · rename_i root moment ret₀ hcall
    refine h.move hcall rfl rfl rfl (fun _ _ => ⟨rfl, rfl⟩) (fun _ => rfl) (.inl rfl) ?_ nofun
      (fun _ => .inr rfl)
    rintro (hasked | hready)
    · exact .inl hasked
    · exact .inr (.inl rfl)
  · exact h.tick

theorem Good.startFails (c : Nat) (hpunctual : Punctual w (.startFails c)) :
    Good (step w (.startFails c)) := by
  show Good { TreePublish.startFails w c with clock := w.clock + 1 }
  unfold TreePublish.startFails
  split
  · rename_i root moment ret hcall
    have hnone := hpunctual root moment .claimed ret hcall
    refine h.move hcall rfl rfl rfl (fun _ _ => ⟨rfl, rfl⟩) ?_ (.inl rfl) ?_ nofun .inl
    · intro hasked
      exact absurd (hnone.symm.trans hasked) nofun
    · rintro (hasked | hready)
      · exact .inl hasked
      · exact nomatch hready
  · exact h.tick

theorem Good.giveUp (c : Nat) : Good (step w (.giveUp c)) := by
  show Good { TreePublish.giveUp w c with clock := w.clock + 1 }
  unfold TreePublish.giveUp
  split
  · rename_i root moment ret hcall
    exact h.leave hcall rfl (.inl rfl) rfl rfl (fun _ => rfl) rfl rfl
  · exact h.tick

theorem Good.publish (c : Nat) : Good (step w (.publish c)) := by
  show Good { TreePublish.publish w c with clock := w.clock + 1 }
  unfold TreePublish.publish
  split
  · rename_i root moment ret hcall
    refine h.move hcall rfl rfl rfl ?_ (fun _ => rfl) (.inr (update_self _ _ _)) ?_ ?_ .inl
    · intro other hother
      exact ⟨rfl, update_of_ne hother _ _⟩
    · intro _
      exact .inr (.inr (update_self _ _ _))
    · intro _
      exact .inr (update_self _ _ _)
  · exact h.tick

theorem Good.published (c : Nat) (turn : Turn)
    (hlooks : ∀ root moment ret, w.calls c = .owner root moment .publishing ret →
      w.again root = true → turn.looks = true) :
    Good { TreePublish.published w c turn with clock := w.clock + 1 } := by
  unfold TreePublish.published
  split
  · rename_i root moment ret hcall
    refine h.move hcall rfl rfl rfl (fun _ _ => ⟨rfl, rfl⟩) (hlooks root moment ret hcall)
      (.inl rfl) ?_ (fun _ => .inl rfl) .inl
    rintro (hasked | hready)
    · exact .inl hasked
    · exact nomatch hready
  · exact h.tick

theorem Good.look (c : Nat) : Good (step w (.look c)) := by
  show Good { TreePublish.look w c with clock := w.clock + 1 }
  unfold TreePublish.look
  split
  · rename_i root moment ret hcall
    split
    · refine h.move hcall rfl rfl rfl ?_ (fun _ => rfl) (.inl rfl) (fun _ => .inr (.inl rfl)) nofun
        .inl
      intro other hother
      exact ⟨update_of_ne hother _ _, rfl⟩
    · rename_i hnone
      refine h.move hcall rfl rfl rfl (fun _ _ => ⟨rfl, rfl⟩) (fun hasked => absurd hasked hnone)
        (.inl rfl) ?_ (fun _ => .inl rfl) .inl
      rintro (hasked | hready)
      · exact absurd hasked hnone
      · exact nomatch hready
  · exact h.tick

theorem Good.release (c : Nat) : Good (step w (.release c)) := by
  show Good { TreePublish.release w c with clock := w.clock + 1 }
  unfold TreePublish.release
  split
  · rename_i root moment ret hcall
    refine h.leave hcall rfl (.inr ⟨rfl, rfl⟩) rfl rfl ?_ rfl rfl
    intro other
    show Function.update w.again root false other = w.again other
    by_cases hroot : other = root
    · rw [hroot, update_self, (h.not_owed hcall rfl).1]
    · rw [update_of_ne hroot]
  · exact h.tick

/-- **Every punctual step keeps what is owed.** -/
theorem Good.step {e : Event} (hpunctual : Punctual w e) : Good (TreePublish.step w e) := by
  cases e with
  | call c root => exact h.call c root
  | enter c => exact h.enter c hpunctual
  | startThread c => exact h.start c true
  | runInline c => exact h.start c false
  | startFails c => exact h.startFails c hpunctual
  | giveUp c => exact h.giveUp c
  | publish c => exact h.publish c
  | published c => exact h.published c .looking (fun _ _ _ _ _ => rfl)
  | escape c =>
    refine h.published c .releasing ?_
    intro root moment ret hcall hasked
    exact absurd ((hpunctual root moment .publishing ret hcall).symm.trans hasked) nofun
  | look c => exact h.look c
  | release c => exact h.release c

end

theorem good_init : Good {} where
  one := nofun
  held := nofun
  owned := nofun
  asked := nofun
  begun := nofun
  owner := nofun
  started := nofun
  covered := nofun

theorem good_run {tr : List Event} (hrun : Run (Guarded Step Punctual) {} tr w) : Good w := by
  refine hrun.invariant ?_ good_init
  rintro w e w' h ⟨hpunctual, rfl⟩
  exact h.step hpunctual

/-! ## What is owed is published -/

def Event.actor : Event → Nat
  | .call c _ | .enter c | .startThread c | .runInline c | .startFails c | .giveUp c | .publish c
  | .published c | .escape c | .look c | .release c => c

/-- Steps of one thread's own lead to a publish of the root that starts after the moment. -/
def Leads (w : World) (c : Nat) (root : String) (moment : Nat) : Prop :=
  ∃ tr w', (∀ e ∈ tr, Event.actor e = c) ∧ Run (Guarded Step Punctual) w tr w' ∧
    Covered w' root moment

theorem Leads.cons {moment' : Nat} {e : Event} (he : e.actor = c) (hpunctual : Punctual w e)
    (h : Leads (step w e) c root moment') : Leads w c root moment' := by
  obtain ⟨tr, w', hown, hrun, hcovered⟩ := h
  refine ⟨e :: tr, w', ?_, .cons ⟨hpunctual, rfl⟩ hrun, hcovered⟩
  intro e' hmem
  rcases mem_cons.mp hmem with rfl | hmem
  · exact he
  · exact hown e' hmem

section

variable {moment' : Nat} (hpast : moment' < w.clock)
include hpast

theorem leads_of_ready (hcall : w.calls c = .owner root moment .ready ret) :
    Leads w c root moment' := by
  have hact : publish w c = { w.setCall c (.owner root moment .publishing ret) with
      lastStart := Function.update w.lastStart root (some w.clock) } := by
    rw [publish, hcall]
  refine .cons (e := .publish c) rfl trivial ⟨[], _, nofun, .nil _, w.clock, ?_, hpast⟩
  show (publish w c).lastStart root = some w.clock
  rw [hact]
  exact update_self _ _ _

theorem leads_of_claimed (hcall : w.calls c = .owner root moment .claimed ret) :
    Leads w c root moment' := by
  have hact : start w c true = w.setCall c (.owner root moment .ready true) := by
    rw [start, hcall]
  have hready : (step w (.startThread c)).calls c = .owner root moment .ready true := by
    show (start w c true).calls c = _
    rw [hact, setCall_self]
  refine .cons (e := .startThread c) rfl trivial (leads_of_ready ?_ hready)
  show moment' < (step w _).clock
  exact lt_succ_of_lt hpast

theorem leads_of_looking (hcall : w.calls c = .owner root moment .looking ret)
    (hagain : w.again root = true) : Leads w c root moment' := by
  have hact : look w c = { w.setCall c (.owner root moment .ready ret) with
      again := Function.update w.again root false } := by
    rw [look, hcall]
    exact if_pos hagain
  have hready : (step w (.look c)).calls c = .owner root moment .ready ret := by
    show (look w c).calls c = _
    rw [hact]
    exact setCall_self _
  refine .cons (e := .look c) rfl trivial (leads_of_ready ?_ hready)
  show moment' < (step w _).clock
  exact lt_succ_of_lt hpast

theorem leads_of_publishing (hcall : w.calls c = .owner root moment .publishing ret)
    (hagain : w.again root = true) : Leads w c root moment' := by
  have hact : published w c .looking = w.setCall c (.owner root moment .looking ret) := by
    rw [published, hcall]
  have hlooking : (step w (.published c)).calls c = .owner root moment .looking ret := by
    show (published w c .looking).calls c = _
    rw [hact, setCall_self]
  have hasked : (step w (.published c)).again root = true := by
    show (published w c .looking).again root = true
    rw [hact]
    exact hagain
  refine .cons (e := .published c) rfl trivial (leads_of_looking ?_ hlooking hasked)
  show moment' < (step w _).clock
  exact lt_succ_of_lt hpast

end

theorem Good.discharge (h : Good w) {moment' : Nat} (hpast : moment' < w.clock)
    (howed : Owed w root) :
    ∃ c moment turn ret, w.calls c = .owner root moment turn ret ∧ Leads w c root moment' := by
  rcases howed with hagain | ⟨c, moment, ret, hcall⟩
  · obtain ⟨c, moment, turn, ret, hcall, hlooks⟩ := h.asked hagain
    refine ⟨c, moment, turn, ret, hcall, ?_⟩
    cases turn with
    | claimed => exact leads_of_claimed hpast hcall
    | startFailed | releasing => exact nomatch hlooks
    | ready => exact leads_of_ready hpast hcall
    | publishing => exact leads_of_publishing hpast hcall hagain
    | looking => exact leads_of_looking hpast hcall hagain
  · exact ⟨c, moment, .ready, ret, hcall, leads_of_ready hpast hcall⟩

/-- **No landing's publish is lost in a punctual run.** One publish of a root runs at a time. A call
    that has returned had a publish start after it began, or the owner of its root has yet to start
    one, and does by steps of its own; and when the root is free, it had. -/
theorem publish_follows (tr : List Event) (w : World)
    (hrun : Run (Guarded Step Punctual) {} tr w) (root : String) :
    (∀ c c' moment moment' ret ret', w.calls c = .owner root moment .publishing ret →
      w.calls c' = .owner root moment' .publishing ret' → c = c') ∧
    (∀ c moment, (w.calls c).returnedFor = some (root, moment) →
      Covered w root moment ∨ ∃ c' moment' turn ret,
        w.calls c' = .owner root moment' turn ret ∧ Leads w c' root moment) ∧
    (w.inFlight root = false → ∀ c moment,
      (w.calls c).returnedFor = some (root, moment) → Covered w root moment) := by
  have h := good_run hrun
  refine ⟨?_, ?_, ?_⟩
  · intro c c' moment moment' ret ret' hcall hcall'
    exact h.one hcall hcall'
  · intro c moment hreturned
    obtain ⟨hpast, hcovered | howed⟩ := h.covered hreturned
    · exact .inl hcovered
    · exact .inr (h.discharge hpast howed)
  · intro hfree c moment hreturned
    obtain ⟨-, hcovered | howed⟩ := h.covered hreturned
    · exact hcovered
    · have howner : ∃ c moment turn ret, w.calls c = .owner root moment turn ret := by
        rcases howed with hagain | ⟨c, moment, ret, hcall⟩
        · obtain ⟨c, moment, turn, ret, hcall, -⟩ := h.asked hagain
          exact ⟨c, moment, turn, ret, hcall⟩
        · exact ⟨c, moment, .ready, ret, hcall⟩
      obtain ⟨c, moment, turn, ret, hcall⟩ := howner
      rw [h.held hcall] at hfree
      exact nomatch hfree

theorem Good.punctual_enter (h : Good w) (hcall : w.calls c = .began root moment)
    (howner : w.inFlight root = false ∨
      ∃ c' moment' turn ret, w.calls c' = .owner root moment' turn ret ∧ turn.looks = true) :
    Punctual w (.enter c) := by
  intro root₁ moment₁ hcall₁ c₁ moment₂ turn₁ ret₁ hc₁
  rw [hcall] at hcall₁
  injection hcall₁ with hroot
  subst hroot
  rcases howner with hfree | ⟨c', moment', turn, ret, hc', hlooks⟩
  · rw [h.held hc₁] at hfree
    exact nomatch hfree
  · obtain rfl := h.one hc' hc₁
    rw [hc'] at hc₁
    injection hc₁ with _ _ hturn
    rw [← hturn, hlooks]

/-- Two landings of one tree, the second while the publish for the first runs. -/
def second : List Event :=
  [.call 0 "epic", .enter 0, .startThread 0, .publish 0, .call 1 "epic", .enter 1, .published 0,
    .look 0, .publish 0, .published 0, .look 0, .release 0]

theorem second_punctual : Run (Guarded Step Punctual) {} second (second.foldl step {}) := by
  have hfirst : Run (Guarded Step Punctual) {} [.call 0 "epic"] (step {} (.call 0 "epic")) :=
    .cons ⟨trivial, rfl⟩ (.nil _)
  have hclaim := (good_run hfirst).punctual_enter (c := 0) rfl (.inl rfl)
  have hbefore : Run (Guarded Step Punctual) {} (second.take 5) ((second.take 5).foldl step {}) :=
    .cons ⟨trivial, rfl⟩ (.cons ⟨hclaim, rfl⟩ (.cons ⟨trivial, rfl⟩ (.cons ⟨trivial, rfl⟩
      (.cons ⟨trivial, rfl⟩ (.nil _)))))
  have hask := (good_run hbefore).punctual_enter (c := 1) rfl
    (.inr ⟨0, 0, .publishing, true, rfl, rfl⟩)
  have hafter : Run (Guarded Step Punctual) ((second.take 5).foldl step {}) (second.drop 5)
      (second.foldl step {}) :=
    .cons ⟨hask, rfl⟩ (.cons ⟨trivial, rfl⟩ (.cons ⟨trivial, rfl⟩ (.cons ⟨trivial, rfl⟩
      (.cons ⟨trivial, rfl⟩ (.cons ⟨trivial, rfl⟩ (.cons ⟨trivial, rfl⟩ (.nil _)))))))
  exact Run.append_iff.mpr ⟨_, hbefore, hafter⟩

/-- The second landing is published by a second round. -/
theorem publish_follows_second : Covered (second.foldl step {}) "epic" 4 :=
  (publish_follows second _ second_punctual "epic").2.2 rfl 1 4 rfl

/-- The second landing comes after the publisher's last look, and before its release. -/
def late : List Event :=
  [.call 0 "epic", .enter 0, .startThread 0, .publish 0, .published 0, .look 0, .call 1 "epic",
    .enter 1, .release 0]

def Quiet (w : World) : Prop :=
  ∀ c, w.calls c = .idle ∨ (∃ root moment, w.calls c = .asked root moment) ∨
    ∃ root moment, w.calls c = .finished root moment

theorem Quiet.act (h : Quiet w) {e : Event} (hcall : ∀ c root, e ≠ .call c root) :
    TreePublish.act w e = w := by
  rcases h e.actor with hidle | ⟨root, moment, hasked⟩ | ⟨root, moment, hfinished⟩
  all_goals
    cases e with
    | call c root => exact absurd rfl (hcall c root)
    | enter c | startThread c | runInline c | startFails c | giveUp c | publish c | published c
    | escape c | look c | release c =>
      simp_all [Event.actor, TreePublish.act, enter, start, startFails, giveUp, publish,
        published, look, release]

theorem act_calls_ne (w : World) {e : Event} (h : c ≠ e.actor) : (act w e).calls c = w.calls c := by
  cases e with
  | call c' root =>
    show (if w.calls c' = .idle then w.setCall c' (.began root w.clock) else w).calls c = _
    split
    · exact setCall_ne _ h
    · rfl
  | enter c' =>
    show (enter w c').calls c = _
    unfold enter
    split
    · split <;> exact setCall_ne _ h
    · rfl
  | startThread c' | runInline c' =>
    simp only [act, start]
    split
    · exact setCall_ne _ h
    · rfl
  | startFails c' =>
    simp only [act, startFails]
    split
    · exact setCall_ne _ h
    · rfl
  | giveUp c' =>
    simp only [act, giveUp]
    split
    · exact setCall_ne _ h
    · rfl
  | publish c' =>
    simp only [act, publish]
    split
    · exact setCall_ne _ h
    · rfl
  | published c' | escape c' =>
    simp only [act, published]
    split
    · exact setCall_ne _ h
    · rfl
  | look c' =>
    simp only [act, look]
    split
    · split <;> exact setCall_ne _ h
    · rfl
  | release c' =>
    simp only [act, release]
    split
    · exact setCall_ne _ h
    · rfl

theorem run_calls_ne {tr : List Event} (h : ∀ e ∈ tr, c ≠ e.actor) (w : World) :
    (tr.foldl step w).calls c = w.calls c := by
  induction tr generalizing w with
  | nil => rfl
  | cons e tr ih =>
    calc ((e :: tr).foldl step w).calls c
        = (step w e).calls c := ih (fun e' hmem => h e' (mem_cons_of_mem e hmem)) _
      _ = w.calls c := act_calls_ne w (h e mem_cons_self)

theorem Quiet.run {tr : List Event} {w' : World} (hrun : Run Step w tr w') (h : Quiet w)
    (hcalls : ∀ c root, Event.call c root ∉ tr) : w'.lastStart = w.lastStart := by
  induction hrun with
  | nil => rfl
  | @cons w m w' e tr hstep _ ih =>
    have hact : TreePublish.act w e = w := by
      refine h.act ?_
      rintro c root rfl
      exact hcalls c root mem_cons_self
    have hm : m = { w with clock := w.clock + 1 } := by
      rw [← hstep, step, hact]
    subst hm
    exact ih h fun c root hmem => hcalls c root (mem_cons_of_mem _ hmem)

/-- **A landing's publish is lost.** The second landing returns, the root is free, and no step but
    another landing publishes it. -/
theorem landing_lost : ∃ w, Run Step {} late w ∧ (w.calls 1).returnedFor = some ("epic", 6) ∧
      w.inFlight "epic" = false ∧ ∀ tr w', Run Step w tr w' →
        (∀ c root, Event.call c root ∉ tr) → ¬ Covered w' "epic" 6 := by
  refine ⟨late.foldl step {}, Run.of_foldl (fun _ _ => rfl) _ _, rfl, rfl, ?_⟩
  intro tr w' hrun hcalls
  have hquiet : Quiet (late.foldl step {}) := by
    intro c
    by_cases h₁ : c = 1
    · subst h₁
      exact .inr (.inl ⟨"epic", 6, rfl⟩)
    · by_cases h₀ : c = 0
      · subst h₀
        exact .inr (.inr ⟨"epic", 0, rfl⟩)
      · left
        refine run_calls_ne ?_ {}
        simp [late, Event.actor, h₀, h₁]
  rintro ⟨t, ht, hlt⟩
  rw [hquiet.run hrun hcalls] at ht
  have hthird : t = 3 := by
    injection ht with ht
    exact ht.symm
  omega

end Loregarden.TreePublish
