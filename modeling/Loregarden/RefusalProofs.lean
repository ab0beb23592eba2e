import Mathlib.Data.List.Forall2

/-! # Checks that refuse

A check is a computation in `Except`: what a chain of checks answers, and what a list of checks
answers, read off its parts. -/

namespace Loregarden.Refusals

open List

variable {ε α β : Type}

theorem bind_ok_iff {x : Except ε α} {f : α → Except ε β} {b : β} :
    x >>= f = .ok b ↔ ∃ a, x = .ok a ∧ f a = .ok b := by
  cases x with
  | error e => exact ⟨nofun, fun ⟨_, h, _⟩ => nomatch h⟩
  | ok a =>
    constructor
    · intro h
      exact ⟨a, rfl, h⟩
    · rintro ⟨_, hx, h⟩
      cases hx
      exact h

theorem bind_error_iff {x : Except ε α} {f : α → Except ε β} {e : ε} :
    x >>= f = .error e ↔ x = .error e ∨ ∃ a, x = .ok a ∧ f a = .error e := by
  cases x with
  | error e' =>
    constructor
    · intro h
      exact .inl (congrArg Except.error (Except.error.inj h))
    · rintro (h | ⟨_, h, _⟩)
      · exact congrArg Except.error (Except.error.inj h)
      · exact nomatch h
  | ok a =>
    constructor
    · intro h
      exact .inr ⟨a, rfl, h⟩
    · rintro (h | ⟨_, hx, h⟩)
      · exact nomatch h
      · cases hx
        exact h

theorem mapM_ok_iff {f : α → Except ε β} {as : List α} {bs : List β} :
    as.mapM f = .ok bs ↔ List.Forall₂ (fun a b => f a = .ok b) as bs := by
  induction as generalizing bs with
  | nil =>
    constructor
    · intro h
      cases Except.ok.inj h
      exact .nil
    · intro h
      cases h
      rfl
  | cons a as ih =>
    rw [mapM_cons, bind_ok_iff]
    constructor
    · rintro ⟨b, hb, h⟩
      obtain ⟨rest, hrest, h⟩ := bind_ok_iff.mp h
      cases Except.ok.inj h
      exact .cons hb (ih.mp hrest)
    · rintro (_ | ⟨hb, hrest⟩)
      exact ⟨_, hb, bind_ok_iff.mpr ⟨_, ih.mpr hrest, rfl⟩⟩

theorem mapM_error_iff {f : α → Except ε β} {as : List α} {e : ε} :
    as.mapM f = .error e ↔ ∃ front a rest, as = front ++ a :: rest ∧
      (∀ c ∈ front, ∃ b, f c = .ok b) ∧ f a = .error e := by
  induction as with
  | nil =>
    constructor
    · intro h
      exact nomatch h
    · rintro ⟨front, a, rest, h, -⟩
      exact absurd h (by simp)
  | cons a as ih =>
    rw [mapM_cons, bind_error_iff]
    constructor
    · rintro (h | ⟨b, hb, h⟩)
      · exact ⟨[], a, as, rfl, forall_mem_nil _, h⟩
      · rcases bind_error_iff.mp h with h | ⟨bs, -, h⟩
        · obtain ⟨front, c, rest, rfl, hfront, hc⟩ := ih.mp h
          exact ⟨a :: front, c, rest, rfl, forall_mem_cons.mpr ⟨⟨b, hb⟩, hfront⟩, hc⟩
        · exact nomatch h
    · rintro ⟨front, c, rest, h, hfront, hc⟩
      cases front with
      | nil =>
        cases h
        exact .inl hc
      | cons d front =>
        cases h
        obtain ⟨⟨b, hb⟩, hfront⟩ := forall_mem_cons.mp hfront
        exact .inr ⟨b, hb, bind_error_iff.mpr
          (.inl (ih.mpr ⟨front, c, rest, rfl, hfront, hc⟩))⟩

end Loregarden.Refusals
