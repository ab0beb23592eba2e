import Mathlib.Data.List.Basic

/-! # Calls that are cut short

    A call over a store makes its writes one after the other. Any of them may fail, which
    raises with the write not made, and the process may stop behind any of them.

    * `Act σ ε α`: a call over a store `σ` that ends with a value, raises or is stopped.
    * `Faults`: which writes fail, and behind which the process stops.
    * `Faults.perform`: a script, which is a list of writes; `perform_cut` says what a script
      that is cut has left behind. -/

namespace Loregarden.Scripts

open List

inductive Ending (ε α : Type) where
  | value (a : α)
  | raised (e : ε)
  | stopped
  deriving DecidableEq

def Act (σ ε α : Type) := σ → Ending ε α × σ

variable {σ ε α β γ : Type}

def Act.bind (x : Act σ ε α) (f : α → Act σ ε γ) : Act σ ε γ := fun s =>
  match x s with
  | (.value a, t) => f a t
  | (.raised e, t) => (.raised e, t)
  | (.stopped, t) => (.stopped, t)

instance : Monad (Act σ ε) where
  pure a := fun s => (.value a, s)
  bind := Act.bind

def raise (e : ε) : Act σ ε α := fun s => (.raised e, s)

def readStore : Act σ ε σ := fun s => (.value s, s)

theorem readStore_bind (f : σ → Act σ ε α) (s : σ) : (readStore >>= f) s = f s s := rfl

theorem bind_value {x : Act σ ε α} {f : α → Act σ ε γ} {s t : σ} {a : α}
    (h : x s = (.value a, t)) : (x >>= f) s = f a t := by
  show Act.bind x f s = f a t
  rw [Act.bind, h]

theorem bind_raised {x : Act σ ε α} {f : α → Act σ ε γ} {s t : σ} {e : ε}
    (h : x s = (.raised e, t)) : (x >>= f) s = (.raised e, t) := by
  show Act.bind x f s = (.raised e, t)
  rw [Act.bind, h]

theorem bind_stopped {x : Act σ ε α} {f : α → Act σ ε γ} {s t : σ}
    (h : x s = (.stopped, t)) : (x >>= f) s = (.stopped, t) := by
  show Act.bind x f s = (.stopped, t)
  rw [Act.bind, h]

theorem act_congr {x y : Act σ ε α} {f g : α → Act σ ε γ} {s : σ} (hxy : x s = y s)
    (hfg : ∀ a t, y s = (.value a, t) → f a t = g a t) : (x >>= f) s = (y >>= g) s := by
  cases h : y s with
  | mk ending t =>
    cases ending with
    | value a => rw [bind_value (hxy.trans h), bind_value h, hfg a t h]
    | raised e => rw [bind_raised (hxy.trans h), bind_raised h]
    | stopped => rw [bind_stopped (hxy.trans h), bind_stopped h]

theorem act_assoc (x : Act σ ε α) (f : α → Act σ ε β) (g : β → Act σ ε γ) :
    x >>= f >>= g = x >>= fun a => f a >>= g := by
  funext s
  cases h : x s with
  | mk ending t =>
    cases ending with
    | value a =>
      rw [bind_value h]
      cases hf : f a t with
      | mk ending u =>
        cases ending with
        | value b => rw [bind_value (bind_value (f := f) h ▸ hf), bind_value hf]
        | raised e => rw [bind_raised (bind_value (f := f) h ▸ hf), bind_raised hf]
        | stopped => rw [bind_stopped (bind_value (f := f) h ▸ hf), bind_stopped hf]
    | raised e => rw [bind_raised (bind_raised (f := f) h), bind_raised h]
    | stopped => rw [bind_stopped (bind_stopped (f := f) h), bind_stopped h]

theorem act_unit (x : Act σ ε Unit) : (x >>= fun _ => pure ()) = x := by
  funext s
  cases h : x s with
  | mk ending t =>
    cases ending with
    | value u => rw [bind_value h]; rfl
    | raised e => rw [bind_raised h]
    | stopped => rw [bind_stopped h]

/-! ## Writes that may fail -/

/-- Which of the writes `β` fail, and behind which of them the process stops. -/
structure Faults (β : Type) where
  fails : β → Bool := fun _ => false
  stops : β → Bool := fun _ => false

namespace Faults

variable (f : Faults β) (e : ε) (write : β → σ → σ)

def commit (b : β) : Act σ ε Unit := fun s =>
  if f.fails b then (.raised e, s)
  else if f.stops b then (.stopped, write b s)
  else (.value (), write b s)

def perform : List β → Act σ ε Unit
  | [] => pure ()
  | b :: bs => do
      f.commit e write b
      perform bs

def applied (write : β → σ → σ) (bs : List β) (s : σ) : σ := bs.foldl (fun s b => write b s) s

/-- A write that is made, with the process going on behind it. -/
def Passes (b : β) : Prop := f.fails b = false ∧ f.stops b = false

variable {f e write} {s : σ} {b : β} {bs cs : List β}

theorem commit_passes (h : f.Passes b) : f.commit e write b s = (.value (), write b s) := by
  rw [commit, h.1, h.2]
  rfl

theorem commit_value {t : σ} {u : Unit} (h : f.commit e write b s = (.value u, t)) :
    t = write b s := by
  rw [commit] at h
  by_cases hf : f.fails b = true
  · rw [if_pos hf] at h
    cases h
  · rw [if_neg hf] at h
    by_cases hs : f.stops b = true
    · rw [if_pos hs] at h
      cases h
    · rw [if_neg hs] at h
      exact (congrArg Prod.snd h).symm

theorem commit_fails (h : f.fails b = true) : f.commit e write b s = (.raised e, s) := by
  rw [commit, if_pos h]

theorem commit_stops (hf : f.fails b = false) (hs : f.stops b = true) :
    f.commit e write b s = (.stopped, write b s) := by
  rw [commit, hf, hs]
  rfl

theorem perform_append :
    f.perform e write (bs ++ cs) = f.perform e write bs >>= fun _ => f.perform e write cs := by
  induction bs with
  | nil => rfl
  | cons b bs ih =>
    show (f.commit e write b >>= fun _ => f.perform e write (bs ++ cs)) = _
    rw [ih]
    exact (act_assoc _ _ _).symm

theorem applied_append : applied write (bs ++ cs) s = applied write cs (applied write bs s) :=
  foldl_append

theorem perform_passes (h : ∀ b ∈ bs, f.Passes b) :
    f.perform e write bs s = (.value (), applied write bs s) := by
  induction bs generalizing s with
  | nil => rfl
  | cons b bs ih =>
    rw [perform, bind_value (commit_passes (h b mem_cons_self)),
      ih fun c hc => h c (mem_cons_of_mem b hc)]
    rfl

theorem exists_first_cut (h : ¬ ∀ b ∈ bs, f.Passes b) :
    ∃ front b rest, bs = front ++ b :: rest ∧ (∀ c ∈ front, f.Passes c) ∧ ¬ f.Passes b := by
  induction bs with
  | nil => exact absurd (fun b hb => nomatch hb) h
  | cons b bs ih =>
    by_cases hb : f.Passes b
    · have hrest : ¬ ∀ c ∈ bs, f.Passes c := by
        intro hall
        refine h fun c hc => ?_
        rcases mem_cons.mp hc with rfl | hc
        · exact hb
        · exact hall c hc
      obtain ⟨front, c, rest, rfl, hfront, hc⟩ := ih hrest
      refine ⟨b :: front, c, rest, rfl, ?_, hc⟩
      intro d hd
      rcases mem_cons.mp hd with rfl | hd
      · exact hb
      · exact hfront d hd
    · exact ⟨[], b, bs, rfl, forall_mem_nil _, hb⟩

theorem perform_fails (hbs : ∀ c ∈ bs, f.Passes c) (hb : f.fails b = true) :
    f.perform e write (bs ++ b :: cs) s = (.raised e, applied write bs s) := by
  rw [perform_append, bind_value (perform_passes hbs), perform, bind_raised (commit_fails hb)]

theorem perform_stops (hbs : ∀ c ∈ bs, f.Passes c) (hf : f.fails b = false)
    (hs : f.stops b = true) :
    f.perform e write (bs ++ b :: cs) s = (.stopped, applied write (bs ++ [b]) s) := by
  rw [perform_append, bind_value (perform_passes hbs), perform, bind_stopped (commit_stops hf hs),
    applied_append]
  rfl

/-- **What a script that is cut leaves behind**: the writes before the cut, and the one behind
    which it was stopped. -/
theorem perform_cut (h : ¬ ∀ b ∈ bs, f.Passes b) :
    ∃ front b rest, bs = front ++ b :: rest ∧ (∀ c ∈ front, f.Passes c) ∧
      ((f.fails b = true ∧ f.perform e write bs s = (.raised e, applied write front s)) ∨
        (f.fails b = false ∧ f.stops b = true ∧
          f.perform e write bs s = (.stopped, applied write (front ++ [b]) s))) := by
  obtain ⟨front, b, rest, rfl, hfront, hb⟩ := exists_first_cut h
  refine ⟨front, b, rest, rfl, hfront, ?_⟩
  cases hf : f.fails b with
  | true => exact .inl ⟨rfl, perform_fails hfront hf⟩
  | false =>
    have hs : f.stops b = true := by
      by_contra hs
      exact hb ⟨hf, Bool.not_eq_true _ ▸ hs⟩
    exact .inr ⟨rfl, hs, perform_stops hfront hf hs⟩

theorem perform_value {t : σ} {u : Unit} (h : f.perform e write bs s = (.value u, t)) :
    (∀ b ∈ bs, f.Passes b) ∧ t = applied write bs s := by
  by_cases hall : ∀ b ∈ bs, f.Passes b
  · rw [perform_passes hall] at h
    exact ⟨hall, (congrArg Prod.snd h).symm⟩
  · obtain ⟨_, _, _, -, -, ⟨-, hcut⟩ | ⟨-, -, hcut⟩⟩ := perform_cut hall
    · rw [hcut] at h
      cases h
    · rw [hcut] at h
      cases h

end Faults

end Loregarden.Scripts
