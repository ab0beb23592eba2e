import Mathlib.Logic.Relation

/-! # Runs of labelled steps

A system is a step relation `step s l t`: label `l` takes state `s` to `t`. A run is a list of
labels with the states between them; the trace is kept, so that a claim about the order of events
can be read off it. The induction over a run is done once, in `Run.invariant`: an invariant is two
small goals, and a run under a condition is a run of the guarded relation `Guarded`. -/

namespace Loregarden.Runs

variable {S L : Type*}

/-- `Run step s tr t`: the labels of `tr`, in order, lead from `s` to `t`. -/
inductive Run (step : S → L → S → Prop) : S → List L → S → Prop where
  | nil (s : S) : Run step s [] s
  | cons {s m t : S} {l : L} {tr : List L} : step s l m → Run step m tr t → Run step s (l :: tr) t

/-- The step relation restricted to the steps that meet `cond` in the state they start from. -/
def Guarded (step : S → L → S → Prop) (cond : S → L → Prop) : S → L → S → Prop :=
  fun s l t => cond s l ∧ step s l t

variable {step : S → L → S → Prop}

theorem Run.invariant {P : S → Prop} (hstep : ∀ s l t, P s → step s l t → P t)
    {s t : S} {tr : List L} (h0 : P s) (hr : Run step s tr t) : P t := by
  induction hr with
  | nil => exact h0
  | cons hs _ ih => exact ih (hstep _ _ _ h0 hs)

theorem Run.append_iff {s t : S} {tr₁ tr₂ : List L} :
    Run step s (tr₁ ++ tr₂) t ↔ ∃ m, Run step s tr₁ m ∧ Run step m tr₂ t := by
  induction tr₁ generalizing s with
  | nil =>
    constructor
    · intro h
      exact ⟨s, .nil s, h⟩
    · rintro ⟨m, h1, h2⟩
      cases h1
      exact h2
  | cons l tr ih =>
    constructor
    · intro h
      cases h with
      | cons hs hr =>
        obtain ⟨m, h1, h2⟩ := ih.mp hr
        exact ⟨m, .cons hs h1, h2⟩
    · rintro ⟨m, h1, h2⟩
      cases h1 with
      | cons hs hr => exact .cons hs (ih.mpr ⟨m, hr, h2⟩)

theorem Run.singleton_iff {s t : S} {l : L} : Run step s [l] t ↔ step s l t := by
  constructor
  · intro h
    cases h with
    | cons hs hr =>
      cases hr
      exact hs
  · intro h
    exact .cons h (.nil t)

theorem Run.mono {step' : S → L → S → Prop} (h : ∀ s l t, step s l t → step' s l t)
    {s t : S} {tr : List L} (hr : Run step s tr t) : Run step' s tr t := by
  induction hr with
  | nil s => exact .nil s
  | cons hs _ ih => exact .cons (h _ _ _ hs) ih

theorem Run.of_guarded {cond : S → L → Prop} {s t : S} {tr : List L}
    (hr : Run (Guarded step cond) s tr t) : Run step s tr t :=
  hr.mono fun _ _ _ h => h.2

/-- Whether each label of a list meets a condition, in the state a replay of the
    ones before it reaches. -/
def meets (f : S → L → S) (cond : S → L → Bool) : S → List L → Bool
  | _, [] => true
  | s, l :: tr => cond s l && meets f cond (f s l) tr

theorem Run.of_meets {f : S → L → S} {cond : S → L → Bool}
    (hstep : ∀ s l, cond s l = true → step s l (f s l)) {s : S} {tr : List L}
    (h : meets f cond s tr = true) : Run step s tr (tr.foldl f s) := by
  induction tr generalizing s with
  | nil => exact .nil s
  | cons l tr ih =>
    obtain ⟨hl, htr⟩ := Bool.and_eq_true_iff.mp h
    exact .cons (hstep s l hl) (ih htr)

theorem Run.of_foldl {f : S → L → S} (hstep : ∀ s l, step s l (f s l)) (s : S) (tr : List L) :
    Run step s tr (tr.foldl f s) := by
  induction tr generalizing s with
  | nil => exact .nil s
  | cons l tr ih => exact .cons (hstep s l) (ih (f s l))

end Loregarden.Runs
