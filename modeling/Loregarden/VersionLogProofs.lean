import Mathlib.Data.List.MinMax
import Mathlib.Order.Nat

/-! # A log that keeps its newest entries

`recent keep past` numbers the entries of `past` from 1 on and keeps the last `keep` of them.
Appending an entry under the next number and dropping what is `keep` numbers behind it gives the
same log of one entry more: `recent_snoc`. -/

namespace Loregarden.VersionLog

open List

variable {α : Type*}

/-- The newest `keep` entries of a list, oldest first, each with its number. -/
def recent (keep : Nat) (past : List α) : List (α × Nat) :=
  (past.zipIdx 1).drop (past.length - keep)

@[simp] theorem recent_nil (keep : Nat) : recent keep ([] : List α) = [] := by
  simp [recent]

theorem filter_zipIdx_lt (l : List α) (m k : Nat) :
    (l.zipIdx k).filter (fun p => m < p.2) = (l.zipIdx k).drop (m + 1 - k) := by
  induction l generalizing k with
  | nil => simp
  | cons a l ih =>
    rw [zipIdx_cons]
    by_cases h : m < k
    · rw [filter_cons_of_pos (by simpa using h), ih,
        show m + 1 - k = 0 by omega, show m + 1 - (k + 1) = 0 by omega]
      rfl
    · rw [filter_cons_of_neg (by simpa using h), ih,
        show m + 1 - k = (m + 1 - (k + 1)) + 1 by omega]
      rfl

theorem recent_eq_filter (keep : Nat) (past : List α) :
    recent keep past = (past.zipIdx 1).filter (fun p => past.length - keep < p.2) := by
  rw [filter_zipIdx_lt]
  rfl

/-- **The next entry**: it takes the next number, and what is `keep` numbers behind it goes. -/
theorem recent_snoc (keep : Nat) (past : List α) (a : α) :
    (recent keep past ++ [(a, past.length + 1)]).filter
        (fun p => past.length + 1 < p.2 + keep) = recent keep (past ++ [a]) := by
  rw [recent_eq_filter, recent_eq_filter, zipIdx_append, filter_append,
    filter_append, filter_filter]
  congr 1
  · refine filter_congr ?_
    rintro ⟨b, n⟩ hmem
    rw [Bool.eq_iff_iff]
    simp only [length_append, length_singleton, Bool.and_eq_true, decide_eq_true_eq]
    omega
  · rw [Nat.add_comm 1, zipIdx_singleton]
    refine filter_congr ?_
    intro p hp
    obtain rfl : p = (a, past.length + 1) := by simpa using hp
    rw [Bool.eq_iff_iff]
    simp only [length_append, length_singleton, decide_eq_true_eq]
    omega

theorem le_length_of_mem {keep : Nat} {past : List α} {p : α × Nat}
    (h : p ∈ recent keep past) : 1 ≤ p.2 ∧ p.2 ≤ past.length := by
  obtain ⟨hle, hlt, -⟩ := mem_zipIdx (x := p.1) (i := p.2) (mem_of_mem_drop h)
  omega

theorem mem_recent_last {keep : Nat} (hkeep : 0 < keep) (past : List α) (a : α) :
    (a, past.length + 1) ∈ recent keep (past ++ [a]) := by
  rw [← recent_snoc]
  refine mem_filter.mpr ⟨by simp, ?_⟩
  simpa using hkeep

theorem foldr_max_eq {l : List Nat} {n : Nat} (hle : ∀ m ∈ l, m ≤ n) (hn : n = 0 ∨ n ∈ l) :
    l.foldr max 0 = n := by
  induction l generalizing n with
  | nil =>
    rcases hn with rfl | hn
    · rfl
    · exact absurd hn not_mem_nil
  | cons m l ih =>
    rw [foldr_cons]
    have hm : m ≤ n := hle m (by simp)
    have htail : l.foldr max 0 ≤ n := by
      refine max_le_of_forall_le l n ?_
      intro x hx
      exact hle x (by simp [hx])
    rcases hn with rfl | hn
    · omega
    · rcases mem_cons.mp hn with rfl | hn
      · omega
      · rw [ih (fun x hx => hle x (by simp [hx])) (.inr hn)]
        omega

/-- **The highest number of a log is the count of all entries.** -/
theorem foldr_max_recent {keep : Nat} (hkeep : 0 < keep) (past : List α) :
    ((recent keep past).map Prod.snd).foldr max 0 = past.length := by
  refine foldr_max_eq ?_ ?_
  · intro m hm
    obtain ⟨p, hp, rfl⟩ := mem_map.mp hm
    exact (le_length_of_mem hp).2
  · rcases eq_nil_or_concat past with rfl | ⟨init, a, rfl⟩
    · exact .inl rfl
    · refine .inr (mem_map.mpr ⟨(a, init.length + 1), ?_, by simp⟩)
      simpa using mem_recent_last hkeep init a

end Loregarden.VersionLog
