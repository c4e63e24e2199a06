import Mathlib.Data.List.Sublists
import Mathlib.Order.Bounds.Defs

/-! Longest common subsequences. -/
namespace Lcs
variable {α : Type*} [DecidableEq α]

/-- The length of a longest common subsequence. -/
def lcs : List α → List α → Nat
  | [], _ => 0
  | _ :: _, [] => 0
  | a :: s, b :: t =>
    if a = b then lcs s t + 1 else max (lcs s (b :: t)) (lcs (a :: s) t)
termination_by s t => s.length + t.length

section Equations
variable {a b : α} {s t : List α}

@[simp] theorem lcs_nil_left (t : List α) : lcs [] t = 0 := by rw [lcs]

@[simp] theorem lcs_nil_right (s : List α) : lcs s [] = 0 := by
  cases s with
  | nil => rw [lcs]
  | cons a s => rw [lcs]

theorem lcs_cons_self : lcs (a :: s) (a :: t) = lcs s t + 1 := by rw [lcs, if_pos rfl]

theorem lcs_cons_of_ne (h : a ≠ b) :
    lcs (a :: s) (b :: t) = max (lcs s (b :: t)) (lcs (a :: s) t) := by rw [lcs, if_neg h]

end Equations

/-- The lengths of the common subsequences. -/
def commonLengths (s t : List α) : Set Nat := {n | ∃ l : List α, l.Sublist s ∧ l.Sublist t ∧ l.length = n}

theorem lcs_mem (s t : List α) : lcs s t ∈ commonLengths s t := by
  induction s, t using lcs.induct with
  | case1 t => exact ⟨[], List.nil_sublist _, List.nil_sublist _, by rw [lcs_nil_left]; rfl⟩
  | case2 a s => exact ⟨[], List.nil_sublist _, List.nil_sublist _, by rw [lcs_nil_right]; rfl⟩
  | case3 s a t ih =>
    obtain ⟨l, hs, ht, hl⟩ := ih
    exact ⟨a :: l, hs.cons_cons a, ht.cons_cons a, by rw [List.length_cons, hl, lcs_cons_self]⟩
  | case4 a s b t hne ih₁ ih₂ =>
    rw [lcs_cons_of_ne hne]
    cases Nat.le_total (lcs s (b :: t)) (lcs (a :: s) t) with
    | inl hle =>
      obtain ⟨l, hs, ht, hl⟩ := ih₂
      exact ⟨l, hs, ht.cons b, by rw [hl, Nat.max_eq_right hle]⟩
    | inr hle =>
      obtain ⟨l, hs, ht, hl⟩ := ih₁
      exact ⟨l, hs.cons a, ht, by rw [hl, Nat.max_eq_left hle]⟩

/-- No common subsequence is longer: the first letters are used up together, or one is not used. -/
theorem length_le_lcs {l s t : List α} (hs : l.Sublist s) (ht : l.Sublist t) :
    l.length ≤ lcs s t := by
  induction s, t using lcs.induct generalizing l with
  | case1 t => rw [List.sublist_nil.mp hs]; exact Nat.zero_le _
  | case2 a s => rw [List.sublist_nil.mp ht]; exact Nat.zero_le _
  | case3 s a t ih =>
    rw [lcs_cons_self]
    cases l with
    | nil => exact Nat.zero_le _
    | cons c l => exact Nat.succ_le_succ (ih hs.of_cons_cons ht.of_cons_cons)
  | case4 a s b t hne ih₁ ih₂ =>
    rw [lcs_cons_of_ne hne]
    cases List.sublist_cons_iff.mp hs with
    | inl hskip => exact (ih₁ hskip ht).trans (Nat.le_max_left _ _)
    | inr hused =>
      obtain ⟨r, rfl, hr⟩ := hused
      cases List.sublist_cons_iff.mp ht with
      | inl hskip => exact (ih₂ hs hskip).trans (Nat.le_max_right _ _)
      | inr hboth =>
        obtain ⟨r', heq, -⟩ := hboth
        exact absurd (List.cons.inj heq).1 hne

theorem isGreatest_lcs (s t : List α) : IsGreatest (commonLengths s t) (lcs s t) := by
  refine ⟨lcs_mem s t, ?_⟩
  rintro n ⟨l, hs, ht, rfl⟩
  exact length_le_lcs hs ht

end Lcs
