/-! Polling until something is decided or it is too late. Two pollers of one sequence are compared by
what they decide at each poll. -/
namespace Polling
universe u
variable {α : Type u}

/-- The answer of the first poll that decides, or the timeout. `fuel` bounds the polls after `k`. -/
def pollFrom (judge : Nat → Option α) (late : Nat → Bool) (timeout : α) : Nat → Nat → α
  | 0, k => (judge k).getD timeout
  | fuel + 1, k =>
    match judge k with
    | some a => a
    | none => if late k then timeout else pollFrom judge late timeout fuel (k + 1)

/-- A poll from `k` on decides, in time, and none before it does. -/
def Ends (judge : Nat → Option α) (late : Nat → Bool) (k : Nat) (a : α) : Prop :=
  ∃ n, k ≤ n ∧ judge n = some a ∧ ∀ i, k ≤ i → i < n → judge i = none ∧ late i = false

/-- Neither poller has decided before the poll. -/
def BothWait (judge judge' : Nat → Option α) (late : Nat → Bool) (k n : Nat) : Prop :=
  ∀ i, k ≤ i → i < n → judge i = none ∧ judge' i = none ∧ late i = false

/-- At this poll the two decide the same, or the one that waits on comes to it later. -/
def Meet (judge judge' : Nat → Option α) (late : Nat → Bool) (n : Nat) : Prop :=
  judge n = judge' n ∨
    (judge' n = none ∧ late n = false ∧ ∃ a, judge n = some a ∧ Ends judge' late (n + 1) a) ∨
    (judge n = none ∧ late n = false ∧ ∃ a, judge' n = some a ∧ Ends judge late (n + 1) a)

section Rules
variable {judge judge' : Nat → Option α} {late : Nat → Bool} {timeout a : α} {fuel k : Nat}

theorem ends_of_some (h : judge k = some a) {b : α} : Ends judge late k b ↔ a = b := by
  constructor
  · intro hends
    obtain ⟨n, hkn, hn, hbefore⟩ := hends
    cases Nat.eq_or_lt_of_le hkn with
    | inl heq =>
      subst heq
      exact Option.some.inj (h.symm.trans hn)
    | inr hlt => exact absurd (h.symm.trans (hbefore k (Nat.le_refl k) hlt).1) nofun
  · intro heq
    exact ⟨k, Nat.le_refl k, heq ▸ h, fun i hki hik => absurd hik (Nat.not_lt.mpr hki)⟩

theorem ends_of_none (h : judge k = none) :
    Ends judge late k a ↔ late k = false ∧ Ends judge late (k + 1) a := by
  constructor
  · intro hends
    obtain ⟨n, hkn, hn, hbefore⟩ := hends
    cases Nat.eq_or_lt_of_le hkn with
    | inl heq =>
      subst heq
      exact absurd (h.symm.trans hn) nofun
    | inr hlt =>
      exact ⟨(hbefore k (Nat.le_refl k) hlt).2, n, hlt, hn, fun i hki => hbefore i (by omega)⟩
  · intro hends
    obtain ⟨hlate, n, hkn, hn, hbefore⟩ := hends
    refine ⟨n, by omega, hn, fun i hki hin => ?_⟩
    cases Nat.eq_or_lt_of_le hki with
    | inl heq => exact heq ▸ ⟨h, hlate⟩
    | inr hlt => exact hbefore i hlt hin

/-- A poller comes to an answer of its own exactly when a poll in time decides it. -/
theorem pollFrom_eq_iff (hlate : late (k + fuel) = true) (hne : a ≠ timeout) :
    pollFrom judge late timeout fuel k = a ↔ Ends judge late k a := by
  induction fuel generalizing k with
  | zero =>
    cases h : judge k with
    | some b => simp [pollFrom, h, ends_of_some h]
    | none =>
      have hk : late k = true := hlate
      simp [pollFrom, h, ends_of_none h, hk, Ne.symm hne]
  | succ fuel ih =>
    cases h : judge k with
    | some b => simp [pollFrom, h, ends_of_some h]
    | none =>
      cases hk : late k with
      | true => simp [pollFrom, h, ends_of_none h, hk, Ne.symm hne]
      | false =>
        have hnext : late (k + 1 + fuel) = true := by rw [← hlate]; congr 1; omega
        have hrest := ih hnext
        simp [pollFrom, h, ends_of_none h, hk, hrest]

/-- An answer is the timeout or one that some poll gave. -/
theorem pollFrom_cases (judge : Nat → Option α) (late : Nat → Bool) (timeout : α) (fuel k : Nat) :
    pollFrom judge late timeout fuel k = timeout ∨
      ∃ n, judge n = some (pollFrom judge late timeout fuel k) := by
  induction fuel generalizing k with
  | zero =>
    cases h : judge k with
    | some b => exact .inr ⟨k, by simp [pollFrom, h]⟩
    | none => simp [pollFrom, h]
  | succ fuel ih =>
    cases h : judge k with
    | some b => exact .inr ⟨k, by simp [pollFrom, h]⟩
    | none => cases hk : late k <;> simp [pollFrom, h, hk, ih]

/-- A poller is too late when it is so at a poll up to which nothing was decided. -/
theorem pollFrom_timeout_iff (hlate : late (k + fuel) = true) (hne : ∀ n, judge n ≠ some timeout) :
    pollFrom judge late timeout fuel k = timeout ↔ ∃ n, k ≤ n ∧ late n = true ∧ judge n = none ∧
      ∀ i, k ≤ i → i < n → judge i = none ∧ late i = false := by
  have hdecided : ∀ k a, judge k = some a → ¬∃ n, k ≤ n ∧ late n = true ∧ judge n = none ∧
      ∀ i, k ≤ i → i < n → judge i = none ∧ late i = false := by
    intro k a ha hex
    obtain ⟨n, hkn, -, hn, hbefore⟩ := hex
    cases Nat.eq_or_lt_of_le hkn with
    | inl heq =>
      subst heq
      exact absurd (ha.symm.trans hn) nofun
    | inr hlt => exact absurd (ha.symm.trans (hbefore k (Nat.le_refl k) hlt).1) nofun
  induction fuel generalizing k with
  | zero =>
    cases h : judge k with
    | some a =>
      have hother : a ≠ timeout := fun heq => hne k (heq ▸ h)
      simp [pollFrom, h, hother, hdecided k a h]
    | none =>
      simp only [pollFrom, h, Option.getD_none, true_iff]
      exact ⟨k, Nat.le_refl k, hlate, h, fun i hki hik => absurd hik (Nat.not_lt.mpr hki)⟩
  | succ fuel ih =>
    cases h : judge k with
    | some a =>
      have hother : a ≠ timeout := fun heq => hne k (heq ▸ h)
      simp [pollFrom, h, hother, hdecided k a h]
    | none =>
      cases hk : late k with
      | true =>
        simp only [pollFrom, h, hk, if_true, true_iff]
        exact ⟨k, Nat.le_refl k, hk, h, fun i hki hik => absurd hik (Nat.not_lt.mpr hki)⟩
      | false =>
        have hnext : late (k + 1 + fuel) = true := by rw [Nat.add_right_comm]; exact hlate
        simp only [pollFrom, h, hk, Bool.false_eq_true, if_false]
        refine (ih hnext).trans ?_
        constructor
        · intro hex
          obtain ⟨n, hkn, hn, hjudge, hbefore⟩ := hex
          refine ⟨n, by omega, hn, hjudge, fun i hki hin => ?_⟩
          cases Nat.eq_or_lt_of_le hki with
          | inl heq => exact heq ▸ ⟨h, hk⟩
          | inr hlt => exact hbefore i hlt hin
        · intro hex
          obtain ⟨n, hkn, hn, hjudge, hbefore⟩ := hex
          cases Nat.eq_or_lt_of_le hkn with
          | inl heq =>
            subst heq
            exact absurd (hk.symm.trans hn) nofun
          | inr hlt => exact ⟨n, hlt, hn, hjudge, fun i hki => hbefore i (by omega)⟩

theorem bothWait_self : BothWait judge judge' late k k :=
  fun _ hki hik => absurd hik (Nat.not_lt.mpr hki)

/-- Nothing after a poll counts that one of the two does not wait out. -/
theorem eq_of_bothWait {n : Nat} (hkn : k ≤ n) (h : BothWait judge judge' late k n)
    (hk : ¬ (judge k = none ∧ judge' k = none ∧ late k = false)) : n = k := by
  cases Nat.eq_or_lt_of_le hkn with
  | inl heq => exact heq.symm
  | inr hlt => exact absurd (h k (Nat.le_refl k) hlt) hk

theorem meet_here (hk : ¬ (judge k = none ∧ judge' k = none ∧ late k = false)) :
    (∀ n, k ≤ n → BothWait judge judge' late k n → Meet judge judge' late n) ↔
      Meet judge judge' late k := by
  constructor
  · exact fun hall => hall k (Nat.le_refl k) bothWait_self
  · intro hmeet n hkn hwait
    rw [eq_of_bothWait hkn hwait hk]
    exact hmeet

theorem ne_timeout {n : Nat} (h : ∀ n, judge n ≠ some timeout) (ha : judge n = some a) :
    a ≠ timeout := fun heq => h n (heq ▸ ha)

/-- Two pollers of one sequence end the same exactly when they meet at the first poll that is not
waited out by both. -/
theorem pollFrom_agree_iff (hlate : late (k + fuel) = true) (h : ∀ n, judge n ≠ some timeout)
    (h' : ∀ n, judge' n ≠ some timeout) :
    pollFrom judge late timeout fuel k = pollFrom judge' late timeout fuel k ↔
      ∀ n, k ≤ n → BothWait judge judge' late k n → Meet judge judge' late n := by
  induction fuel generalizing k with
  | zero =>
    have hk : late k = true := hlate
    rw [meet_here (by simp [hk])]
    cases hj : judge k with
    | some a =>
      cases hj' : judge' k with
      | some b => simp [pollFrom, Meet, hj, hj']
      | none => simp [pollFrom, Meet, hj, hj', hk, ne_timeout h hj]
    | none =>
      cases hj' : judge' k with
      | some b => simp [pollFrom, Meet, hj, hj', hk, (ne_timeout h' hj').symm]
      | none => simp [pollFrom, Meet, hj, hj']
  | succ fuel ih =>
    have hnext : late (k + 1 + fuel) = true := by rw [← hlate]; congr 1; omega
    cases hj : judge k with
    | some a =>
      rw [meet_here (by simp [hj])]
      cases hj' : judge' k with
      | some b => simp [pollFrom, Meet, hj, hj']
      | none =>
        cases hk : late k with
        | true => simp [pollFrom, Meet, hj, hj', hk, ne_timeout h hj]
        | false =>
          have hrest : pollFrom judge' late timeout fuel (k + 1) = a ↔
              Ends judge' late (k + 1) a := pollFrom_eq_iff hnext (ne_timeout h hj)
          simp [pollFrom, Meet, hj, hj', hk, ← hrest, eq_comm]
    | none =>
      cases hj' : judge' k with
      | some b =>
        rw [meet_here (by simp [hj'])]
        cases hk : late k with
        | true => simp [pollFrom, Meet, hj, hj', hk, (ne_timeout h' hj').symm]
        | false =>
          have hrest : pollFrom judge late timeout fuel (k + 1) = b ↔ Ends judge late (k + 1) b :=
            pollFrom_eq_iff hnext (ne_timeout h' hj')
          simp [pollFrom, Meet, hj, hj', hk, ← hrest]
      | none =>
        cases hk : late k with
        | true =>
          rw [meet_here (by simp [hk])]
          simp [pollFrom, Meet, hj, hj', hk]
        | false =>
          have hstep : (∀ n, k ≤ n → BothWait judge judge' late k n → Meet judge judge' late n) ↔
              ∀ n, k + 1 ≤ n → BothWait judge judge' late (k + 1) n → Meet judge judge' late n := by
            constructor
            · intro hall n hkn hwait
              refine hall n (by omega) fun i hki hin => ?_
              cases Nat.eq_or_lt_of_le hki with
              | inl heq => exact heq ▸ ⟨hj, hj', hk⟩
              | inr hlt => exact hwait i hlt hin
            · intro hall n hkn hwait
              cases Nat.eq_or_lt_of_le hkn with
              | inl heq => exact heq ▸ .inl (hj.trans hj'.symm)
              | inr hlt => exact hall n hlt fun i hki hin => hwait i (by omega) hin
          rw [hstep, ← ih hnext]
          simp [pollFrom, hj, hj', hk]

end Rules

end Polling
