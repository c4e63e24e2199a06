/-! Runs of a machine: a list of actions, each of which may be disabled in the state before it. -/
namespace Runs
universe u v
variable {σ : Type u} {α : Type v}

def exec (step : σ → α → Option σ) : σ → List α → Option σ
  | s, [] => some s
  | s, a :: acts => (step s a).bind fun s' => exec step s' acts

/-- Every action of the run meets the condition in the state before it. -/
def Along (step : σ → α → Option σ) (ok : σ → α → Prop) : σ → List α → Prop
  | _, [] => True
  | s, a :: acts => ok s a ∧ ∀ s', step s a = some s' → Along step ok s' acts

variable {step : σ → α → Option σ} {ok : σ → α → Prop} {P : σ → Prop}

theorem exec_cons {s s' : σ} {a : α} {acts : List α} :
    exec step s (a :: acts) = some s' ↔ ∃ m, step s a = some m ∧ exec step m acts = some s' :=
  Option.bind_eq_some_iff

theorem exec_append {s s' : σ} {u v : List α} :
    exec step s (u ++ v) = some s' ↔ ∃ m, exec step s u = some m ∧ exec step m v = some s' := by
  induction u generalizing s with
  | nil => simp [exec]
  | cons a u ih =>
    rw [List.cons_append, exec_cons]
    constructor
    · intro h
      obtain ⟨m, ha, h⟩ := h
      obtain ⟨k, hu, hv⟩ := ih.mp h
      exact ⟨k, exec_cons.mpr ⟨m, ha, hu⟩, hv⟩
    · intro h
      obtain ⟨k, hau, hv⟩ := h
      obtain ⟨m, ha, hu⟩ := exec_cons.mp hau
      exact ⟨m, ha, ih.mpr ⟨k, hu, hv⟩⟩

theorem along_append {s : σ} {u v : List α} :
    Along step ok s (u ++ v) ↔
      Along step ok s u ∧ ∀ m, exec step s u = some m → Along step ok m v := by
  induction u generalizing s with
  | nil => simp [exec, Along]
  | cons a u ih =>
    simp only [List.cons_append, Along, ih, exec_cons]
    constructor
    · intro h
      exact ⟨⟨h.1, fun s' hs' => (h.2 s' hs').1⟩, fun k hk => by
        obtain ⟨s', hs', hk⟩ := hk
        exact (h.2 s' hs').2 k hk⟩
    · intro h
      exact ⟨h.1.1, fun s' hs' => ⟨h.1.2 s' hs', fun k hk => h.2 k ⟨s', hs', hk⟩⟩⟩

theorem along_of_forall {s : σ} {acts : List α} (h : ∀ a ∈ acts, ∀ s, ok s a) :
    Along step ok s acts := by
  induction acts generalizing s with
  | nil => trivial
  | cons a acts ih =>
    rw [List.forall_mem_cons] at h
    exact ⟨h.1 s, fun s' _ => ih h.2⟩

theorem Along.and {ok' : σ → α → Prop} {s : σ} {acts : List α} (h : Along step ok s acts)
    (h' : Along step ok' s acts) : Along step (fun s a => ok s a ∧ ok' s a) s acts := by
  induction acts generalizing s with
  | nil => trivial
  | cons a acts ih => exact ⟨⟨h.1, h'.1⟩, fun s' hs' => ih (h.2 s' hs') (h'.2 s' hs')⟩

/-- The run lemma of an invariant: what each step keeps under its condition, the run keeps. -/
theorem exec_keeps (hstep : ∀ s a s', P s → ok s a → step s a = some s' → P s') {s s' : σ}
    {acts : List α} (hok : Along step ok s acts) (hs : P s) (hrun : exec step s acts = some s') :
    P s' := by
  induction acts generalizing s with
  | nil =>
    cases hrun
    exact hs
  | cons a acts ih =>
    obtain ⟨m, ha, hrun⟩ := exec_cons.mp hrun
    exact ih (hok.2 m ha) (hstep s a m hs hok.1 ha) hrun

/-- An invariant without a condition on the actions. -/
theorem exec_invariant (hstep : ∀ s a s', P s → step s a = some s' → P s') {s s' : σ}
    {acts : List α} (hs : P s) (hrun : exec step s acts = some s') : P s' :=
  have hok : Along step (fun _ _ => True) s acts := along_of_forall fun _ _ _ => trivial
  exec_keeps (fun s a s' hs _ => hstep s a s' hs) hok hs hrun

/-- A condition that fails somewhere along the run fails at some first state of it. -/
theorem exists_of_not_along {s : σ} {acts : List α} (h : ¬ Along step ok s acts) :
    ∃ pre a post m, acts = pre ++ a :: post ∧ exec step s pre = some m ∧ ¬ ok m a := by
  induction acts generalizing s with
  | nil => exact absurd trivial h
  | cons a acts ih =>
    by_cases ha : ok s a
    · have hrest : ¬ ∀ s', step s a = some s' → Along step ok s' acts := fun hall => h ⟨ha, hall⟩
      obtain ⟨s', hs'⟩ := Classical.not_forall.mp hrest
      obtain ⟨hstep, hs'⟩ := Classical.not_imp.mp hs'
      obtain ⟨pre, b, post, m, hacts, hpre, hb⟩ := ih hs'
      exact ⟨a :: pre, b, post, m, by rw [hacts, List.cons_append],
        exec_cons.mpr ⟨s', hstep, hpre⟩, hb⟩
    · exact ⟨[], a, acts, s, rfl, rfl, ha⟩

end Runs
