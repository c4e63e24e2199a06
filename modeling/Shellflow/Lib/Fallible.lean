import Mathlib.Data.List.Basic
import Mathlib.Data.List.Forall2

/-! Fallible loops: a step that may stop with an error, folded over its inputs. -/
namespace Fallible
universe u
variable {ε ι : Type*} {α β σ : Type u}

theorem bind_eq_ok {x : Except ε α} {f : α → Except ε β} {b : β} :
    x >>= f = .ok b ↔ ∃ a, x = .ok a ∧ f a = .ok b := by
  cases x with
  | error e => simp [bind, Except.bind]
  | ok a => simp [bind, Except.bind]

theorem map_eq_ok {x : Except ε α} {f : α → β} {b : β} :
    f <$> x = .ok b ↔ ∃ a, x = .ok a ∧ f a = b := by
  cases x with
  | error e => simp [Functor.map, Except.map]
  | ok a => simp [Functor.map, Except.map]

/-- A successful map pairs each element with its own result. -/
theorem mapM_forall₂ {α β : Type u} {f : α → Except ε β} {l : List α} {l' : List β}
    (h : l.mapM f = .ok l') : List.Forall₂ (fun a b => f a = .ok b) l l' := by
  induction l generalizing l' with
  | nil =>
    cases h
    exact .nil
  | cons a l ih =>
    rw [List.mapM_cons] at h
    obtain ⟨b, hb, h⟩ := bind_eq_ok.mp h
    obtain ⟨bs, hbs, h⟩ := bind_eq_ok.mp h
    cases h
    exact .cons hb (ih hbs)

theorem exists_of_mem_mapM {α β : Type u} {f : α → Except ε β} {l : List α} {l' : List β}
    (h : l.mapM f = .ok l') {b : β} (hb : b ∈ l') : ∃ a ∈ l, f a = .ok b := by
  have hpairs := mapM_forall₂ h
  clear h
  induction hpairs with
  | nil => cases hb
  | cons hab _ ih =>
    rcases List.mem_cons.mp hb with rfl | hb
    · exact ⟨_, List.mem_cons_self, hab⟩
    · obtain ⟨a, ha, hab⟩ := ih hb
      exact ⟨a, List.mem_cons_of_mem _ ha, hab⟩

/-- What one successful step preserves, a successful loop preserves. -/
theorem foldlM_invariant {step : σ → ι → Except ε σ} (P : σ → Prop)
    (hstep : ∀ s i t, P s → step s i = .ok t → P t) {l : List ι} {s t : σ}
    (hs : P s) (h : l.foldlM step s = .ok t) : P t := by
  induction l generalizing s with
  | nil =>
    cases h
    exact hs
  | cons i l ih =>
    rw [List.foldlM_cons] at h
    obtain ⟨u, hu, h⟩ := bind_eq_ok.mp h
    exact ih (hstep s i u hs hu) h

/-- The same, with the inputs that were read so far. -/
theorem foldlM_trace {step : σ → ι → Except ε σ} (P : List ι → σ → Prop)
    (hstep : ∀ seen s i t, P seen s → step s i = .ok t → P (seen ++ [i]) t)
    {l seen : List ι} {s t : σ} (hs : P seen s) (h : l.foldlM step s = .ok t) :
    P (seen ++ l) t := by
  induction l generalizing s seen with
  | nil =>
    cases h
    simpa using hs
  | cons i l ih =>
    rw [List.foldlM_cons] at h
    obtain ⟨u, hu, h⟩ := bind_eq_ok.mp h
    have htail := ih (hstep seen s i u hs hu) h
    simpa using htail

/-- Every step of the loop that is reached meets `G`. -/
def Along (step : σ → ι → Except ε σ) (G : σ → ι → Prop) : σ → List ι → Prop
  | _, [] => True
  | s, i :: l => G s i ∧ ∀ t, step s i = .ok t → Along step G t l

/-- What holds of every step of a successful run, given the rest of the run, holds along it. -/
theorem along_of_run {step : σ → ι → Except ε σ} {G : σ → ι → Prop} {t : σ}
    (hG : ∀ s i u rest, step s i = .ok u → List.foldlM step u rest = .ok t → G s i)
    {l : List ι} {s : σ} (h : l.foldlM step s = .ok t) : Along step G s l := by
  induction l generalizing s with
  | nil => trivial
  | cons i l ih =>
    rw [List.foldlM_cons] at h
    obtain ⟨u, hu, h⟩ := bind_eq_ok.mp h
    refine ⟨hG s i u l hu h, fun v hv => ?_⟩
    rw [hu] at hv
    cases hv
    exact ih h

/-- The steps of a loop that are reached, in two parts. -/
theorem along_of_append {step : σ → ι → Except ε σ} {G : σ → ι → Prop} {l l' : List ι} {s t : σ}
    (h : Along step G s (l ++ l')) (hl : l.foldlM step s = .ok t) :
    Along step G s l ∧ Along step G t l' := by
  induction l generalizing s with
  | nil =>
    cases hl
    exact ⟨trivial, h⟩
  | cons i l ih =>
    rw [List.foldlM_cons] at hl
    obtain ⟨u, hu, hl⟩ := bind_eq_ok.mp hl
    obtain ⟨hfront, hback⟩ := ih (h.2 u hu) hl
    refine ⟨⟨h.1, fun v hv => ?_⟩, hback⟩
    rw [hu] at hv
    cases hv
    exact hfront

instance decidableOk {P : σ → Prop} [DecidablePred P] :
    (x : Except ε σ) → Decidable (∀ t, x = .ok t → P t)
  | .error _ => isTrue nofun
  | .ok u => decidable_of_iff (P u) ⟨fun hu _ ht => Except.ok.inj ht ▸ hu, fun h => h u rfl⟩

instance decidableAlong (step : σ → ι → Except ε σ) (G : σ → ι → Prop)
    [∀ s i, Decidable (G s i)] (s : σ) : (l : List ι) → Decidable (Along step G s l)
  | [] => isTrue trivial
  | i :: l =>
    have : DecidablePred fun t => Along step G t l := fun t => decidableAlong step G t l
    inferInstanceAs (Decidable (G s i ∧ ∀ t, step s i = .ok t → Along step G t l))

/-- When a step keeps `I` exactly if it meets `G`, a loop keeps `I` exactly if all steps do. -/
theorem foldlM_iff_along {step : σ → ι → Except ε σ} {I : σ → Prop} {G : σ → ι → Prop}
    (hstep : ∀ s i t, step s i = .ok t → (I t ↔ I s ∧ G s i)) {l : List ι} {s t : σ}
    (h : l.foldlM step s = .ok t) : I t ↔ I s ∧ Along step G s l := by
  induction l generalizing s with
  | nil =>
    cases h
    simp [Along]
  | cons i l ih =>
    rw [List.foldlM_cons] at h
    obtain ⟨u, hu, h⟩ := bind_eq_ok.mp h
    have hrest : (∀ v, step s i = .ok v → Along step G v l) ↔ Along step G u l := by
      simp [hu]
    rw [ih h, hstep s i u hu, Along, hrest, and_assoc]

/-- Two loops that agree step by step through `f` agree as loops. -/
theorem foldlM_map {τ : Type u} {step : σ → ι → Except ε σ} {step' : τ → ι → Except ε τ}
    (f : σ → τ) (hstep : ∀ s i, step' (f s) i = f <$> step s i) (l : List ι) (s : σ) :
    l.foldlM step' (f s) = f <$> l.foldlM step s := by
  induction l generalizing s with
  | nil => rfl
  | cons i l ih =>
    rw [List.foldlM_cons, List.foldlM_cons, hstep]
    cases h : step s i with
    | error e => rfl
    | ok t => exact ih t

/-- Every error of the computation meets `P`. -/
def Raises (P : ε → Prop) (x : Except ε α) : Prop := ∀ e, x = .error e → P e

section Raises
variable {P : ε → Prop}

@[simp] theorem raises_ok (a : α) : Raises P (.ok a) := nofun

@[simp] theorem raises_pure (a : α) : Raises P (pure a : Except ε α) := nofun

@[simp] theorem raises_error {e : ε} : Raises P (.error e : Except ε α) ↔ P e :=
  ⟨fun h => h e rfl, fun h _ he => Except.error.inj he ▸ h⟩

@[simp] theorem raises_bind {x : Except ε α} {f : α → Except ε β} :
    Raises P (x >>= f) ↔ Raises P x ∧ ∀ a, x = .ok a → Raises P (f a) := by
  cases x with
  | error e => simp [bind, Except.bind]
  | ok a => simp [bind, Except.bind]

@[simp] theorem raises_ite {c : Prop} [Decidable c] {x y : Except ε α} :
    Raises P (if c then x else y) ↔ (c → Raises P x) ∧ (¬ c → Raises P y) := by
  by_cases h : c
  · simp [h]
  · simp [h]

theorem raises_foldlM {step : σ → ι → Except ε σ} (hstep : ∀ s i, Raises P (step s i)) (l : List ι)
    (s : σ) : Raises P (l.foldlM step s) := by
  induction l generalizing s with
  | nil => exact raises_ok s
  | cons i l ih =>
    rw [List.foldlM_cons, raises_bind]
    exact ⟨hstep s i, fun t _ => ih t⟩

end Raises

/-- Every result of the computation meets `P`. -/
def Yields (P : α → Prop) (x : Except ε α) : Prop := ∀ a, x = .ok a → P a

@[simp] theorem yields_ok {P : α → Prop} {a : α} : Yields P (.ok a : Except ε α) ↔ P a :=
  ⟨fun h => h a rfl, fun h _ ha => Except.ok.inj ha ▸ h⟩

@[simp] theorem yields_bind {P : β → Prop} {x : Except ε α} {f : α → Except ε β} :
    Yields P (x >>= f) ↔ ∀ a, x = .ok a → Yields P (f a) := by
  cases x with
  | error e => simp [Yields, bind, Except.bind]
  | ok a => simp [Yields, bind, Except.bind]

end Fallible
