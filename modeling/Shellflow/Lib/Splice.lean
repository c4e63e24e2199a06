import Mathlib.Data.List.Basic
import Mathlib.Data.List.Infix

/-! Replacing the occurrences of a list in another one, from the left and without overlaps. A text
is given in chunks; when the list begins only where a chunk is it, these chunks are replaced. -/
namespace Splice
variable {α : Type} {needle value : List α} {f : List α → List α}

/-- A prefix without `x` ends before it. -/
theorem prefix_of_notMem {x : α} {p a rest : List α} (hx : x ∉ p) (h : p <+: a ++ x :: rest) :
    p <+: a := by
  cases List.prefix_or_prefix_of_prefix h (List.prefix_append a (x :: rest)) with
  | inl hp => exact hp
  | inr ha =>
    obtain ⟨more, rfl⟩ := ha
    cases more with
    | nil => rw [List.append_nil]
    | cons y more =>
      rw [List.prefix_append_right_inj] at h
      obtain ⟨rfl, -⟩ := List.cons_prefix_cons.mp h
      exact absurd (List.mem_append_right a List.mem_cons_self) hx

/-- What a function does that replaces every occurrence. -/
structure Replaces (needle value : List α) (f : List α → List α) : Prop where
  nil : f [] = []
  own : ∀ rest, f (needle ++ rest) = value ++ f rest
  skip : ∀ x s, ¬ needle <+: x :: s → f (x :: s) = x :: f s

/-- The needle begins only where a chunk marked as its own stands. -/
def OwnOnly (needle : List α) : List (List α × Bool) → Prop
  | [] => True
  | (w, true) :: rest => w = needle ∧ OwnOnly needle rest
  | (w, false) :: rest =>
    (∀ i < w.length, ¬ needle <+: (w ++ rest.flatMap Prod.fst).drop i) ∧ OwnOnly needle rest

theorem Replaces.append (hf : Replaces needle value f) (w t : List α)
    (h : ∀ i < w.length, ¬ needle <+: (w ++ t).drop i) : f (w ++ t) = w ++ f t := by
  induction w with
  | nil => rfl
  | cons x w ih =>
    have hhere : ¬ needle <+: x :: (w ++ t) := h 0 (Nat.succ_pos _)
    rw [List.cons_append, hf.skip x _ hhere, ih fun i hi => h (i + 1) (Nat.succ_lt_succ hi)]
    rfl

/-- The chunks of the needle are replaced, and nothing else. -/
theorem Replaces.chunks (hf : Replaces needle value f) {chunks : List (List α × Bool)}
    (h : OwnOnly needle chunks) :
    f (chunks.flatMap Prod.fst) = chunks.flatMap fun c => if c.2 then value else c.1 := by
  induction chunks with
  | nil => exact hf.nil
  | cons c rest ih =>
    obtain ⟨w, own⟩ := c
    rw [List.flatMap_cons, List.flatMap_cons]
    cases own with
    | true =>
      obtain ⟨hw, hrest⟩ := h
      rw [← ih hrest, hw]
      exact hf.own _
    | false => rw [← ih h.2]; exact hf.append w _ h.1

theorem Replaces.mem (hf : Replaces needle value f) (hne : needle ≠ []) {s : List α} {x : α}
    (h : x ∈ f s) : x ∈ s ∨ x ∈ value := by
  induction hn : s.length using Nat.strongRecOn generalizing s with
  | ind n ih =>
    by_cases hstart : needle <+: s
    · obtain ⟨rest, rfl⟩ := hstart
      have hpos : 0 < needle.length := List.length_pos_iff.mpr hne
      rw [hf.own] at h
      cases List.mem_append.mp h with
      | inl hvalue => exact .inr hvalue
      | inr hrest =>
        have hlt : rest.length < n := by
          rw [← hn, List.length_append]
          omega
        exact (ih _ hlt hrest rfl).imp_left fun hmem => List.mem_append_right needle hmem
    · cases s with
      | nil => rw [hf.nil] at h; cases h
      | cons y s =>
        rw [hf.skip y s hstart] at h
        cases List.mem_cons.mp h with
        | inl heq => exact .inl (heq ▸ List.mem_cons_self)
        | inr hrest =>
          have hlt : s.length < n := by rw [← hn]; exact Nat.lt_succ_self _
          exact (ih _ hlt hrest rfl).imp_left fun hmem => List.mem_cons_of_mem y hmem

variable [DecidableEq α]

instance decidableOwnOnly (needle : List α) : ∀ chunks, Decidable (OwnOnly needle chunks)
  | [] => isTrue trivial
  | (w, true) :: rest =>
    have := decidableOwnOnly needle rest
    inferInstanceAs (Decidable (w = needle ∧ OwnOnly needle rest))
  | (w, false) :: rest =>
    have := decidableOwnOnly needle rest
    inferInstanceAs (Decidable ((∀ i < w.length,
      ¬ needle <+: (w ++ rest.flatMap Prod.fst).drop i) ∧ OwnOnly needle rest))

theorem dropInfix?_start (needle rest : List α) :
    (needle ++ rest).dropInfix? needle = some ([], rest) := by
  rw [List.dropInfix?_eq_some_iff]
  exact ⟨⟨needle, rfl, BEq.rfl⟩, fun _ _ _ _ _ => Nat.zero_le _⟩

theorem dropInfix?_eq {s before rest : List α} (h : s.dropInfix? needle = some (before, rest)) :
    s = before ++ needle ++ rest := by
  obtain ⟨⟨found, hs, hfound⟩, -⟩ := List.dropInfix?_eq_some_iff.mp h
  rw [hs, eq_of_beq hfound]

theorem dropInfix?_nil_left (hne : needle ≠ []) : ([] : List α).dropInfix? needle = none := by
  cases h : ([] : List α).dropInfix? needle with
  | none => rfl
  | some parts =>
    have hnil := (List.append_eq_nil_iff.mp (dropInfix?_eq h).symm).1
    exact absurd (List.append_eq_nil_iff.mp hnil).2 hne

theorem dropInfix?_go (needle s acc : List α) :
    List.dropInfix?.go needle s acc =
      (s.dropInfix? needle).map fun p => (acc.reverse ++ p.1, p.2) := by
  apply Option.ext
  intro parts
  rw [List.dropInfix?_go_eq_some_iff, Option.map_eq_some_iff]
  constructor
  · intro h
    obtain ⟨before, hbefore, hfirst⟩ := h
    exact ⟨(before, parts.2), List.dropInfix?_eq_some_iff.mpr hfirst, Prod.ext hbefore.symm rfl⟩
  · intro h
    obtain ⟨found, hfound, hparts⟩ := h
    rw [← hparts]
    exact ⟨found.1, rfl, List.dropInfix?_eq_some_iff.mp hfound⟩

/-- The search goes on where the needle does not begin. -/
theorem dropInfix?_cons {x : α} {s : List α} (h : ¬ needle <+: x :: s) :
    (x :: s).dropInfix? needle = (s.dropInfix? needle).map fun p => (x :: p.1, p.2) := by
  have hstart : (x :: s).dropPrefix? needle = none := by
    cases hdrop : (x :: s).dropPrefix? needle with
    | none => rfl
    | some rest =>
      obtain ⟨found, hs, hfound⟩ := List.dropPrefix?_eq_some_iff.mp hdrop
      exact absurd ⟨rest, by rw [hs, eq_of_beq hfound]⟩ h
  rw [List.dropInfix?, List.dropInfix?.go, hstart]
  exact dropInfix?_go needle s [x]

theorem not_infix_of_dropInfix? {s : List α} (hne : needle ≠ []) (h : s.dropInfix? needle = none) :
    ¬ needle <:+: s := by
  induction s with
  | nil => exact fun hnil => hne (List.infix_nil.mp hnil)
  | cons x s ih =>
    have hstart : ¬ needle <+: x :: s := by
      intro hhere
      obtain ⟨rest, hrest⟩ := hhere
      rw [← hrest, dropInfix?_start] at h
      cases h
    rw [dropInfix?_cons hstart, Option.map_eq_none_iff] at h
    exact fun hin => (List.infix_cons_iff.mp hin).elim hstart (ih h)

end Splice
