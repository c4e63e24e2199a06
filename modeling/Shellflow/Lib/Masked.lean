import Mathlib.Data.List.Basic
import Mathlib.Data.List.Infix

/-! Texts in which runs of elements were hidden behind one fixed mask. A text is given with a
mark on every element, and what can be read off the masked text is told by the marks. -/
namespace Masked
variable {α : Type*}

/-- `Hides mask l out`: the unmarked elements of `l` stand in `out` as they are, and every run
of marked ones is cut into nonempty pieces that each became one `mask`. -/
inductive Hides (mask : List α) : List (α × Bool) → List α → Prop
  | nil : Hides mask [] []
  | keep (x : α) {l : List (α × Bool)} {out : List α} (rest : Hides mask l out) :
      Hides mask ((x, false) :: l) (x :: out)
  | hide {run l : List (α × Bool)} {out : List α} (hne : run ≠ []) (hrun : ∀ p ∈ run, p.2 = true)
      (rest : Hides mask l out) : Hides mask (run ++ l) (mask ++ out)

/-- The elements as unmarked ones. -/
def plain (s : List α) : List (α × Bool) := s.map fun x => (x, false)

variable {mask : List α} {l l' : List (α × Bool)} {out out' s s' : List α}

@[simp] theorem plain_nil : plain ([] : List α) = [] := rfl

@[simp] theorem plain_cons (x : α) (s : List α) : plain (x :: s) = (x, false) :: plain s := rfl

@[simp] theorem length_plain (s : List α) : (plain s).length = s.length := by simp [plain]

@[simp] theorem map_fst_plain (s : List α) : (plain s).map Prod.fst = s := by
  simp [plain, Function.comp_def]

theorem snd_of_mem_plain {p : α × Bool} (h : p ∈ plain s) : p.2 = false := by
  obtain ⟨x, -, rfl⟩ := List.mem_map.mp h
  rfl

theorem eq_plain (h : ∀ p ∈ l, p.2 = false) : l = plain (l.map Prod.fst) := by
  induction l with
  | nil => rfl
  | cons p l ih =>
    obtain ⟨x, b⟩ := p
    have hb : b = false := h (x, b) List.mem_cons_self
    have htail := ih fun q hq => h q (List.mem_cons_of_mem _ hq)
    rw [List.map_cons, plain_cons, ← htail, hb]

theorem Hides.append (h : Hides mask l out) (h' : Hides mask l' out') :
    Hides mask (l ++ l') (out ++ out') := by
  induction h with
  | nil => exact h'
  | keep x _ ih => exact Hides.keep x ih
  | hide hne hrun _ ih =>
    rw [List.append_assoc, List.append_assoc]
    exact Hides.hide hne hrun ih

theorem hides_plain (s : List α) : Hides mask (plain s) s := by
  induction s with
  | nil => exact Hides.nil
  | cons x s ih => exact Hides.keep x ih

theorem hides_run (hne : l ≠ []) (hl : ∀ p ∈ l, p.2 = true) : Hides mask l mask := by
  have h : Hides mask (l ++ []) (mask ++ []) := Hides.hide hne hl Hides.nil
  simpa using h

theorem Hides.eq_nil (h : Hides mask l []) (hmask : mask ≠ []) : l = [] := by
  generalize hout : ([] : List α) = out at h
  cases h with
  | nil => rfl
  | keep x rest => cases hout
  | hide hne hrun rest => exact absurd (List.append_eq_nil_iff.mp hout.symm).1 hmask

/-- A masked text can be cut before any element that is not the mask's. -/
theorem Hides.cut {x : α} (h : Hides mask l (out ++ x :: out')) (hx : x ∉ mask) :
    ∃ l₁ l₂, l = l₁ ++ l₂ ∧ Hides mask l₁ out ∧ Hides mask l₂ (x :: out') := by
  generalize hwhole : out ++ x :: out' = whole at h
  induction h generalizing out with
  | nil => cases out <;> cases hwhole
  | @keep y l rest h ih =>
    cases out with
    | nil =>
      rw [List.nil_append] at hwhole
      exact ⟨[], (y, false) :: l, rfl, Hides.nil, hwhole ▸ Hides.keep y h⟩
    | cons z out =>
      obtain ⟨rfl, hrest⟩ := List.cons.inj hwhole
      obtain ⟨l₁, l₂, rfl, h₁, h₂⟩ := ih hrest
      exact ⟨(z, false) :: l₁, l₂, rfl, Hides.keep z h₁, h₂⟩
  | @hide run l rest hne hrun h ih =>
    rcases List.append_eq_append_iff.mp hwhole with ⟨c, hmask, hc⟩ | ⟨c, hout, hrest⟩
    · cases c with
      | nil =>
        rw [List.append_nil] at hmask
        rw [List.nil_append] at hc
        subst hmask
        exact ⟨run, l, rfl, hides_run hne hrun, hc ▸ h⟩
      | cons y c =>
        obtain ⟨rfl, -⟩ := List.cons.inj hc
        exact absurd (hmask ▸ List.mem_append_right out List.mem_cons_self) hx
    · obtain ⟨l₁, l₂, rfl, h₁, h₂⟩ := ih hrest.symm
      refine ⟨run ++ l₁, l₂, (List.append_assoc run l₁ l₂).symm, ?_, h₂⟩
      rw [hout]
      exact Hides.hide hne hrun h₁

/-- A prefix without the mask's first element was not hidden. -/
theorem Hides.of_start {m : α} {tail : List α} (h : Hides (m :: tail) l (s ++ out))
    (hm : m ∉ s) : ∃ l', l = plain s ++ l' ∧ Hides (m :: tail) l' out := by
  induction s generalizing l with
  | nil => exact ⟨l, rfl, h⟩
  | cons x s ih =>
    generalize hwhole : x :: s ++ out = whole at h
    cases h with
    | nil => cases hwhole
    | keep y rest =>
      obtain ⟨rfl, rfl⟩ := List.cons.inj hwhole
      obtain ⟨l', rfl, hrest⟩ := ih rest fun hmem => hm (List.mem_cons_of_mem x hmem)
      exact ⟨l', rfl, hrest⟩
    | hide hne hrun rest =>
      obtain ⟨rfl, -⟩ := List.cons.inj hwhole
      exact absurd List.mem_cons_self hm

/-- A suffix without the mask's elements was not hidden. -/
theorem Hides.of_end {m : α} {tail : List α} (h : Hides (m :: tail) l (out ++ s))
    (hs : ∀ x ∈ s, x ∉ m :: tail) (hne : s ≠ []) :
    ∃ l', l = l' ++ plain s := by
  obtain ⟨x, t, rfl⟩ := List.exists_cons_of_ne_nil hne
  obtain ⟨l₁, l₂, rfl, -, h₂⟩ := h.cut (hs x List.mem_cons_self)
  have hm : m ∉ x :: t := fun hmem => hs m hmem List.mem_cons_self
  rw [← List.append_nil (x :: t)] at h₂
  obtain ⟨l', hl', hrest⟩ := Hides.of_start h₂ hm
  rw [hrest.eq_nil (List.cons_ne_nil m tail), List.append_nil] at hl'
  exact ⟨l₁, by rw [hl']⟩

/-- A part without the mask's elements was not hidden. -/
theorem Hides.of_part {m : α} {tail : List α} (h : Hides (m :: tail) l out)
    (hs : ∀ x ∈ s, x ∉ m :: tail) (hne : s ≠ []) (hpart : s <:+: out) :
    ∃ l₁ l₂, l = l₁ ++ plain s ++ l₂ := by
  obtain ⟨a, b, rfl⟩ := hpart
  obtain ⟨x, t, rfl⟩ := List.exists_cons_of_ne_nil hne
  rw [List.append_assoc, List.cons_append] at h
  obtain ⟨l₁, l₂, rfl, -, h₂⟩ := h.cut (hs x List.mem_cons_self)
  have hm : m ∉ x :: t := fun hmem => hs m hmem List.mem_cons_self
  obtain ⟨l', rfl, -⟩ := Hides.of_start (s := x :: t) h₂ hm
  exact ⟨l₁, l', by rw [List.append_assoc]⟩

theorem Hides.of_plain (h : Hides mask (plain s) out) : out = s := by
  generalize hl : plain s = l at h
  induction h generalizing s with
  | nil => exact (List.map_eq_nil_iff.mp hl).symm
  | keep x _ ih =>
    obtain ⟨y, s, rfl⟩ : ∃ y t, s = y :: t := by
      cases s with
      | nil => cases hl
      | cons y t => exact ⟨y, t, rfl⟩
    obtain ⟨hxy, hrest⟩ := List.cons.inj hl
    rw [ih hrest, (Prod.mk.inj hxy).1]
  | @hide run rest out hne hrun _ _ =>
    obtain ⟨p, t, rfl⟩ := List.exists_cons_of_ne_nil hne
    have hmem : p ∈ plain s := hl ▸ List.mem_append_left rest List.mem_cons_self
    have hfalse : p.2 = false := snd_of_mem_plain hmem
    rw [hrun p List.mem_cons_self] at hfalse
    cases hfalse

theorem Hides.of_nil (h : Hides mask [] out) : out = [] := Hides.of_plain (s := []) h

/-- A masked text can be cut at an element that was not hidden. -/
theorem Hides.split {x : α} (h : Hides mask (l ++ (x, false) :: l') out) :
    ∃ a b, out = a ++ x :: b ∧ Hides mask l a ∧ Hides mask l' b := by
  generalize hwhole : l ++ (x, false) :: l' = whole at h
  induction h generalizing l with
  | nil => cases l <;> cases hwhole
  | @keep y rest out h ih =>
    cases l with
    | nil =>
      obtain ⟨hxy, rfl⟩ := List.cons.inj hwhole
      exact ⟨[], out, by rw [(Prod.mk.inj hxy).1]; rfl, Hides.nil, h⟩
    | cons p l =>
      obtain ⟨rfl, hrest⟩ := List.cons.inj hwhole
      obtain ⟨a, b, rfl, ha, hb⟩ := ih hrest
      exact ⟨y :: a, b, rfl, Hides.keep y ha, hb⟩
  | @hide run rest out hne hrun h ih =>
    rcases List.append_eq_append_iff.mp hwhole with ⟨c, hrun', hc⟩ | ⟨c, hl, hrest⟩
    · cases c with
      | nil =>
        obtain ⟨a, b, rfl, ha, hb⟩ := ih (l := []) hc
        rw [ha.of_nil, List.nil_append, List.append_nil] at *
        subst hrun'
        exact ⟨mask, b, rfl, hides_run hne hrun, hb⟩
      | cons p c =>
        obtain ⟨hp, -⟩ := List.cons.inj hc
        have hmem := hrun p (hrun' ▸ List.mem_append_right l List.mem_cons_self)
        rw [← hp] at hmem
        cases hmem
    · obtain ⟨a, b, rfl, ha, hb⟩ := ih hrest.symm
      exact ⟨mask ++ a, b, (List.append_assoc mask a _).symm, hl ▸ Hides.hide hne hrun ha, hb⟩

theorem Hides.start (h : Hides mask (plain s ++ l) out) :
    ∃ b, out = s ++ b ∧ Hides mask l b := by
  induction s generalizing out with
  | nil => exact ⟨out, rfl, h⟩
  | cons x s ih =>
    obtain ⟨a, b, rfl, ha, hb⟩ := Hides.split (l := []) h
    obtain ⟨rest, rfl, hrest⟩ := ih hb
    exact ⟨rest, by rw [ha.of_nil]; rfl, hrest⟩

/-- What a masked text ends in. -/
theorem Hides.getLast? {m : α} (h : Hides mask l out) (hm : mask.getLast? = some m) :
    out.getLast? = l.getLast?.map fun p => if p.2 then m else p.1 := by
  induction h with
  | nil => rfl
  | @keep x l out h ih =>
    rw [List.getLast?_cons, List.getLast?_cons, ih]
    cases l.getLast? <;> rfl
  | @hide run l out hne hrun h ih =>
    rw [List.getLast?_append, List.getLast?_append, ih]
    cases hlast : l.getLast? with
    | some p => rfl
    | none =>
      have hend := hrun _ (List.getLast_mem hne)
      simp [List.getLast?_eq_some_getLast hne, hend, hm]

/-- What a masked text begins with. -/
theorem Hides.head? {m : α} (h : Hides mask l out) (hm : mask.head? = some m) :
    out.head? = l.head?.map fun p => if p.2 then m else p.1 := by
  cases h with
  | nil => rfl
  | keep x h => rfl
  | @hide run l out hne hrun h =>
    obtain ⟨p, run, rfl⟩ := List.exists_cons_of_ne_nil hne
    simp [hrun p List.mem_cons_self, hm]

/-- What was not hidden at the end still stands there. -/
theorem Hides.end_of_plain (h : Hides mask (l ++ plain s) out) : s <:+ out := by
  generalize hwhole : l ++ plain s = whole at h
  induction h generalizing l with
  | nil =>
    obtain ⟨-, hs⟩ := List.append_eq_nil_iff.mp hwhole
    rw [plain, List.map_eq_nil_iff] at hs
    exact hs ▸ List.suffix_rfl
  | @keep x rest out h ih =>
    cases l with
    | nil =>
      have hout : x :: out = s := by
        rw [List.nil_append] at hwhole
        exact Hides.of_plain (hwhole ▸ Hides.keep x h)
      exact hout ▸ List.suffix_rfl
    | cons p l =>
      obtain ⟨-, hrest⟩ := List.cons.inj hwhole
      exact (ih hrest).trans (List.suffix_cons x out)
  | @hide run rest out hne hrun h ih =>
    rcases List.append_eq_append_iff.mp hwhole with ⟨c, hrun', hc⟩ | ⟨c, hl, hrest⟩
    · cases c with
      | nil =>
        have hout : out = s := by
          rw [List.nil_append] at hc
          exact Hides.of_plain (hc ▸ h)
        exact hout ▸ List.suffix_append mask out
      | cons p c =>
        have hfalse : p.2 = false :=
          snd_of_mem_plain (hc ▸ List.mem_append_left rest List.mem_cons_self)
        rw [hrun p (hrun' ▸ List.mem_append_right l List.mem_cons_self)] at hfalse
        cases hfalse
    · exact (ih hrest.symm).trans (List.suffix_append mask out)

/-- A part without `x` lies on one side of it. -/
theorem infix_append_cons_of_notMem {x : α} {a b v : List α} (hx : x ∉ v)
    (h : v <:+: a ++ x :: b) : v <:+: a ∨ v <:+: b := by
  rcases List.infix_append_iff_ne_nil.mp h with hbefore | hafter | ⟨p, r, -, hr, rfl, -, hstart⟩
  · exact Or.inl hbefore
  · rcases List.infix_cons_iff.mp hafter with hstart | hlater
    · cases v with
      | nil => exact Or.inl List.nil_infix
      | cons y v =>
        obtain ⟨rfl, -⟩ := List.cons_prefix_cons.mp hstart
        exact absurd List.mem_cons_self hx
    · exact Or.inr hlater
  · obtain ⟨y, r, rfl⟩ := List.exists_cons_of_ne_nil hr
    obtain ⟨rfl, -⟩ := List.cons_prefix_cons.mp hstart
    exact absurd (List.mem_append_right p List.mem_cons_self) hx

/-- The second text is the first one with some of its parts hidden. -/
def Redacts (mask s out : List α) : Prop := ∃ l, l.map Prod.fst = s ∧ Hides mask l out

theorem Redacts.refl (mask s : List α) : Redacts mask s s := ⟨plain s, map_fst_plain s, hides_plain s⟩

theorem Redacts.append (h : Redacts mask s out) (h' : Redacts mask s' out') :
    Redacts mask (s ++ s') (out ++ out') := by
  obtain ⟨l, rfl, hl⟩ := h
  obtain ⟨l', rfl, hl'⟩ := h'
  exact ⟨l ++ l', List.map_append, hl.append hl'⟩

theorem Redacts.whole (mask : List α) (hne : s ≠ []) : Redacts mask s mask := by
  refine ⟨s.map fun x => (x, true), by simp [Function.comp_def], hides_run (by simpa using hne) ?_⟩
  intro p hp
  obtain ⟨x, -, rfl⟩ := List.mem_map.mp hp
  rfl

/-- A part without the mask's elements stood in the text before. -/
theorem Redacts.part {m : α} {tail v : List α} (h : Redacts (m :: tail) s out) (hv : ∀ x ∈ v, x ∉ m :: tail)
    (hpart : v <:+: out) : v <:+: s := by
  by_cases hne : v = []
  · rw [hne]
    exact List.nil_infix
  · obtain ⟨l, rfl, hl⟩ := h
    obtain ⟨l₁, l₂, rfl⟩ := hl.of_part hv hne hpart
    refine ⟨l₁.map Prod.fst, l₂.map Prod.fst, ?_⟩
    rw [List.map_append, List.map_append, map_fst_plain]

end Masked
