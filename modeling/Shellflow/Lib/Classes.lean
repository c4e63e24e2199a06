import Mathlib.Data.List.Basic
import Mathlib.Data.List.Perm.Basic
import Mathlib.Data.List.Induction

/-! Collecting items under an optional key in one pass: an index table says which group gathers the
items of a key. The pass computes the classes of the items, and an item without a key is alone. -/
namespace Classes
variable {α κ : Type*} [DecidableEq κ]

def together (key : α → Option κ) (a b : α) : Bool := (key a).isSome && key a == key b

/-- The groups in the order of their first items, each in the order of the list. -/
def classes (key : α → Option κ) : List α → List (List α)
  | [] => []
  | a :: l =>
    (a :: l.filter (together key a)) :: (classes key l).filter fun c => !c.any (together key a)

/-- The groups so far, and which of them gathers the items of a key. -/
structure Table (α κ : Type*) where
  groups : List (List α)
  index : List (κ × Nat)

def add (key : α → Option κ) (t : Table α κ) (a : α) : Table α κ :=
  match key a with
  | none => { t with groups := t.groups ++ [[a]] }
  | some k =>
    match t.index.lookup k with
    | some i => { t with groups := t.groups.modify i fun c => c ++ [a] }
    | none => ⟨t.groups ++ [[a]], t.index ++ [(k, t.groups.length)]⟩

def collect (key : α → Option κ) (l : List α) : Table α κ := l.foldl (add key) ⟨[], []⟩

section Together
variable {key : α → Option κ} {a b c : α}

theorem together_iff : together key a b = true ↔ ∃ k, key a = some k ∧ key b = some k := by
  cases ha : key a with
  | none => simp [together, ha]
  | some k =>
    simp only [together, ha, Option.isSome_some, Bool.true_and, beq_iff_eq]
    constructor
    · exact fun h => ⟨k, rfl, h.symm⟩
    · intro h
      obtain ⟨k', hk, hb⟩ := h
      rw [hb, hk]

theorem together_comm : together key a b = together key b a := by
  rw [Bool.eq_iff_iff, together_iff, together_iff]
  exact exists_congr fun _ => and_comm

theorem together_congr (h : together key a b = true) : together key a = together key b := by
  funext c
  obtain ⟨k, ha, hb⟩ := together_iff.mp h
  rw [together, together, ha, hb]

end Together

section Classes
variable {key : α → Option κ} {l : List α} {a b : α} {c : List α}

theorem ne_nil_of_mem (h : c ∈ classes key l) : c ≠ [] := by
  induction l with
  | nil => cases h
  | cons a l ih =>
    cases List.mem_cons.mp h with
    | inl hc => exact hc ▸ List.cons_ne_nil _ _
    | inr hc => exact ih (List.mem_filter.mp hc).1

/-- The items of a group are in the order of the list. -/
theorem sublist_of_mem (h : c ∈ classes key l) : c.Sublist l := by
  induction l with
  | nil => cases h
  | cons a l ih =>
    cases List.mem_cons.mp h with
    | inl hc => exact hc ▸ List.filter_sublist.cons_cons a
    | inr hc => exact (ih (List.mem_filter.mp hc).1).cons a

/-- A group has one item, or all its items have one key. -/
theorem keyed_of_mem (h : c ∈ classes key l) :
    (∃ a, c = [a]) ∨ ∃ k, ∀ a ∈ c, key a = some k := by
  induction l with
  | nil => cases h
  | cons a l ih =>
    cases List.mem_cons.mp h with
    | inr hc => exact ih (List.mem_filter.mp hc).1
    | inl hc =>
      rw [hc]
      cases hkey : key a with
      | none => exact .inl ⟨a, by simp [together, hkey]⟩
      | some k =>
        refine .inr ⟨k, List.forall_mem_cons.mpr ⟨hkey, fun b hb => ?_⟩⟩
        obtain ⟨k', ha, hb⟩ := together_iff.mp (List.mem_filter.mp hb).2
        rw [hb, ← ha, hkey]

theorem all_of_any (h : c ∈ classes key l) (hany : c.any (together key a) = true) :
    ∀ b ∈ c, together key a b = true := by
  intro b hb
  obtain ⟨x, hx, hax⟩ := List.any_eq_true.mp hany
  cases keyed_of_mem h with
  | inl hone =>
    obtain ⟨y, rfl⟩ := hone
    rw [List.mem_singleton.mp hb, ← List.mem_singleton.mp hx, hax]
  | inr hkeyed =>
    obtain ⟨k, hk⟩ := hkeyed
    rw [together_congr hax]
    exact together_iff.mpr ⟨k, hk x hx, hk b hb⟩

/-- The groups that have no item of the key of `a` hold all the items without it. -/
theorem flatten_filter_perm (hl : (classes key l).flatten.Perm l) (a : α) :
    (l.filter (together key a) ++
      ((classes key l).filter fun c => !c.any (together key a)).flatten).Perm l := by
  have hsplit : ∀ cs : List (List α),
      (∀ c ∈ cs, c.any (together key a) = true → ∀ b ∈ c, together key a b = true) →
      (cs.flatten.filter (together key a) ++
        (cs.filter fun c => !c.any (together key a)).flatten).Perm cs.flatten := by
    intro cs
    induction cs with
    | nil => simp
    | cons c cs ih =>
      intro hcs
      obtain ⟨hc, hcs⟩ := List.forall_mem_cons.mp hcs
      have hih := ih hcs
      by_cases hany : c.any (together key a) = true
      · have hall : c.filter (together key a) = c := List.filter_eq_self.mpr (hc hany)
        rw [List.filter_cons_of_neg (by simp [hany]), List.flatten_cons, List.filter_append, hall,
          List.append_assoc]
        exact hih.append_left c
      · have hnone : c.filter (together key a) = [] := by
          rw [List.filter_eq_nil_iff]
          exact fun x hx hax => hany (List.any_eq_true.mpr ⟨x, hx, hax⟩)
        rw [List.filter_cons_of_pos (by simp [hany]), List.flatten_cons, List.flatten_cons,
          List.filter_append, hnone, List.nil_append]
        calc
          _ = (cs.flatten.filter (together key a) ++ c) ++
                (cs.filter fun c => !c.any (together key a)).flatten := by rw [List.append_assoc]
          List.Perm _ ((c ++ cs.flatten.filter (together key a)) ++
                (cs.filter fun c => !c.any (together key a)).flatten) :=
            List.perm_append_comm.append_right _
          _ = c ++ (cs.flatten.filter (together key a) ++
                (cs.filter fun c => !c.any (together key a)).flatten) := by rw [List.append_assoc]
          List.Perm _ (c ++ cs.flatten) := hih.append_left c
  have hfilter := hl.filter (together key a)
  exact ((hfilter.symm.append_right _).trans
    (hsplit _ fun c hc => all_of_any hc)).trans hl

/-- Every item is in exactly one group. -/
theorem flatten_perm (key : α → Option κ) (l : List α) : (classes key l).flatten.Perm l := by
  induction l with
  | nil => exact List.Perm.refl _
  | cons a l ih =>
    rw [classes, List.flatten_cons, List.cons_append]
    exact (flatten_filter_perm ih a).cons a

theorem any_of_mem (h : c ∈ classes key l) (hany : c.any (together key a) = true) :
    l.any (together key a) = true := by
  obtain ⟨x, hx, hax⟩ := List.any_eq_true.mp hany
  exact List.any_eq_true.mpr ⟨x, (sublist_of_mem h).subset hx, hax⟩

/-- One more item joins the group of its key, or is the first of a group. -/
theorem classes_concat (key : α → Option κ) (l : List α) (b : α) :
    classes key (l ++ [b]) =
      if l.any (together key b) then
        (classes key l).map fun c => if c.any (together key b) then c ++ [b] else c
      else classes key l ++ [[b]] := by
  induction l with
  | nil => simp [classes]
  | cons a l ih =>
    rw [List.cons_append, classes, classes, ih]
    by_cases hab : together key b a = true
    · have hba : together key a b = true := by rw [together_comm, hab]
      have hsame : together key a = together key b := together_congr hba
      have hany : (a :: l).any (together key b) = true := by rw [List.any_cons, hab, Bool.true_or]
      have hfirst : (a :: l.filter (together key a)).any (together key b) = true := by
        rw [List.any_cons, hab, Bool.true_or]
      rw [if_pos hany, List.map_cons, if_pos hfirst, List.filter_append,
        List.filter_cons_of_pos (by simp [hba]), List.filter_nil, hsame, List.cons_append]
      refine congrArg (List.cons _) ?_
      by_cases hl : l.any (together key b) = true
      · rw [if_pos hl]
        have hrest : ∀ cs : List (List α),
            (cs.map fun c => if c.any (together key b) then c ++ [b] else c).filter
              (fun c => !c.any (together key b)) =
            (cs.filter fun c => !c.any (together key b)).map
              fun c => if c.any (together key b) then c ++ [b] else c := by
          intro cs
          rw [List.filter_map]
          congr 1
          refine List.filter_congr fun c _ => ?_
          by_cases hc : c.any (together key b) = true
          · simp [Function.comp, hc]
          · simp [Function.comp, hc]
        exact hrest _
      · have hbb : together key b b = true := by rw [← hsame, hba]
        rw [if_neg hl, List.filter_append, List.filter_cons_of_neg (by simp [hbb]), List.filter_nil,
          List.append_nil]
        symm
        refine (List.map_congr_left fun c hc => ?_).trans (List.map_id _)
        have hno : ¬ c.any (together key b) = true := by simpa using (List.mem_filter.mp hc).2
        rw [if_neg hno, id]
    · have hba : ¬ together key a b = true := by rw [together_comm]; exact hab
      have hfirst : (a :: (l ++ [b]).filter (together key a)) = a :: l.filter (together key a) := by
        rw [List.filter_append, List.filter_cons_of_neg hba, List.filter_nil, List.append_nil]
      have hnone : ¬ (a :: l.filter (together key a)).any (together key b) = true := by
        intro hany
        obtain ⟨x, hx, hbx⟩ := List.any_eq_true.mp hany
        cases List.mem_cons.mp hx with
        | inl hxa => exact hab (hxa ▸ hbx)
        | inr hxl =>
          have hax := (List.mem_filter.mp hxl).2
          rw [together_congr hax, together_comm] at hba
          exact hba hbx
      rw [hfirst, List.any_cons, Bool.eq_false_iff.mpr hab, Bool.false_or]
      by_cases hl : l.any (together key b) = true
      · rw [if_pos hl, if_pos hl, List.map_cons, if_neg hnone]
        congr 1
        rw [List.filter_map]
        congr 1
        refine List.filter_congr fun c _ => ?_
        by_cases hc : c.any (together key b) = true
        · simp [Function.comp, hc, Bool.eq_false_iff.mpr hba]
        · simp [Function.comp, hc]
      · rw [if_neg hl, if_neg hl, List.filter_append, List.filter_cons_of_pos (by simp [hba]),
          List.filter_nil, List.cons_append]

end Classes

section Table
variable {key : α → Option κ} {t : Table α κ} {l : List α} {a b : α}

/-- The index names, for a key, the one group that has an item with it. -/
structure Indexed (key : α → Option κ) (t : Table α κ) : Prop where
  place : ∀ k i, t.index.lookup k = some i → i < t.groups.length
  only : ∀ k j c, t.groups[j]? = some c →
    ((∃ a ∈ c, key a = some k) ↔ t.index.lookup k = some j)

theorem getElem?_concat {cs : List (List α)} {last c : List α} {j : Nat}
    (h : (cs ++ [last])[j]? = some c) : cs[j]? = some c ∨ (j = cs.length ∧ c = last) := by
  rw [List.getElem?_append] at h
  by_cases hj : j < cs.length
  · rw [if_pos hj] at h
    exact .inl h
  · rw [if_neg hj, List.getElem?_singleton] at h
    obtain ⟨hzero, hlast⟩ := Option.ite_none_right_eq_some.mp h
    exact .inr ⟨by omega, (Option.some.inj hlast).symm⟩

theorem indexed_alone (h : Indexed key t) (hkey : key a = none) :
    Indexed key { t with groups := t.groups ++ [[a]] } where
  place k i hi := by
    rw [List.length_append]
    exact Nat.lt_add_right _ (h.place k i hi)
  only k j c hc := by
    cases getElem?_concat hc with
    | inl hold => exact h.only k j c hold
    | inr hnew =>
      obtain ⟨rfl, rfl⟩ := hnew
      constructor
      · simp [hkey]
      · exact fun hi => absurd (h.place k _ hi) (Nat.lt_irrefl _)

theorem indexed_joined (h : Indexed key t) {k : κ} {i : Nat} (hkey : key a = some k)
    (hi : t.index.lookup k = some i) :
    Indexed key { t with groups := t.groups.modify i fun c => c ++ [a] } where
  place k' j hj := by
    rw [List.length_modify]
    exact h.place k' j hj
  only k' j c hc := by
    rw [List.getElem?_modify] at hc
    obtain ⟨old, hold, hc⟩ := Option.map_eq_some_iff.mp hc
    by_cases hij : i = j
    · rw [if_pos hij] at hc
      have hone := h.only k' j old hold
      rw [← hc]
      simp only [List.mem_append, List.mem_singleton, or_and_right, exists_or, exists_eq_left, hone,
        hkey, Option.some.injEq]
      constructor
      · intro hor
        cases hor with
        | inl hlook => exact hlook
        | inr hk => rw [← hk, ← hij]; exact hi
      · exact .inl
    · rw [if_neg hij] at hc
      exact h.only k' j c (hold.trans (congrArg some hc))

theorem indexed_first (h : Indexed key t) {k : κ} (hkey : key a = some k)
    (hi : t.index.lookup k = none) :
    Indexed key ⟨t.groups ++ [[a]], t.index ++ [(k, t.groups.length)]⟩ := by
  have hlook : ∀ k', (t.index ++ [(k, t.groups.length)]).lookup k' =
      (t.index.lookup k').or (if k' = k then some t.groups.length else none) := by
    intro k'
    rw [List.lookup_append]
    by_cases hk : k' = k
    · simp [hk]
    · simp [List.lookup_cons, beq_eq_false_iff_ne.mpr hk, hk]
  constructor
  · intro k' i hk'
    rw [hlook] at hk'
    rw [List.length_append]
    cases Option.or_eq_some_iff.mp hk' with
    | inl hold => exact Nat.lt_add_right _ (h.place k' i hold)
    | inr hnew =>
      obtain ⟨-, hlen⟩ := Option.ite_none_right_eq_some.mp hnew.2
      rw [← Option.some.inj hlen]
      exact Nat.lt_succ_self _
  · intro k' j c hc
    rw [hlook]
    cases getElem?_concat hc with
    | inl hold =>
      have hj : j < t.groups.length := (List.getElem?_eq_some_iff.mp hold).1
      rw [h.only k' j c hold, Option.or_eq_some_iff]
      constructor
      · exact .inl
      · intro hor
        cases hor with
        | inl hk' => exact hk'
        | inr hnew =>
          obtain ⟨-, hlen⟩ := Option.ite_none_right_eq_some.mp hnew.2
          exact absurd (Option.some.inj hlen) (Nat.ne_of_gt hj)
    | inr hnew =>
      obtain ⟨rfl, rfl⟩ := hnew
      simp only [List.mem_singleton, exists_eq_left, hkey, Option.some.injEq]
      constructor
      · intro hk
        rw [← hk, hi, if_pos rfl]
        rfl
      · intro hor
        cases Option.or_eq_some_iff.mp hor with
        | inl hold => exact absurd (h.place k' _ hold) (Nat.lt_irrefl _)
        | inr hnew => exact (Option.ite_none_right_eq_some.mp hnew.2).1.symm

theorem indexed_add (h : Indexed key t) (a : α) : Indexed key (add key t a) := by
  cases hkey : key a with
  | none =>
    simp only [add, hkey]
    exact indexed_alone h hkey
  | some k =>
    cases hi : t.index.lookup k with
    | none =>
      simp only [add, hkey, hi]
      exact indexed_first h hkey hi
    | some i =>
      simp only [add, hkey, hi]
      exact indexed_joined h hkey hi

theorem collect_concat (key : α → Option κ) (l : List α) (b : α) :
    collect key (l ++ [b]) = add key (collect key l) b := by
  rw [collect, List.foldl_append, List.foldl_cons, List.foldl_nil, ← collect]

theorem indexed_collect (key : α → Option κ) (l : List α) : Indexed key (collect key l) := by
  induction l using List.reverseRecOn with
  | nil =>
    constructor
    · intro k i hi
      cases hi
    · intro k j c hc
      simp [collect] at hc
  | append_singleton l b ih =>
    rw [collect_concat]
    exact indexed_add ih b

theorem groups_add (hl : t.groups = classes key l) (h : Indexed key t) :
    (add key t b).groups = classes key (l ++ [b]) := by
  have hmem : ∀ c, c ∈ t.groups → ∀ x ∈ c, x ∈ l := fun c hc x hx =>
    (sublist_of_mem (hl ▸ hc)).subset hx
  rw [classes_concat]
  cases hkey : key b with
  | none =>
    have hno : ¬ l.any (together key b) = true := by simp [together, hkey]
    rw [if_neg hno, ← hl]
    simp only [add, hkey]
  | some k =>
    have htog : ∀ x, together key b x = true ↔ key x = some k := by
      intro x
      rw [together_iff, hkey]
      constructor
      · intro hx
        obtain ⟨k', hk, hx⟩ := hx
        rw [hx, hk]
      · exact fun hx => ⟨k, rfl, hx⟩
    cases hi : t.index.lookup k with
    | none =>
      have hno : ¬ l.any (together key b) = true := by
        intro hany
        obtain ⟨x, hx, hbx⟩ := List.any_eq_true.mp hany
        obtain ⟨c, hc, hxc⟩ := List.mem_flatten.mp ((flatten_perm key l).mem_iff.mpr hx)
        obtain ⟨j, hj⟩ := List.mem_iff_getElem?.mp (hl ▸ hc)
        rw [(h.only k j c hj).mp ⟨x, hxc, (htog x).mp hbx⟩] at hi
        cases hi
      rw [if_neg hno, ← hl]
      simp only [add, hkey, hi]
    | some i =>
      have hlen := h.place k i hi
      have hc : t.groups[i]? = some t.groups[i] := List.getElem?_eq_getElem hlen
      obtain ⟨x, hx, hkx⟩ := (h.only k i _ hc).mpr hi
      have hany : l.any (together key b) = true :=
        List.any_eq_true.mpr ⟨x, hmem _ (List.getElem_mem hlen) x hx, (htog x).mpr hkx⟩
      rw [if_pos hany, ← hl]
      simp only [add, hkey, hi]
      refine List.ext_getElem? fun j => ?_
      rw [List.getElem?_modify, List.getElem?_map]
      cases hj : t.groups[j]? with
      | none => rfl
      | some c =>
        have hiff : c.any (together key b) = true ↔ i = j := by
          rw [List.any_eq_true]
          simp only [htog]
          rw [h.only k j c hj, hi, Option.some.injEq]
        rw [Option.map_eq_map, Option.map_some, Option.map_some]
        by_cases hij : i = j
        · rw [if_pos hij, if_pos (hiff.mpr hij)]
        · rw [if_neg hij, if_neg (hij ∘ hiff.mp)]

/-- One pass with an index table computes the classes. -/
theorem groups_collect (key : α → Option κ) (l : List α) :
    (collect key l).groups = classes key l := by
  induction l using List.reverseRecOn with
  | nil => rfl
  | append_singleton l b ih =>
    rw [collect_concat]
    exact groups_add ih (indexed_collect key l)

end Table

end Classes
