import Mathlib.Data.List.Sort

/-! A stable sort by a key: what it leaves of each key, and lists that it cannot tell apart. -/
namespace StableSort
variable {α β γ : Type*} [LinearOrder β] {key : α → β}

def sorted (key : α → β) (l : List α) : List α := l.insertionSort fun a b => key a ≤ key b

theorem sorted_perm (l : List α) : (sorted key l).Perm l := List.perm_insertionSort _ l

theorem sorted_pairwise (l : List α) : (sorted key l).Pairwise fun a b => key a ≤ key b := by
  have htotal : Std.Total fun a b => key a ≤ key b := ⟨fun a b => le_total (key a) (key b)⟩
  have htrans : IsTrans α fun a b => key a ≤ key b := ⟨fun _ _ _ => le_trans⟩
  exact List.pairwise_insertionSort _ l

/-- The elements of one key keep their order. -/
theorem filter_sorted (k : β) (l : List α) :
    (sorted key l).filter (key · = k) = l.filter (key · = k) := by
  have htotal : Std.Total fun a b => key a ≤ key b := ⟨fun a b => le_total (key a) (key b)⟩
  have htrans : IsTrans α fun a b => key a ≤ key b := ⟨fun _ _ _ => le_trans⟩
  have hequal : (l.filter (key · = k)).Pairwise fun a b => key a ≤ key b := by
    refine List.pairwise_of_forall_mem_list fun a ha b hb => ?_
    rw [of_decide_eq_true (List.mem_filter.mp ha).2, of_decide_eq_true (List.mem_filter.mp hb).2]
  have hsub := (List.sublist_insertionSort hequal List.filter_sublist).filter (key · = k)
  rw [List.filter_filter, funext fun a => Bool.and_self (decide (key a = k))] at hsub
  have hlength := ((@sorted_perm α β _ key l).filter (key · = k)).length_eq
  exact (hsub.eq_of_length hlength.symm).symm

/-- A sorted list is told by what it holds of each key. -/
theorem eq_of_filter {l l' : List α} (hl : l.Pairwise fun a b => key a ≤ key b)
    (hl' : l'.Pairwise fun a b => key a ≤ key b)
    (h : ∀ k, l.filter (key · = k) = l'.filter (key · = k)) : l = l' := by
  have hmem : ∀ a, a ∈ l ↔ a ∈ l' := by
    intro a
    have hfilter : a ∈ l.filter (key · = key a) ↔ a ∈ l'.filter (key · = key a) := by rw [h (key a)]
    simpa using hfilter
  induction l generalizing l' with
  | nil => exact (List.eq_nil_iff_forall_not_mem.mpr fun a ha => List.not_mem_nil ((hmem a).mpr ha)).symm
  | cons a l ih =>
    cases l' with
    | nil => exact absurd ((hmem a).mp List.mem_cons_self) List.not_mem_nil
    | cons b l' =>
      obtain ⟨hfirst, hrest⟩ := List.pairwise_cons.mp hl
      obtain ⟨hfirst', hrest'⟩ := List.pairwise_cons.mp hl'
      have hle : key a ≤ key b := by
        rcases List.mem_cons.mp ((hmem b).mpr List.mem_cons_self) with rfl | hb
        · exact le_rfl
        · exact hfirst b hb
      have hge : key b ≤ key a := by
        rcases List.mem_cons.mp ((hmem a).mp List.mem_cons_self) with rfl | ha
        · exact le_rfl
        · exact hfirst' a ha
      have hkey : key a = key b := le_antisymm hle hge
      have hhead := h (key a)
      rw [List.filter_cons_of_pos (by simp), List.filter_cons_of_pos (by simp [hkey])] at hhead
      obtain ⟨rfl, -⟩ := List.cons.inj hhead
      have htail : ∀ k, l.filter (key · = k) = l'.filter (key · = k) := by
        intro k
        have hk := h k
        by_cases ha : key a = k
        · rw [List.filter_cons_of_pos (by simp [ha]), List.filter_cons_of_pos (by simp [ha])] at hk
          exact (List.cons.inj hk).2
        · rwa [List.filter_cons_of_neg (by simp [ha]), List.filter_cons_of_neg (by simp [ha])] at hk
      refine congrArg (List.cons a) (ih hrest hrest' htail fun c => ?_)
      have hfilter : c ∈ l.filter (key · = key c) ↔ c ∈ l'.filter (key · = key c) := by rw [htail]
      simpa using hfilter

theorem sorted_eq_of_filter {l l' : List α} (h : ∀ k, l.filter (key · = k) = l'.filter (key · = k)) :
    sorted key l = sorted key l' :=
  eq_of_filter (sorted_pairwise l) (sorted_pairwise l') fun k => by
    rw [filter_sorted, filter_sorted, h k]

/-- No key is in the lists of two owners. -/
def Apart (key : α → β) (rows : γ → List α) (a b : γ) : Prop :=
  ∀ r ∈ rows a, ∀ r' ∈ rows b, key r ≠ key r'

/-- Blocks without a common key may come in any order. -/
theorem sorted_flatMap {rows : γ → List α} {owners owners' : List γ}
    (hapart : owners.Pairwise (Apart key rows)) (h : owners.Perm owners') :
    sorted key (owners.flatMap rows) = sorted key (owners'.flatMap rows) := by
  refine sorted_eq_of_filter fun k => ?_
  rw [List.filter_flatMap, List.filter_flatMap]
  induction h with
  | nil => rfl
  | cons a _ ih => rw [List.flatMap_cons, List.flatMap_cons, ih (List.pairwise_cons.mp hapart).2]
  | swap a b l =>
    have hab : Apart key rows b a := (List.pairwise_cons.mp hapart).1 a List.mem_cons_self
    rw [List.flatMap_cons, List.flatMap_cons, List.flatMap_cons, List.flatMap_cons,
      ← List.append_assoc, ← List.append_assoc]
    refine congrArg (· ++ _) ?_
    by_cases hk : ∃ r ∈ rows a, key r = k
    · obtain ⟨r, hr, rfl⟩ := hk
      have hnone : (rows b).filter (key · = key r) = [] :=
        List.filter_eq_nil_iff.mpr fun r' hr' => by simpa using hab r' hr' r hr
      rw [hnone, List.nil_append, List.append_nil]
    · have hnone : (rows a).filter (key · = k) = [] :=
        List.filter_eq_nil_iff.mpr fun r hr => by simpa using fun heq => hk ⟨r, hr, heq⟩
      rw [hnone, List.nil_append, List.append_nil]
  | trans h₁ _ ih₁ ih₂ =>
    have hsymm : ∀ a b, Apart key rows a b → Apart key rows b a :=
      fun _ _ hab r hr r' hr' heq => hab r' hr' r hr heq.symm
    rw [ih₁ hapart, ih₂ ((h₁.pairwise_iff (hsymm _ _)).mp hapart)]

/-- Blocks in the order of their keys are sorted one by one. -/
theorem sorted_flatMap_of_le {rows : γ → List α} {owners : List γ}
    (h : owners.Pairwise fun a b => ∀ r ∈ rows a, ∀ r' ∈ rows b, key r ≤ key r') :
    sorted key (owners.flatMap rows) = owners.flatMap fun a => sorted key (rows a) := by
  have hmem : ∀ a r, r ∈ sorted key (rows a) ↔ r ∈ rows a := fun a r => (sorted_perm (rows a)).mem_iff
  refine eq_of_filter (sorted_pairwise _) ?_ fun k => ?_
  · refine List.pairwise_flatMap.mpr ⟨fun a _ => sorted_pairwise (rows a), h.imp fun hab r hr r' hr' => ?_⟩
    exact hab r ((hmem _ r).mp hr) r' ((hmem _ r').mp hr')
  · rw [filter_sorted, List.filter_flatMap, List.filter_flatMap]
    exact congrArg (List.flatMap · owners) (funext fun a => (filter_sorted k (rows a)).symm)

/-- Two keys that order a list alike. -/
theorem sorted_congr {β' : Type*} [LinearOrder β'] {key' : α → β'} {l : List α}
    (h : ∀ a ∈ l, ∀ b ∈ l, key a ≤ key b ↔ key' a ≤ key' b) : sorted key l = sorted key' l := by
  have hmap := List.map_insertionSort (fun a b => key a ≤ key b) (fun a b => key' a ≤ key' b) id l h
  rwa [List.map_id, List.map_id] at hmap

theorem map_key_sorted (l : List α) : (sorted key l).map key = sorted id (l.map key) :=
  List.map_insertionSort (fun a b => key a ≤ key b) (fun a b => id a ≤ id b) key l fun _ _ _ _ => Iff.rfl

/-- Where the key tells the elements apart, their order does not count. -/
theorem sorted_eq_of_perm {l l' : List α} (hinj : Function.Injective key) (h : l.Perm l') :
    sorted key l = sorted key l' :=
  List.Perm.eq_of_pairwise (fun _ _ _ _ hab hba => hinj (le_antisymm hab hba)) (sorted_pairwise l)
    (sorted_pairwise l') ((sorted_perm l).trans (h.trans (sorted_perm l').symm))

end StableSort
