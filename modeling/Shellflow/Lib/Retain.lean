import Mathlib.Data.List.Sort
import Mathlib.Data.List.Nodup

/-! Keeping the newest of a list: a stable sort by a stamp, and what is left behind a cut of it. -/
namespace Retain
variable {α β : Type*} [LinearOrder β]

/-- Newest first; the order of the list decides between equal stamps. -/
def ranked (stamp : α → β) (l : List α) : List α := l.insertionSort fun a b => stamp b ≤ stamp a

def surplus (stamp : α → β) (keep : Nat) (l : List α) : List α := (ranked stamp l).drop keep

/-- `b` comes before `a` in the ranking of a list. -/
def Ahead (stamp : α → β) (l : List α) (a b : α) : Prop :=
  stamp a < stamp b ∨ stamp a = stamp b ∧ [b, a].Sublist l

instance [DecidableEq α] (stamp : α → β) (l : List α) (a b : α) : Decidable (Ahead stamp l a b) :=
  inferInstanceAs (Decidable (_ ∨ _))

variable {stamp : α → β} {l : List α} {a b : α} {keep : Nat}

theorem ranked_perm (stamp : α → β) (l : List α) : (ranked stamp l).Perm l :=
  List.perm_insertionSort _ l

theorem ranked_sorted (stamp : α → β) (l : List α) :
    (ranked stamp l).Pairwise fun a b => stamp b ≤ stamp a := by
  have htotal : Std.Total fun a b => stamp b ≤ stamp a := ⟨fun a b => le_total (stamp b) (stamp a)⟩
  have htrans : IsTrans α fun a b => stamp b ≤ stamp a := ⟨fun _ _ _ h h' => le_trans h' h⟩
  exact List.pairwise_insertionSort _ l

theorem mem_of_mem_surplus (h : a ∈ surplus stamp keep l) : a ∈ l :=
  (ranked_perm stamp l).mem_iff.mp (List.mem_of_mem_drop h)

/-- What is kept is not older than what is not. -/
theorem le_of_mem_surplus (hb : b ∈ (ranked stamp l).take keep) (ha : a ∈ surplus stamp keep l) :
    stamp a ≤ stamp b := by
  have hsorted := ranked_sorted stamp l
  rw [← List.take_append_drop keep (ranked stamp l)] at hsorted
  exact (List.pairwise_append.mp hsorted).2.2 b hb a ha

theorem before_split {pre post : List α} (h : (pre ++ a :: post).Nodup) :
    [b, a].Sublist (pre ++ a :: post) ↔ b ∈ pre := by
  have hpre : a ∉ pre := fun hmem => (List.nodup_append.mp h).2.2 a hmem a List.mem_cons_self rfl
  have hpost : a ∉ post := (List.nodup_cons.mp (List.nodup_append.mp h).2.1).1
  constructor
  · intro hsub
    obtain ⟨r₁, r₂, hpair, h₁, h₂⟩ := List.sublist_append_iff.mp hsub
    cases r₁ with
    | nil =>
      obtain rfl : [b, a] = r₂ := hpair
      cases h₂ with
      | cons _ h => exact absurd (h.subset (by simp)) hpost
      | cons_cons _ h => exact absurd (h.subset (by simp)) hpost
    | cons c r₁ =>
      obtain ⟨rfl, -⟩ := List.cons.inj hpair
      exact h₁.subset List.mem_cons_self
  · intro hmem
    exact (List.singleton_sublist.mpr hmem).append (List.singleton_sublist.mpr List.mem_cons_self)

theorem before_asymm (hl : l.Nodup) (h : [b, a].Sublist l) : ¬ [a, b].Sublist l := by
  obtain ⟨pre, post, rfl⟩ := List.append_of_mem (h.subset (List.mem_cons_of_mem b List.mem_cons_self))
  obtain ⟨front, mid, rfl⟩ := List.append_of_mem ((before_split hl).mp h)
  rw [List.append_assoc, List.cons_append] at hl ⊢
  rw [before_split hl]
  intro hmem
  exact (List.nodup_append.mp hl).2.2 a hmem a (by simp) rfl

theorem before_total (ha : a ∈ l) (hb : b ∈ l) (hne : b ≠ a) :
    [b, a].Sublist l ∨ [a, b].Sublist l := by
  obtain ⟨pre, post, rfl⟩ := List.append_of_mem ha
  rcases List.mem_append.mp hb with hpre | hpost
  · exact .inl ((List.singleton_sublist.mpr hpre).append (by simp))
  · cases List.mem_cons.mp hpost with
    | inl heq => exact absurd heq hne
    | inr hpost =>
      refine .inr (List.Sublist.trans ?_ (List.sublist_append_right pre _))
      exact (List.singleton_sublist.mpr hpost).cons_cons a

/-- In front of an element of the ranking stand the elements that are ahead of it. -/
theorem mem_front_iff {pre post : List α} (hl : l.Nodup) (h : ranked stamp l = pre ++ a :: post) :
    b ∈ pre ↔ b ∈ l ∧ Ahead stamp l a b := by
  have hnodup : (pre ++ a :: post).Nodup := h ▸ (ranked_perm stamp l).nodup_iff.mpr hl
  have hmem : ∀ c, c ∈ l ↔ c ∈ pre ++ a :: post := fun c => by
    rw [← h, (ranked_perm stamp l).mem_iff]
  have hsorted := ranked_sorted stamp l
  have hstable : ∀ c d, stamp d ≤ stamp c → [c, d].Sublist l → [c, d].Sublist (pre ++ a :: post) :=
    fun c d hle hsub => h ▸ List.pair_sublist_insertionSort hle hsub
  rw [h] at hsorted
  constructor
  · intro hb
    have hsub := (before_split hnodup).mpr hb
    have hle : stamp a ≤ stamp b :=
      (List.pairwise_cons.mp (hsorted.sublist hsub)).1 a (by simp)
    refine ⟨(hmem b).mpr (List.mem_append_left _ hb), ?_⟩
    cases hle.lt_or_eq with
    | inl hlt => exact .inl hlt
    | inr heq =>
      refine .inr ⟨heq, ?_⟩
      have hne : b ≠ a := fun he =>
        (List.nodup_append.mp hnodup).2.2 b hb a List.mem_cons_self he
      cases before_total ((hmem a).mpr (by simp)) ((hmem b).mpr (List.mem_append_left _ hb)) hne with
      | inl hbefore => exact hbefore
      | inr hafter =>
        exact absurd (hstable a b heq.ge hafter) (before_asymm hnodup hsub)
  · rintro ⟨hb, hahead⟩
    have hne : b ≠ a := by
      rintro rfl
      cases hahead with
      | inl hlt => exact lt_irrefl _ hlt
      | inr hsub => exact before_asymm hl hsub.2 hsub.2
    rw [← before_split hnodup]
    cases hahead with
    | inr hsub => exact hstable b a hsub.1.le hsub.2
    | inl hlt =>
      cases before_total (by simp) ((hmem b).mp hb) hne with
      | inl hbefore => exact hbefore
      | inr hafter =>
        have hle : stamp b ≤ stamp a :=
          (List.pairwise_cons.mp (hsorted.sublist hafter)).1 b (by simp)
        exact absurd hle (not_le.mpr hlt)

/-- An element is left out exactly when enough others are ahead of it. -/
theorem mem_surplus_iff [DecidableEq α] (hl : l.Nodup) : a ∈ surplus stamp keep l ↔
    a ∈ l ∧ keep ≤ (l.filter fun b => Ahead stamp l a b).length := by
  by_cases ha : a ∈ l
  · obtain ⟨pre, post, hsplit⟩ := List.append_of_mem ((ranked_perm stamp l).mem_iff.mpr ha)
    have hnodup : (pre ++ a :: post).Nodup := hsplit ▸ (ranked_perm stamp l).nodup_iff.mpr hl
    have hperm : pre.Perm (l.filter fun b => Ahead stamp l a b) := by
      refine (List.perm_ext_iff_of_nodup (List.nodup_append.mp hnodup).1 (hl.filter _)).mpr fun b => ?_
      rw [mem_front_iff hl hsplit, List.mem_filter, decide_eq_true_eq]
    have hcut : a ∈ surplus stamp keep l ↔ keep ≤ pre.length := by
      rw [surplus, hsplit]
      constructor
      · intro hmem
        by_contra hlt
        obtain ⟨n, rfl⟩ : ∃ n, keep = pre.length + (n + 1) := ⟨keep - pre.length - 1, by omega⟩
        rw [List.drop_length_add_append, List.drop_succ_cons] at hmem
        have hpost := (List.nodup_cons.mp (List.nodup_append.mp hnodup).2.1).1
        exact hpost (List.mem_of_mem_drop hmem)
      · intro hle
        rw [List.drop_append_of_le_length hle]
        exact List.mem_append_right _ List.mem_cons_self
    rw [hcut, hperm.length_eq, and_iff_right ha]
  · exact iff_of_false (fun h => ha (mem_of_mem_surplus h)) fun h => ha h.1

end Retain
