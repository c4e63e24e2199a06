import Mathlib.Data.List.Basic

/-! Contiguous parts of a list, by the indices of their first element and of their end. -/
namespace Slice
variable {α β : Type*}

def slice (a b : Nat) (l : List α) : List α := (l.take b).drop a

@[simp] theorem length_slice (a b : Nat) (l : List α) :
    (slice a b l).length = min b l.length - a := by
  simp [slice]

theorem slice_map (f : α → β) (a b : Nat) (l : List α) :
    slice a b (l.map f) = (slice a b l).map f := by
  simp [slice]

theorem slice_eq_nil {a b : Nat} (l : List α) (h : b ≤ a) : slice a b l = [] := by
  rw [← List.length_eq_zero_iff, length_slice]
  omega

theorem slice_of_length_le {a b : Nat} {l : List α} (h : l.length ≤ a) : slice a b l = [] := by
  rw [← List.length_eq_zero_iff, length_slice]
  omega

theorem slice_append_slice {a b c : Nat} (l : List α) (hab : a ≤ b) (hbc : b ≤ c) :
    slice a b l ++ slice b c l = slice a c l := by
  have htake : l.take c = l.take b ++ (l.take c).drop b := by
    have hb : l.take b = (l.take c).take b := by rw [List.take_take, Nat.min_eq_left hbc]
    rw [hb, List.take_append_drop]
  have hdrop : (l.take c).drop b = slice b c l := rfl
  by_cases hlen : a ≤ (l.take b).length
  · have hwhole : slice a c l = (l.take b ++ slice b c l).drop a := by
      rw [← hdrop, ← htake, slice]
    rw [hwhole, List.drop_append_of_le_length hlen, slice]
  · have hshort : l.length < b := by
      rw [List.length_take] at hlen
      omega
    have hend : l.length ≤ a := by
      rw [List.length_take] at hlen
      omega
    rw [slice_of_length_le hend, slice_of_length_le (Nat.le_of_lt hshort),
      slice_of_length_le hend, List.nil_append]

theorem slice_append_drop {a b : Nat} (l : List α) (hab : a ≤ b) :
    slice a b l ++ l.drop b = l.drop a := by
  have hb : a + (b - a) = b := by omega
  have hdrop : (l.drop a).drop (b - a) = l.drop b := by rw [List.drop_drop, hb]
  rw [slice, List.drop_take, ← hdrop, List.take_append_drop]

theorem getElem?_slice (a b i : Nat) (l : List α) :
    (slice a b l)[i]? = if a + i < b then l[a + i]? else none := by
  rw [slice, List.getElem?_drop, List.getElem?_take]

theorem mem_slice {a b : Nat} {l : List α} {x : α} :
    x ∈ slice a b l ↔ ∃ i, a ≤ i ∧ i < b ∧ l[i]? = some x := by
  rw [List.mem_iff_getElem?]
  constructor
  · rintro ⟨i, hi⟩
    rw [getElem?_slice] at hi
    by_cases hb : a + i < b
    · exact ⟨a + i, Nat.le_add_right a i, hb, by rwa [if_pos hb] at hi⟩
    · rw [if_neg hb] at hi
      cases hi
  · rintro ⟨i, ha, hb, hi⟩
    refine ⟨i - a, ?_⟩
    rw [getElem?_slice, Nat.add_sub_cancel' ha, if_pos hb]
    exact hi

@[simp] theorem slice_cons_succ (a b : Nat) (x : α) (l : List α) :
    slice (a + 1) (b + 1) (x :: l) = slice a b l := rfl

@[simp] theorem slice_zero_cons (b : Nat) (x : α) (l : List α) :
    slice 0 (b + 1) (x :: l) = x :: slice 0 b l := rfl

theorem slice_slice (a b c d : Nat) (l : List α) :
    slice a b (slice c d l) = slice (c + a) (min (c + b) d) l := by
  rw [slice, slice, slice, List.take_drop, List.take_take, List.drop_drop]

/-- Elements picked by their absolute index, when the first one has index `k`. -/
theorem filter_zipIdx (a b k : Nat) (l : List α) :
    ((l.zipIdx k).filter fun p => a ≤ p.2 ∧ p.2 < b).map Prod.fst = slice (a - k) (b - k) l := by
  induction l generalizing k with
  | nil => simp [slice]
  | cons x l ih =>
    rw [List.zipIdx_cons, List.filter_cons]
    by_cases hb : k < b
    · obtain ⟨n, hn⟩ : ∃ n, b - k = n + 1 := ⟨b - k - 1, by omega⟩
      have hn' : b - (k + 1) = n := by omega
      by_cases ha : a ≤ k
      · have hzero : a - k = 0 := by omega
        have hzero' : a - (k + 1) = 0 := by omega
        have htail := ih (k + 1)
        rw [hzero', hn'] at htail
        rw [if_pos (by simp [ha, hb]), List.map_cons, htail, hzero, hn, slice_zero_cons]
      · obtain ⟨m, hm⟩ : ∃ m, a - k = m + 1 := ⟨a - k - 1, by omega⟩
        have hm' : a - (k + 1) = m := by omega
        rw [if_neg (by simp [ha]), ih, hm', hn', hm, hn, slice_cons_succ]
    · rw [if_neg (by simp [hb]), ih, slice_eq_nil _ (by omega), slice_eq_nil _ (by omega)]

end Slice
