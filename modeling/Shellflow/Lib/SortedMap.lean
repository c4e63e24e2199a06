import Mathlib.Data.List.Sort
import Shellflow.Lib.Assoc

/-! Finite maps that are kept in the order of their keys. -/

/-- A map as the list of its pairs; the keys are strictly increasing. -/
@[ext] structure SortedMap (α β : Type*) [LT α] where
  pairs : List (α × β)
  sorted : pairs.Pairwise fun p q => p.1 < q.1

namespace SortedMap
variable {α β : Type*} [LinearOrder α]

instance [DecidableEq β] : DecidableEq (SortedMap α β) := fun _ _ =>
  decidable_of_iff _ SortedMap.ext_iff.symm

def empty : SortedMap α β := ⟨[], List.Pairwise.nil⟩

theorem sorted_insertSorted {p : α × β} {l : List (α × β)} (hl : l.Pairwise fun p q => p.1 < q.1)
    (hnew : ∀ q ∈ l, q.1 ≠ p.1) :
    (Assoc.insertSorted (fun a b => decide (a ≤ b)) p l).Pairwise fun p q => p.1 < q.1 := by
  induction l with
  | nil => exact List.pairwise_singleton _ _
  | cons q l ih =>
    obtain ⟨hq, hl⟩ := List.pairwise_cons.mp hl
    obtain ⟨hne, hnew⟩ := List.forall_mem_cons.mp hnew
    unfold Assoc.insertSorted
    split
    next hle =>
      have hlt : p.1 < q.1 := lt_of_le_of_ne (of_decide_eq_true hle) (Ne.symm hne)
      refine List.pairwise_cons.mpr ⟨fun r hr => ?_, List.pairwise_cons.mpr ⟨hq, hl⟩⟩
      cases List.mem_cons.mp hr with
      | inl hr => exact hr ▸ hlt
      | inr hr => exact hlt.trans (hq r hr)
    next hle =>
      have hlt : q.1 < p.1 := lt_of_not_ge fun h => hle (decide_eq_true h)
      refine List.pairwise_cons.mpr ⟨fun r hr => ?_, ih hl hnew⟩
      cases Assoc.mem_insertSorted.mp hr with
      | inl hr => exact hr ▸ hlt
      | inr hr => exact hq r hr

/-- The value takes the place of the one that is there. -/
def insert (m : SortedMap α β) (k : α) (v : β) : SortedMap α β where
  pairs := Assoc.put (fun a b => decide (a ≤ b)) (k, v) m.pairs
  sorted := sorted_insertSorted (m.sorted.filter _) fun q hq => by
    simpa using (List.mem_filter.mp hq).2

def get? (m : SortedMap α β) (k : α) : Option β := m.pairs.lookup k

def keys (m : SortedMap α β) : List α := Assoc.keys m.pairs

/-- A key behind all others comes last. -/
theorem pairs_insert_of_lt {m : SortedMap α β} {k : α} {v : β} (h : ∀ p ∈ m.pairs, p.1 < k) :
    (m.insert k v).pairs = m.pairs ++ [(k, v)] := by
  have hfilter : (m.pairs.filter fun q => q.1 ≠ k) = m.pairs :=
    List.filter_eq_self.mpr fun q hq => decide_eq_true (h q hq).ne
  have hlast : ∀ l : List (α × β), (∀ p ∈ l, p.1 < k) →
      Assoc.insertSorted (fun a b => decide (a ≤ b)) (k, v) l = l ++ [(k, v)] := by
    intro l hl
    induction l with
    | nil => rfl
    | cons q l ih =>
      obtain ⟨hq, hl⟩ := List.forall_mem_cons.mp hl
      rw [Assoc.insertSorted, if_neg (by simpa using hq), ih hl, List.cons_append]
  change Assoc.put _ (k, v) m.pairs = _
  rw [Assoc.put, hfilter, hlast _ h]

/-- The pairs of a map, put into an empty one. -/
theorem foldl_insert_pairs (m : SortedMap α β) :
    m.pairs.foldl (fun m p => m.insert p.1 p.2) empty = m := by
  obtain ⟨l, hl⟩ := m
  refine SortedMap.ext ?_
  dsimp only
  induction l using List.reverseRecOn with
  | nil => rfl
  | append_singleton l p ih =>
    obtain ⟨hfront, -, hlast⟩ := List.pairwise_append.mp hl
    have hrest := ih hfront
    rw [List.foldl_append, List.foldl_cons, List.foldl_nil, pairs_insert_of_lt, hrest]
    rw [hrest]
    exact fun q hq => hlast q hq p (List.mem_singleton_self p)

theorem get?_eq_some {m : SortedMap α β} {k : α} {v : β} :
    m.get? k = some v ↔ (k, v) ∈ m.pairs := by
  obtain ⟨l, hl⟩ := m
  rw [get?]
  dsimp only
  induction l with
  | nil => simp
  | cons q l ih =>
    obtain ⟨k', v'⟩ := q
    obtain ⟨hq, hl⟩ := List.pairwise_cons.mp hl
    rw [List.lookup_cons, List.mem_cons]
    by_cases hk : k = k'
    · subst hk
      rw [beq_self_eq_true]
      constructor
      · rintro ⟨⟩
        exact .inl rfl
      · intro h
        cases h with
        | inl h => rw [(Prod.mk.inj h).2]
        | inr h => exact absurd (hq _ h) (lt_irrefl k)
    · have hb : (k == k') = false := by simpa using hk
      rw [hb]
      dsimp only
      rw [ih hl]
      exact ⟨.inr, fun h => h.resolve_left fun he => hk (Prod.mk.inj he).1⟩

theorem mem_keys {m : SortedMap α β} {k : α} : k ∈ m.keys ↔ ∃ v, m.get? k = some v := by
  rw [keys, Assoc.mem_keys_iff_lookup, Option.isSome_iff_exists]
  rfl

/-- Maps with the same values under every key are one. -/
theorem ext_get? {m m' : SortedMap α β} (h : ∀ k, m.get? k = m'.get? k) : m = m' := by
  refine SortedMap.ext (List.Perm.eq_of_pairwise (fun p q _ _ hpq hqp => ?_) m.sorted m'.sorted ?_)
  · exact absurd (hpq.trans hqp) (lt_irrefl p.1)
  · have hnodup : ∀ m : SortedMap α β, m.pairs.Nodup := fun m =>
      m.sorted.imp fun hlt heq => absurd (heq ▸ hlt) (lt_irrefl _)
    refine (List.perm_ext_iff_of_nodup (hnodup m) (hnodup m')).mpr fun p => ?_
    rw [← get?_eq_some, ← get?_eq_some, h]

end SortedMap
