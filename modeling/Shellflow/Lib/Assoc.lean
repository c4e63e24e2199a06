import Mathlib.Data.List.Nodup
import Mathlib.Data.List.Basic
import Mathlib.Data.List.Induction
import Mathlib.Tactic.Tauto

/-! Ordered association lists, the way imperative code keeps a small map in a vector. -/
namespace Assoc
variable {α β : Type*}

def keys (l : List (α × β)) : List α := l.map Prod.fst

@[simp] theorem keys_nil : keys ([] : List (α × β)) = [] := rfl

@[simp] theorem keys_cons (p : α × β) (l : List (α × β)) : keys (p :: l) = p.1 :: keys l := rfl

@[simp] theorem keys_append (l m : List (α × β)) : keys (l ++ m) = keys l ++ keys m := by
  simp [keys]

theorem mem_keys_of_mem {p : α × β} {l : List (α × β)} (h : p ∈ l) : p.1 ∈ keys l :=
  List.mem_map_of_mem h

variable [DecidableEq α]

/-- Drop every pair under `k`, then append the new one. -/
def assign (l : List (α × β)) (p : α × β) : List (α × β) :=
  l.filter (fun q => q.1 ≠ p.1) ++ [p]

/-- Change the first pair under the key in place, or append when there is none. -/
def overwrite : List (α × β) → α × β → List (α × β)
  | [], p => [p]
  | q :: l, p => if q.1 = p.1 then (q.1, p.2) :: l else q :: overwrite l p

/-- Change the first pair under the key by `f`, starting from `d` when there is none. -/
def modify (d : β) (f : β → β) (k : α) : List (α × β) → List (α × β)
  | [] => [(k, f d)]
  | q :: l => if q.1 = k then (q.1, f q.2) :: l else q :: modify d f k l

/-- Put the pair before the first key that `le` does not place before its own. -/
def insertSorted (le : α → α → Bool) (p : α × β) : List (α × β) → List (α × β)
  | [] => [p]
  | q :: l => if le p.1 q.1 then p :: q :: l else q :: insertSorted le p l

/-- Put the pair at the place of its key, instead of the one that is there. -/
def put (le : α → α → Bool) (p : α × β) (l : List (α × β)) : List (α × β) :=
  insertSorted le p (l.filter fun q => q.1 ≠ p.1)

/-- Append to the list under the key. -/
def pushUnder (le : α → α → Bool) (l : List (α × List β)) (k : α) (v : β) : List (α × List β) :=
  put le (k, (l.lookup k).getD [] ++ [v]) l

/-- Append what is not there yet. -/
def pushNew (l : List α) (a : α) : List α := if a ∈ l then l else l ++ [a]

/-- The value bound last. -/
def last? (k : α) (l : List (α × β)) : Option β := l.reverse.lookup k

attribute [local simp] overwrite modify insertSorted

theorem mem_pushNew {l : List α} {a b : α} : b ∈ pushNew l a ↔ b ∈ l ∨ b = a := by
  by_cases h : a ∈ l
  · rw [pushNew, if_pos h]
    exact ⟨Or.inl, fun hb => hb.elim id fun e => e ▸ h⟩
  · rw [pushNew, if_neg h, List.mem_append, List.mem_singleton]

theorem pushNew_ne_nil (l : List α) (a : α) : pushNew l a ≠ [] :=
  List.ne_nil_of_mem (mem_pushNew.mpr (.inr rfl))

theorem nodup_pushNew {l : List α} {a : α} (h : l.Nodup) : (pushNew l a).Nodup := by
  by_cases ha : a ∈ l
  · rwa [pushNew, if_pos ha]
  · rw [pushNew, if_neg ha]
    exact List.nodup_append.mpr ⟨h, List.nodup_singleton a, fun b hb c hc =>
      List.mem_singleton.mp hc ▸ fun hab => ha (hab ▸ hb)⟩

theorem mem_foldl_pushNew {m l : List α} {b : α} :
    b ∈ m.foldl pushNew l ↔ b ∈ l ∨ b ∈ m := by
  induction m generalizing l with
  | nil => simp
  | cons a m ih =>
    rw [List.foldl_cons, ih, mem_pushNew, List.mem_cons, or_assoc]

theorem mem_assign {l : List (α × β)} {p q : α × β} :
    q ∈ assign l p ↔ q = p ∨ (q.1 ≠ p.1 ∧ q ∈ l) := by
  simp only [assign, List.mem_append, List.mem_filter, List.mem_singleton, decide_eq_true_eq]
  tauto

theorem last?_nil (k : α) : last? k ([] : List (α × β)) = none := rfl

theorem last?_append (k : α) (l m : List (α × β)) :
    last? k (l ++ m) = (last? k m).or (last? k l) := by
  simp [last?, List.lookup_append]

theorem last?_concat (k : α) (l : List (α × β)) (p : α × β) :
    last? k (l ++ [p]) = if p.1 = k then some p.2 else last? k l := by
  obtain ⟨k₀, v₀⟩ := p
  rw [last?_append]
  by_cases h : k₀ = k
  · subst h
    simp [last?]
  · have hb : (k == k₀) = false := by simpa using Ne.symm h
    simp [last?, List.lookup_cons, hb, h]

theorem last?_isSome {k : α} {l : List (α × β)} : (last? k l).isSome ↔ k ∈ keys l := by
  induction l using List.reverseRecOn with
  | nil => simp [last?]
  | append_singleton l p ih =>
    rw [last?_concat]
    by_cases h : p.1 = k
    · simp [h]
    · have h' : k ≠ p.1 := fun e => h e.symm
      simp [h, h', ih]

theorem last?_eq_none {k : α} {l : List (α × β)} : last? k l = none ↔ k ∉ keys l := by
  rw [← last?_isSome]
  cases last? k l <;> simp

theorem mem_of_last? {k : α} {v : β} {l : List (α × β)} (h : last? k l = some v) :
    (k, v) ∈ l := by
  induction l using List.reverseRecOn with
  | nil => simp [last?] at h
  | append_singleton l p ih =>
    rw [last?_concat] at h
    by_cases hp : p.1 = k
    · rw [if_pos hp] at h
      have hpair : (k, v) = p := Prod.ext hp.symm (Option.some.inj h).symm
      simp [hpair]
    · rw [if_neg hp] at h
      exact List.mem_append_left _ (ih h)

/-- A pair is the last one of its key when the key has no other value. -/
theorem last?_unique {k : α} {v : β} {l : List (α × β)} (h : (k, v) ∈ l)
    (honly : ∀ v', (k, v') ∈ l → v' = v) : last? k l = some v := by
  obtain ⟨v', hv'⟩ := Option.isSome_iff_exists.mp (last?_isSome.mpr (mem_keys_of_mem h))
  rw [hv', honly v' (mem_of_last? hv')]

theorem last?_of_mem {k : α} {v : β} {l : List (α × β)} (hl : (keys l).Nodup) (h : (k, v) ∈ l) :
    last? k l = some v := by
  refine last?_unique h fun v' h' => ?_
  exact (Prod.mk.inj (List.inj_on_of_nodup_map hl h' h rfl)).2

/-- What is left after assigning a whole list: the last pair of each of its keys. -/
theorem mem_foldl_assign (m l : List (α × β)) (q : α × β) :
    q ∈ m.foldl assign l ↔ last? q.1 m = some q.2 ∨ (q.1 ∉ keys m ∧ q ∈ l) := by
  induction m using List.reverseRecOn with
  | nil => simp [last?]
  | append_singleton m p ih =>
    rw [List.foldl_append, List.foldl_cons, List.foldl_nil, mem_assign, ih, last?_concat]
    by_cases h : p.1 = q.1
    · obtain ⟨k, v⟩ := p
      obtain ⟨k', v'⟩ := q
      cases h
      simp [eq_comm]
    · have h' : q.1 ≠ p.1 := fun e => h e.symm
      have hq : q ≠ p := fun e => h' (congrArg Prod.fst e)
      simp [h, h', hq]

theorem last?_assign (l : List (α × β)) (p : α × β) (k : α) :
    last? k (assign l p) = if p.1 = k then some p.2 else last? k l := by
  rw [assign, last?_concat]
  by_cases h : p.1 = k
  · simp [h]
  · rw [if_neg h, if_neg h]
    induction l using List.reverseRecOn with
    | nil => rfl
    | append_singleton l q ih =>
      rw [List.filter_append, last?_append, last?_concat, ih]
      by_cases hq : q.1 = p.1
      · have hqk : q.1 ≠ k := fun e => h (hq ▸ e)
        have hdrop : List.filter (fun r => decide (r.1 ≠ p.1)) [q] = [] := by simp [hq]
        rw [hdrop, last?_nil, Option.none_or, if_neg hqk]
      · have hkeep : List.filter (fun r => decide (r.1 ≠ p.1)) [q] = [q] := by simp [hq]
        have hone := last?_concat k [] q
        rw [List.nil_append, last?_nil] at hone
        rw [hkeep, hone]
        by_cases hqk : q.1 = k <;> simp [hqk]

theorem last?_foldl_assign (m l : List (α × β)) (k : α) :
    last? k (m.foldl assign l) = (last? k m).or (last? k l) := by
  induction m using List.reverseRecOn with
  | nil => simp [last?]
  | append_singleton m p ih =>
    rw [List.foldl_append, List.foldl_cons, List.foldl_nil, last?_assign, ih, last?_concat]
    by_cases h : p.1 = k <;> simp [h]

/-- Pairs with fresh, distinct keys are simply appended. -/
theorem foldl_assign_of_nodup (m l : List (α × β)) (hm : (keys m).Nodup)
    (hfresh : ∀ k ∈ keys m, k ∉ keys l) : m.foldl assign l = l ++ m := by
  induction m generalizing l with
  | nil => simp
  | cons p m ih =>
    obtain ⟨hp, hm⟩ := List.nodup_cons.mp hm
    have hl : assign l p = l ++ [p] := by
      have hkeep : l.filter (fun q => q.1 ≠ p.1) = l := by
        refine List.filter_eq_self.mpr fun q hq => ?_
        have hne : q.1 ≠ p.1 := fun e =>
          hfresh p.1 List.mem_cons_self (e ▸ mem_keys_of_mem hq)
        simpa using hne
      rw [assign, hkeep]
    rw [List.foldl_cons, hl, ih (l ++ [p]) hm]
    · simp
    · intro k hk hmem
      rw [keys_append, List.mem_append] at hmem
      rcases hmem with hmem | hmem
      · exact hfresh k (List.mem_cons_of_mem _ hk) hmem
      · have hkp : k = p.1 := by simpa using hmem
        exact hp (hkp ▸ hk)

theorem lookup_overwrite (l : List (α × β)) (p : α × β) (k : α) :
    (overwrite l p).lookup k = if p.1 = k then some p.2 else l.lookup k := by
  obtain ⟨k₁, v₁⟩ := p
  induction l with
  | nil =>
    by_cases h : k₁ = k
    · subst h
      simp [overwrite]
    · have hb : (k == k₁) = false := by simpa using Ne.symm h
      simp [overwrite, List.lookup_cons, hb, h]
  | cons q l ih =>
    obtain ⟨k₀, v₀⟩ := q
    by_cases hq : k₀ = k₁
    · subst hq
      by_cases h : k₀ = k
      · simp [overwrite, h]
      · have hb : (k == k₀) = false := by simpa using Ne.symm h
        simp only [overwrite, if_true, if_neg h, List.lookup_cons, hb]
    · simp only [overwrite, if_neg hq, List.lookup_cons, ih]
      by_cases h : k₁ = k
      · subst h
        have hb : (k₁ == k₀) = false := by simpa using Ne.symm hq
        simp [hb]
      · simp [h]

theorem key_mem_overwrite {l : List (α × β)} {p q : α × β} (h : q ∈ overwrite l p) :
    q.1 = p.1 ∨ q.1 ∈ keys l := by
  induction l with
  | nil =>
    left
    rw [List.mem_singleton.mp h]
  | cons r l ih =>
    by_cases hr : r.1 = p.1
    · rw [overwrite, if_pos hr] at h
      rcases List.mem_cons.mp h with rfl | h
      · exact Or.inl hr
      · exact Or.inr (List.mem_cons_of_mem _ (mem_keys_of_mem h))
    · rw [overwrite, if_neg hr] at h
      rcases List.mem_cons.mp h with rfl | h
      · exact Or.inr List.mem_cons_self
      · rcases ih h with hkey | hmem
        · exact Or.inl hkey
        · exact Or.inr (List.mem_cons_of_mem _ hmem)

theorem nodup_keys_overwrite {l : List (α × β)} (p : α × β) (h : (keys l).Nodup) :
    (keys (overwrite l p)).Nodup := by
  induction l with
  | nil => simp [overwrite]
  | cons r l ih =>
    obtain ⟨hr, hl⟩ := List.nodup_cons.mp h
    by_cases hrp : r.1 = p.1
    · rw [overwrite, if_pos hrp]
      exact h
    · rw [overwrite, if_neg hrp, keys_cons]
      refine List.nodup_cons.mpr ⟨fun hmem => ?_, ih hl⟩
      obtain ⟨q, hq, hkey⟩ := List.mem_map.mp hmem
      rcases key_mem_overwrite hq with hqp | hql
      · exact hrp (hkey ▸ hqp)
      · exact hr (hkey ▸ hql)

theorem value_mem_overwrite {l : List (α × β)} {p q : α × β} (h : q ∈ overwrite l p) :
    q.2 = p.2 ∨ q ∈ l := by
  induction l with
  | nil =>
    left
    rw [List.mem_singleton.mp h]
  | cons r l ih =>
    by_cases hr : r.1 = p.1
    · rw [overwrite, if_pos hr] at h
      cases List.mem_cons.mp h with
      | inl h => exact .inl (h ▸ rfl)
      | inr h => exact .inr (.tail _ h)
    · rw [overwrite, if_neg hr] at h
      cases List.mem_cons.mp h with
      | inl h => exact .inr (h ▸ List.mem_cons_self)
      | inr h => exact (ih h).imp_right (.tail _)

theorem overwrite_of_notMem {l : List (α × β)} {p : α × β} (h : p.1 ∉ keys l) :
    overwrite l p = l ++ [p] := by
  induction l with
  | nil => rfl
  | cons q l ih =>
    rw [keys_cons, List.mem_cons, not_or] at h
    rw [overwrite, if_neg (Ne.symm h.1), ih h.2, List.cons_append]

theorem keys_overwrite_of_mem {l : List (α × β)} {p : α × β} (h : p.1 ∈ keys l) :
    keys (overwrite l p) = keys l := by
  induction l with
  | nil => cases h
  | cons q l ih =>
    by_cases hq : q.1 = p.1
    · rw [overwrite, if_pos hq]
      rfl
    · rw [keys_cons, List.mem_cons] at h
      rw [overwrite, if_neg hq, keys_cons, keys_cons, ih (h.resolve_left (Ne.symm hq))]

/-- Every key stays where it was put first. -/
theorem keys_foldl_overwrite (m : List (α × β)) :
    keys (m.foldl overwrite []) = (keys m).eraseDups := by
  induction m using List.reverseRecOn with
  | nil => rfl
  | append_singleton m p ih =>
    rw [List.foldl_append, List.foldl_cons, List.foldl_nil, keys_append, List.eraseDups_append,
      keys_cons, keys_nil]
    by_cases hmem : p.1 ∈ keys m
    · rw [keys_overwrite_of_mem (by rw [ih]; exact List.mem_eraseDups.mpr hmem), ih]
      simp [List.removeAll, hmem]
    · rw [overwrite_of_notMem (by rw [ih]; exact fun h => hmem (List.mem_eraseDups.mp h)),
        keys_append, ih]
      simp [List.removeAll, hmem, List.eraseDups_cons]

/-- Pairs with different keys are what is left of them. -/
theorem foldl_overwrite_of_nodup {m : List (α × β)} (h : (keys m).Nodup) :
    m.foldl overwrite [] = m := by
  induction m using List.reverseRecOn with
  | nil => rfl
  | append_singleton m p ih =>
    rw [keys_append, List.nodup_append] at h
    have hnew : p.1 ∉ keys m := fun hmem => h.2.2 _ hmem _ List.mem_cons_self rfl
    rw [List.foldl_append, List.foldl_cons, List.foldl_nil, ih h.1, overwrite_of_notMem hnew]

/-- Overwriting with a whole list: its last value for the key wins over the old one. -/
theorem lookup_foldl_overwrite (m l : List (α × β)) (k : α) :
    (m.foldl overwrite l).lookup k = (last? k m).or (l.lookup k) := by
  induction m using List.reverseRecOn with
  | nil => simp [last?]
  | append_singleton m p ih =>
    rw [List.foldl_append, List.foldl_cons, List.foldl_nil, lookup_overwrite, ih, last?_concat]
    by_cases h : p.1 = k <;> simp [h]

theorem mem_keys_iff_lookup {l : List (α × β)} {k : α} : k ∈ keys l ↔ (l.lookup k).isSome := by
  rw [List.lookup_isSome_iff, keys, List.mem_map]
  constructor
  · rintro ⟨p, hp, rfl⟩
    exact ⟨p, hp, beq_self_eq_true p.1⟩
  · rintro ⟨p, hp, heq⟩
    exact ⟨p, hp, (eq_of_beq heq).symm⟩

theorem mem_keys_foldl_overwrite {m l : List (α × β)} {k : α} :
    k ∈ keys (m.foldl overwrite l) ↔ k ∈ keys m ∨ k ∈ keys l := by
  rw [mem_keys_iff_lookup, lookup_foldl_overwrite, mem_keys_iff_lookup (l := l), ← last?_isSome]
  cases last? k m <;> simp

theorem lookup_modify (d : β) (f : β → β) (k k' : α) (l : List (α × β)) :
    (modify d f k l).lookup k' =
      if k = k' then some (f ((l.lookup k).getD d)) else l.lookup k' := by
  induction l with
  | nil =>
    by_cases h : k = k'
    · subst h
      simp [modify]
    · have hb : (k' == k) = false := by simpa using Ne.symm h
      simp [modify, List.lookup_cons, hb, h]
  | cons q l ih =>
    obtain ⟨k₀, v₀⟩ := q
    by_cases hq : k₀ = k
    · subst hq
      by_cases h : k₀ = k'
      · simp [modify, h]
      · have hb : (k' == k₀) = false := by simpa using Ne.symm h
        simp only [modify, if_true, if_neg h, List.lookup_cons, hb]
    · have hb : (k == k₀) = false := by simpa using Ne.symm hq
      simp only [modify, if_neg hq, List.lookup_cons, ih, hb]
      by_cases h : k = k'
      · subst h
        simp [hb]
      · simp [h]

theorem lookup_insertSorted {le : α → α → Bool} {p : α × β} {l : List (α × β)}
    (hnew : l.lookup p.1 = none) (k : α) :
    (insertSorted le p l).lookup k = if k = p.1 then some p.2 else l.lookup k := by
  obtain ⟨k₀, v₀⟩ := p
  induction l with
  | nil =>
    by_cases hk : k = k₀
    · subst hk
      simp [insertSorted]
    · have hb : (k == k₀) = false := by simpa using hk
      simp [insertSorted, List.lookup_cons, hb, hk]
  | cons q l ih =>
    obtain ⟨k₁, v₁⟩ := q
    rw [List.lookup_cons] at hnew
    have hne : (k₀ == k₁) = false := by
      cases hb : k₀ == k₁ with
      | true => simp [hb] at hnew
      | false => rfl
    rw [hne] at hnew
    unfold insertSorted
    by_cases hle : le k₀ k₁ = true
    · rw [if_pos hle]
      by_cases hk : k = k₀
      · subst hk
        simp
      · have hb : (k == k₀) = false := by simpa using hk
        rw [List.lookup_cons, hb, if_neg hk]
    · rw [if_neg hle]
      by_cases hk : k = k₀
      · subst hk
        rw [List.lookup_cons, hne, if_pos rfl]
        simpa using ih hnew
      · rw [List.lookup_cons, if_neg hk, List.lookup_cons]
        cases k == k₁ with
        | true => rfl
        | false => simpa [hk] using ih hnew

theorem mem_insertSorted {le : α → α → Bool} {p q : α × β} {l : List (α × β)} :
    q ∈ insertSorted le p l ↔ q = p ∨ q ∈ l := by
  induction l with
  | nil => simp [insertSorted]
  | cons r l ih =>
    unfold insertSorted
    split
    · simp
    · simp only [List.mem_cons, ih]
      tauto

theorem mem_put {le : α → α → Bool} {p q : α × β} {l : List (α × β)} :
    q ∈ put le p l ↔ q = p ∨ q ∈ l ∧ q.1 ≠ p.1 := by
  simp [put, mem_insertSorted]

theorem lookup_filter_ne {l : List (α × β)} {k k' : α} :
    (l.filter fun q => q.1 ≠ k).lookup k' = if k' = k then none else l.lookup k' := by
  induction l with
  | nil => simp
  | cons q l ih =>
    obtain ⟨k₀, v⟩ := q
    by_cases hq : k₀ = k
    · rw [List.filter_cons_of_neg (by simpa using hq), ih]
      by_cases hk : k' = k
      · rw [if_pos hk, if_pos hk]
      · have hb : (k' == k₀) = false := by simpa [hq] using hk
        rw [if_neg hk, if_neg hk, List.lookup_cons, hb]
    · rw [List.filter_cons_of_pos (by simpa using hq), List.lookup_cons, ih, List.lookup_cons]
      by_cases hk : k' = k
      · have hb : (k' == k₀) = false := by simpa [hk] using Ne.symm hq
        rw [hb, if_pos hk]
      · rw [if_neg hk, if_neg hk]

theorem lookup_put {le : α → α → Bool} {p : α × β} {l : List (α × β)} {k : α} :
    (put le p l).lookup k = if k = p.1 then some p.2 else l.lookup k := by
  rw [put, lookup_insertSorted (by rw [lookup_filter_ne, if_pos rfl]), lookup_filter_ne]
  by_cases hk : k = p.1
  · rw [if_pos hk, if_pos hk]
  · rw [if_neg hk, if_neg hk, if_neg hk]

/-- What a run of appends collects under a key, in order. -/
theorem lookup_foldl_pushUnder {le : α → α → Bool} {ps : List (β × α)} {l : List (α × List β)}
    {k : α} :
    ((ps.foldl (fun l p => pushUnder le l p.2 p.1) l).lookup k).getD [] =
      (l.lookup k).getD [] ++ (ps.filter fun p => p.2 = k).map Prod.fst := by
  induction ps generalizing l with
  | nil => simp
  | cons p ps ih =>
    rw [List.foldl_cons, ih, pushUnder, lookup_put]
    by_cases hk : p.2 = k
    · simp [hk]
    · simp [hk, Ne.symm hk]

omit [DecidableEq α] in
theorem keys_insertSorted_perm {le : α → α → Bool} (p : α × β) (l : List (α × β)) :
    (keys (insertSorted le p l)).Perm (p.1 :: keys l) := by
  induction l with
  | nil => exact List.Perm.refl _
  | cons q l ih =>
    rw [insertSorted]
    split
    · exact List.Perm.refl _
    · exact (ih.cons q.1).trans (List.Perm.swap p.1 q.1 _)

theorem nodup_keys_put {le : α → α → Bool} {p : α × β} {l : List (α × β)} (h : (keys l).Nodup) :
    (keys (put le p l)).Nodup := by
  refine (keys_insertSorted_perm p _).nodup_iff.mpr (List.nodup_cons.mpr ⟨fun hmem => ?_, ?_⟩)
  · obtain ⟨q, hq, hkey⟩ := List.mem_map.mp hmem
    exact of_decide_eq_true (List.mem_filter.mp hq).2 hkey
  · exact h.sublist (List.filter_sublist.map Prod.fst)

theorem mem_iff_lookup {l : List (α × β)} (h : (keys l).Nodup) {k : α} {v : β} :
    (k, v) ∈ l ↔ l.lookup k = some v := by
  induction l with
  | nil => simp
  | cons q l ih =>
    obtain ⟨hq, hl⟩ := List.nodup_cons.mp h
    obtain ⟨k', v'⟩ := q
    rw [List.lookup_cons, List.mem_cons]
    by_cases hk : k = k'
    · subst hk
      rw [beq_self_eq_true]
      constructor
      · rintro (heq | hmem)
        · rw [(Prod.mk.inj heq).2]
        · exact absurd (mem_keys_of_mem hmem) hq
      · rintro ⟨⟩
        exact .inl rfl
    · rw [beq_false_of_ne hk]
      dsimp only
      rw [← ih hl]
      exact ⟨fun h => h.resolve_left fun heq => hk (Prod.mk.inj heq).1, .inr⟩

/-- Grouping a list of pairs: every key that occurs stands once, with what it collected in order. -/
theorem mem_foldl_pushUnder {le : α → α → Bool} {ps : List (β × α)} {k : α} {vs : List β} :
    (k, vs) ∈ ps.foldl (fun l p => pushUnder le l p.2 p.1) [] ↔
      vs = (ps.filter fun p => p.2 = k).map Prod.fst ∧ vs ≠ [] := by
  have hinv : ∀ (ps : List (β × α)) (l : List (α × List β)), (keys l).Nodup →
      (∀ q ∈ l, q.2 ≠ []) →
      (keys (ps.foldl (fun l p => pushUnder le l p.2 p.1) l)).Nodup ∧
        ∀ q ∈ ps.foldl (fun l p => pushUnder le l p.2 p.1) l, q.2 ≠ [] := by
    intro ps
    induction ps with
    | nil => exact fun l hl hne => ⟨hl, hne⟩
    | cons p ps ih =>
      intro l hl hne
      refine ih _ (nodup_keys_put hl) fun q hq => ?_
      rcases mem_put.mp hq with rfl | ⟨hq, -⟩
      · simp
      · exact hne q hq
  obtain ⟨hkeys, hne⟩ := hinv ps [] List.nodup_nil (by simp)
  have hlookup : ((ps.foldl (fun l p => pushUnder le l p.2 p.1) []).lookup k).getD [] =
      (ps.filter fun p => p.2 = k).map Prod.fst := lookup_foldl_pushUnder
  rw [mem_iff_lookup hkeys, ← hlookup]
  constructor
  · intro h
    rw [h]
    exact ⟨rfl, hne _ ((mem_iff_lookup hkeys).mpr h)⟩
  · rintro ⟨rfl, hvs⟩
    cases h : (ps.foldl (fun l p => pushUnder le l p.2 p.1) []).lookup k with
    | none => exact absurd (by rw [h]; rfl) hvs
    | some vs => rfl

theorem lookup_assign {l : List (α × β)} {p : α × β} {k : α} :
    (assign l p).lookup k = if p.1 = k then some p.2 else l.lookup k := by
  obtain ⟨k₀, v⟩ := p
  rw [assign, List.lookup_append, lookup_filter_ne, List.lookup_cons, List.lookup_nil]
  by_cases hk : k₀ = k
  · simp [hk]
  · have hb : (k == k₀) = false := by simpa using Ne.symm hk
    simp [hb, hk, Ne.symm hk]

theorem nodup_keys_assign {l : List (α × β)} (p : α × β) (h : (keys l).Nodup) :
    (keys (assign l p)).Nodup := by
  rw [assign, keys_append]
  refine List.Nodup.append ?_ (List.nodup_singleton p.1) ?_
  · exact h.sublist (List.filter_sublist.map Prod.fst)
  · refine List.disjoint_singleton.mpr fun hmem => ?_
    obtain ⟨q, hq, hkey⟩ := List.mem_map.mp hmem
    exact of_decide_eq_true (List.mem_filter.mp hq).2 hkey

theorem nodup_keys_foldl_overwrite {l : List (α × β)} (m : List (α × β)) (h : (keys l).Nodup) :
    (keys (m.foldl overwrite l)).Nodup := by
  induction m generalizing l with
  | nil => exact h
  | cons p m ih => exact ih (nodup_keys_overwrite p h)

/-- What is pushed onto a list are the elements that are new, once each and in their order. -/
theorem foldl_pushNew_eq (m l : List α) :
    ∃ new, m.foldl pushNew l = l ++ new ∧ new.Nodup ∧ new.Sublist m ∧
      ∀ a, a ∈ new ↔ a ∈ m ∧ a ∉ l := by
  induction m generalizing l with
  | nil => exact ⟨[], (List.append_nil l).symm, List.nodup_nil, List.Sublist.refl [], by simp⟩
  | cons b m ih =>
    rw [List.foldl_cons, pushNew]
    by_cases hb : b ∈ l
    · obtain ⟨new, hnew, hnodup, hsub, hmem⟩ := ih l
      rw [if_pos hb]
      refine ⟨new, hnew, hnodup, hsub.cons b, fun a => ?_⟩
      rw [hmem, List.mem_cons]
      constructor
      · exact fun h => ⟨.inr h.1, h.2⟩
      · intro h
        exact ⟨h.1.resolve_left fun hab => h.2 (hab ▸ hb), h.2⟩
    · obtain ⟨new, hnew, hnodup, hsub, hmem⟩ := ih (l ++ [b])
      rw [if_neg hb]
      have hbnew : b ∉ new := fun h => ((hmem b).mp h).2 (List.mem_append_right l List.mem_cons_self)
      refine ⟨b :: new, by rw [hnew, List.append_assoc]; rfl, hnodup.cons hbnew, hsub.cons_cons b,
        fun a => ?_⟩
      rw [List.mem_cons, hmem, List.mem_append, List.mem_singleton, List.mem_cons]
      by_cases hab : a = b
      · subst hab
        simp [hb]
      · simp [hab]

end Assoc
