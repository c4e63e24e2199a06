import Shellflow.Mask.Masker

/-! Which value the masker follows over a line break: of all values that begin at the end of the
line, the one with the longest part there. -/
namespace Shellflow

/-- `secret.take k` is a proper prefix of the value that ends the line. -/
def IsTail (line secret : Text) (k : Nat) : Prop :=
  0 < k ∧ k < secret.length ∧ secret.take k <:+ line

theorem mem_prefixBoundaries {s : Text} {k : Nat} :
    k ∈ prefixBoundaries s ↔ 0 < k ∧ k < s.length := by
  simp only [prefixBoundaries, List.mem_reverse, List.mem_range'_1]
  omega

theorem pairwise_prefixBoundaries (s : Text) : (prefixBoundaries s).Pairwise (· > ·) := by
  rw [prefixBoundaries, List.pairwise_reverse]
  exact List.pairwise_lt_range'

theorem isTail_iff {line secret : Text} {k : Nat} :
    IsTail line secret k ↔ k ∈ prefixBoundaries secret ∧
      (k ≤ line.length && (secret.take k).isSuffixOf line) = true := by
  rw [mem_prefixBoundaries, Bool.and_eq_true, decide_eq_true_eq, List.isSuffixOf_iff_suffix]
  constructor
  · rintro ⟨hpos, hlt, htail⟩
    have hlen : (secret.take k).length ≤ line.length := htail.length_le
    rw [List.length_take] at hlen
    exact ⟨⟨hpos, hlt⟩, by omega, htail⟩
  · rintro ⟨⟨hpos, hlt⟩, -, htail⟩
    exact ⟨hpos, hlt, htail⟩

theorem longestTail_some {line secret : Text} {k : Nat} (h : longestTail line secret = some k) :
    IsTail line secret k ∧ ∀ j, IsTail line secret j → j ≤ k := by
  obtain ⟨hk, longer, shorter, hsplit, hlonger⟩ := List.find?_eq_some_iff_append.mp h
  have hmem : k ∈ prefixBoundaries secret := hsplit ▸ List.mem_append_right _ List.mem_cons_self
  refine ⟨isTail_iff.mpr ⟨hmem, hk⟩, fun j hj => ?_⟩
  obtain ⟨hjmem, hjtail⟩ := isTail_iff.mp hj
  have hdesc := pairwise_prefixBoundaries secret
  rw [hsplit] at hjmem hdesc
  rcases List.mem_append.mp hjmem with hj | hj
  · have := hlonger j hj
    rw [hjtail] at this
    cases this
  · rcases List.mem_cons.mp hj with rfl | hj
    · exact Nat.le_refl j
    · have hlt := List.rel_of_pairwise_cons (List.pairwise_append.mp hdesc).2.1 hj
      exact Nat.le_of_lt hlt

theorem longestTail_none {line secret : Text} (h : longestTail line secret = none) (j : Nat) :
    ¬ IsTail line secret j := by
  intro hj
  obtain ⟨hmem, htail⟩ := isTail_iff.mp hj
  exact List.find?_eq_none.mp h j hmem htail

/-- The value the masker follows: the longest tail there is, of the first value that has it. -/
def LongestTail (masks : List Text) (line : Text) (k : Nat) (secret : Text) : Prop :=
  ∃ before after, masks = before ++ secret :: after ∧ IsTail line secret k ∧
    (∀ v ∈ before, ∀ j, IsTail line v j → j < k) ∧
    ∀ v ∈ secret :: after, ∀ j, IsTail line v j → j ≤ k

theorem LongestTail.unique {masks : List Text} {line s t : Text} {k j : Nat}
    (hs : LongestTail masks line k s) (ht : LongestTail masks line j t) : k = j ∧ s = t := by
  obtain ⟨b₁, a₁, hsplit₁, htail₁, hb₁, ha₁⟩ := hs
  obtain ⟨b₂, a₂, hsplit₂, htail₂, hb₂, ha₂⟩ := ht
  rcases List.append_eq_append_iff.mp (hsplit₁.symm.trans hsplit₂) with ⟨c, hb, hc⟩ | ⟨c, hb, hc⟩
  · cases c with
    | nil =>
      obtain ⟨rfl, -⟩ := List.cons.inj hc
      exact ⟨Nat.le_antisymm (ha₂ s List.mem_cons_self k htail₁)
        (ha₁ s List.mem_cons_self j htail₂), rfl⟩
    | cons x c =>
      obtain ⟨rfl, hafter⟩ := List.cons.inj hc
      have hlt := hb₂ s (hb ▸ List.mem_append_right b₁ List.mem_cons_self) k htail₁
      have hmem : t ∈ s :: a₁ :=
        hafter ▸ List.mem_cons_of_mem s (List.mem_append_right c List.mem_cons_self)
      exact absurd (ha₁ t hmem j htail₂) (by omega)
  · cases c with
    | nil =>
      obtain ⟨rfl, -⟩ := List.cons.inj hc
      exact ⟨Nat.le_antisymm (ha₂ t List.mem_cons_self k htail₁)
        (ha₁ t List.mem_cons_self j htail₂), rfl⟩
    | cons x c =>
      obtain ⟨rfl, hafter⟩ := List.cons.inj hc
      have hlt := hb₁ t (hb ▸ List.mem_append_right b₂ List.mem_cons_self) j htail₂
      have hmem : s ∈ t :: a₂ :=
        hafter ▸ List.mem_cons_of_mem t (List.mem_append_right c List.mem_cons_self)
      exact absurd (ha₂ s hmem k htail₁) (by omega)

/-- The answer of the search over the values seen so far. -/
def BestTail (line : Text) (seen : List Text) : Option (Nat × Text) → Prop
  | none => ∀ v ∈ seen, ∀ j, ¬ IsTail line v j
  | some (k, secret) => LongestTail seen line k secret

theorem bestTail_step {line : Text} {seen : List Text} {best : Option (Nat × Text)} (v : Text)
    (h : BestTail line seen best) : BestTail line (seen ++ [v]) (betterTail line best v) := by
  unfold betterTail
  cases hv : longestTail line v with
  | none =>
    have hnone := longestTail_none hv
    cases best with
    | none =>
      intro u hu j
      rcases List.mem_append.mp hu with hu | hu
      · exact h u hu j
      · exact List.mem_singleton.mp hu ▸ hnone j
    | some b =>
      obtain ⟨before, after, rfl, htail, hbefore, hafter⟩ := h
      refine ⟨before, after ++ [v], by simp, htail, hbefore, fun u hu j hj => ?_⟩
      rcases List.mem_append.mp (List.cons_append ▸ hu : u ∈ (b.2 :: after) ++ [v]) with hu | hu
      · exact hafter u hu j hj
      · exact absurd (List.mem_singleton.mp hu ▸ hj) (hnone j)
  | some k =>
    obtain ⟨htail, hmax⟩ := longestTail_some hv
    have hlast : ∀ u ∈ [v], ∀ j, IsTail line u j → j ≤ k := by
      intro u hu j hj
      exact hmax j (List.mem_singleton.mp hu ▸ hj)
    cases best with
    | none => exact ⟨seen, [], rfl, htail, fun u hu j hj => absurd hj (h u hu j), hlast⟩
    | some b =>
      obtain ⟨j₀, s⟩ := b
      obtain ⟨before, after, rfl, hs, hbefore, hafter⟩ := h
      have hseen : ∀ u ∈ before ++ s :: after, ∀ j, IsTail line u j → j ≤ j₀ := by
        intro u hu j hj
        rcases List.mem_append.mp hu with hu | hu
        · exact Nat.le_of_lt (hbefore u hu j hj)
        · exact hafter u hu j hj
      by_cases hlt : j₀ < k
      · simp only [Option.all_some, hlt, decide_true, if_true]
        exact ⟨before ++ s :: after, [], rfl, htail,
          fun u hu j hj => Nat.lt_of_le_of_lt (hseen u hu j hj) hlt, hlast⟩
      · simp only [Option.all_some, hlt, decide_false, Bool.false_eq_true, if_false]
        refine ⟨before, after ++ [v], by simp, hs, hbefore, fun u hu j hj => ?_⟩
        rcases List.mem_append.mp (List.cons_append ▸ hu : u ∈ (s :: after) ++ [v]) with hu | hu
        · exact hafter u hu j hj
        · have hle := hlast u hu j hj
          omega

theorem bestTail_foldl {line : Text} {best : Option (Nat × Text)} (seen rest : List Text) (h : BestTail line seen best) :
    BestTail line (seen ++ rest) (rest.foldl (betterTail line) best) := by
  induction rest generalizing seen best with
  | nil => simpa using h
  | cons v rest ih =>
    have hnext := ih (seen ++ [v]) (bestTail_step v h)
    simpa using hnext

theorem bestTail_tailPrefix (masks : List Text) (line : Text) :
    BestTail line masks (tailPrefix masks line) := by
  unfold tailPrefix
  split
  case isTrue hline =>
    intro v hv j hj
    obtain ⟨hpos, hlt, htail⟩ := hj
    rw [List.isEmpty_iff.mp hline, List.suffix_nil, List.take_eq_nil_iff] at htail
    rcases htail with rfl | rfl
    · exact absurd hpos (Nat.lt_irrefl 0)
    · exact absurd hlt (Nat.not_lt_zero j)
  case isFalse =>
    exact bestTail_foldl [] masks fun v hv => absurd hv List.not_mem_nil

theorem tailPrefix_eq_some_iff {masks : List Text} {line secret : Text} {k : Nat} :
    tailPrefix masks line = some (k, secret) ↔ LongestTail masks line k secret := by
  have hbest := bestTail_tailPrefix masks line
  constructor
  · intro h
    rwa [h] at hbest
  · intro h
    cases hfound : tailPrefix masks line with
    | none =>
      rw [hfound] at hbest
      obtain ⟨before, after, rfl, htail, -, -⟩ := h
      exact absurd htail (hbest secret (List.mem_append_right before List.mem_cons_self) k)
    | some b =>
      rw [hfound] at hbest
      obtain ⟨rfl, rfl⟩ := LongestTail.unique (t := b.2) h hbest
      rfl

end Shellflow
