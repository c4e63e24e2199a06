import Shellflow.Lib.Str

/-! Replacing a pattern in a text that is given in pieces. Where every occurrence of the pattern is
one of its own pieces, the pieces are replaced and nothing else. -/
namespace Shellflow.Pieces

section Pieces
variable {τ : Type} {text : τ → List Char} {Own : τ → Prop} {pat : List Char} {l : List τ}

/-- An occurrence of the pattern is a piece that is its own. -/
def OnlyOwn (text : τ → List Char) (Own : τ → Prop) (pat : List Char) (l : List τ) : Prop :=
  ∀ x y, l.flatMap text = x ++ pat ++ y →
    ∃ l₁ t l₂, l = l₁ ++ t :: l₂ ∧ Own t ∧ l₁.flatMap text = x ∧ l₂.flatMap text = y

/-- The pieces behind a piece have no other occurrences. -/
theorem OnlyOwn.tail {l₁ l₂ : List τ} {t : τ} (h : OnlyOwn text Own pat (l₁ ++ t :: l₂))
    (hne : pat ≠ []) (ht : text t = pat) : OnlyOwn text Own pat l₂ := by
  intro x y heq
  have hpos : 0 < pat.length := List.length_pos_iff.mpr hne
  have hwhole : (l₁ ++ t :: l₂).flatMap text = (l₁.flatMap text ++ pat ++ x) ++ pat ++ y := by
    rw [List.flatMap_append, List.flatMap_cons, ht, heq]
    simp only [List.append_assoc]
  obtain ⟨u, s, v, hsplit, hown, hu, hv⟩ := h _ _ hwhole
  rcases List.append_eq_append_iff.mp hsplit with ⟨a, rfl, htail⟩ | ⟨a, rfl, htail⟩
  · cases a with
    | nil =>
      rw [List.append_nil] at hu
      have hlen := congrArg List.length hu
      simp only [List.length_append] at hlen
      omega
    | cons b a =>
      obtain ⟨rfl, rfl⟩ := List.cons.inj htail
      rw [List.flatMap_append, List.flatMap_cons, ht, List.append_assoc] at hu
      exact ⟨a, s, v, rfl, hown, List.append_cancel_left (List.append_cancel_left hu), hv⟩
  · -- the other piece cannot begin in front of this one
    have hlen := congrArg List.length hu
    rw [List.flatMap_append] at hlen
    simp only [List.length_append] at hlen
    omega

/-- Where the pattern does not occur no piece is its own. -/
theorem flatMap_own_of_absent [DecidablePred Own] (rep : List Char)
    (hown : ∀ t ∈ l, Own t → text t = pat) (h : ¬ pat <:+: l.flatMap text) :
    (l.flatMap fun t => if Own t then rep else text t) = l.flatMap text := by
  refine List.flatMap_congr fun t ht => if_neg fun hmine => h ?_
  obtain ⟨l₁, l₂, rfl⟩ := List.append_of_mem ht
  exact ⟨l₁.flatMap text, l₂.flatMap text, by
    rw [List.flatMap_append, List.flatMap_cons, hown t ht hmine, List.append_assoc]⟩

theorem replaceFrom_pieces [DecidablePred Own] (rep : List Char) (hne : pat ≠ [])
    (hown : ∀ t ∈ l, Own t → text t = pat) (h : OnlyOwn text Own pat l) :
    Str.replaceFrom pat rep 0 (l.flatMap text) =
      l.flatMap fun t => if Own t then rep else text t := by
  induction hn : l.length using Nat.strongRecOn generalizing l with
  | ind n ih =>
    rw [Str.replaceFrom_eq rep hne]
    cases hsplit : Str.splitOnceChars pat (l.flatMap text) with
    | none => exact (flatMap_own_of_absent rep hown (Str.not_infix_of_splitOnce_none hsplit)).symm
    | some parts =>
      obtain ⟨before, after⟩ := parts
      obtain ⟨l₁, t, l₂, rfl, hmine, rfl, rfl⟩ := h before after (Str.splitOnceChars_eq hsplit)
      have ht : text t = pat := hown t (List.mem_append_right _ List.mem_cons_self) hmine
      have hfront := flatMap_own_of_absent rep
        (fun s hs => hown s (List.mem_append_left _ hs)) (Str.not_infix_before hne hsplit)
      have hlen : l₂.length < n := by
        rw [← hn, List.length_append, List.length_cons]
        omega
      have hrest := ih l₂.length hlen
        (fun s hs => hown s (List.mem_append_right _ (List.mem_cons_of_mem _ hs))) (h.tail hne ht) rfl
      dsimp only
      rw [hrest, List.flatMap_append, List.flatMap_cons, hfront, if_pos hmine, List.append_assoc]

/-- Where a mark stands only at the start of a piece, an occurrence of it begins a piece. -/
theorem exists_piece_of_mark {mark : Char} {x z : List Char}
    (hmark : ∀ t ∈ l, ∀ u w, text t = u ++ mark :: w → u = [])
    (h : l.flatMap text = x ++ mark :: z) :
    ∃ l₁ t l₂ u, l = l₁ ++ t :: l₂ ∧ text t = mark :: u ∧ l₁.flatMap text = x ∧
      u ++ l₂.flatMap text = z := by
  induction l generalizing x with
  | nil =>
    have hnil : x ++ mark :: z = [] := h.symm
    cases x <;> cases hnil
  | cons t l ih =>
    rw [List.forall_mem_cons] at hmark
    rw [List.flatMap_cons] at h
    have hlater : ∀ a, l.flatMap text = a ++ mark :: z → ∃ l₁ s l₂ u, t :: l = l₁ ++ s :: l₂ ∧
        text s = mark :: u ∧ l₁.flatMap text = text t ++ a ∧ u ++ l₂.flatMap text = z := by
      intro a ha
      obtain ⟨l₁, s, l₂, u, rfl, hs, hl₁, hz⟩ := ih hmark.2 ha
      exact ⟨t :: l₁, s, l₂, u, rfl, hs, by rw [List.flatMap_cons, hl₁], hz⟩
    rcases List.append_eq_append_iff.mp h with ⟨a, rfl, hrest⟩ | ⟨a, hpiece, hrest⟩
    · exact hlater a hrest
    · cases a with
      | nil =>
        rw [List.append_nil] at hpiece
        obtain ⟨l₁, s, l₂, u, heq, hs, hl₁, hz⟩ := hlater [] hrest.symm
        exact ⟨l₁, s, l₂, u, heq, hs, by rw [hl₁, hpiece, List.append_nil], hz⟩
      | cons d a =>
        obtain ⟨rfl, rfl⟩ := List.cons.inj hrest
        obtain rfl := hmark.1 x a hpiece
        exact ⟨[], t, l, a, rfl, hpiece, rfl, rfl⟩

end Pieces

end Shellflow.Pieces
