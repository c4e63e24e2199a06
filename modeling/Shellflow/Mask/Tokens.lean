import Mathlib.Tactic.ByContra
import Shellflow.Mask.WithinLine

/-! Values below the threshold: which occurrences the token rule replaces, and when these are the ones
that stand alone. -/
namespace Shellflow.Tokens
open Masked

section Scan
variable (value line : Text)

def Occurs (i : Nat) : Prop := value <+: line.drop i

/-- Nothing of a word ends right before the position. -/
def leftFree (i : Nat) : Bool := (line.take i).getLast?.all fun c => !isWord c

/-- Nothing of a word begins at the position. -/
def rightFree (i : Nat) : Bool := (line.drop i).head?.all fun c => !isWord c

/-- Delimited on both sides in the line. -/
def Alone (i : Nat) : Prop := leftFree line i = true ∧ rightFree line (i + value.length) = true

def Overlaps (i k : Nat) : Prop := i < k + value.length ∧ k < i + value.length

/-- The scan has found another match right before this one. -/
def Behind (i : Nat) : Prop :=
  value.length ≤ i ∧ i - value.length ∈ Str.matchIndices value line

/-- A match that the scan replaces: behind another match it does not look to the left. -/
def Accepted (i : Nat) : Prop :=
  i ∈ Str.matchIndices value line ∧ (Behind value line i ∨ leftFree line i = true) ∧
    rightFree line (i + value.length) = true

instance (i : Nat) : Decidable (Behind value line i) := inferInstanceAs (Decidable (_ ∧ _))

instance (i : Nat) : Decidable (Accepted value line i) := inferInstanceAs (Decidable (_ ∧ _))

/-- A character of the line that is replaced; the mask in its own place is none. -/
def Hidden (p : Nat) : Prop :=
  value ≠ mask ∧ ∃ k, Accepted value line k ∧ k ≤ p ∧ p < k + value.length

def hidden (p : Nat) : Bool :=
  decide (value ≠ mask) &&
    (Str.matchIndices value line).any fun k => decide (Accepted value line k) && k ≤ p && p < k + value.length

end Scan

section Split
variable {value s before tail : Text}

theorem leftFree_first (hsplit : Str.splitOnceChars value s = some (before, tail)) :
    leftFree s before.length = before.getLast?.all fun c => !isWord c := by
  rw [leftFree, Str.splitOnceChars_eq hsplit, List.append_assoc, List.take_left]

theorem rightFree_later (hsplit : Str.splitOnceChars value s = some (before, tail)) (j : Nat) :
    rightFree s (before.length + value.length + j) = rightFree tail j := by
  have hlen : (before ++ value).length = before.length + value.length := List.length_append
  rw [rightFree, rightFree, Str.splitOnceChars_eq hsplit, ← hlen, List.drop_append]
  simp

theorem leftFree_later (hsplit : Str.splitOnceChars value s = some (before, tail)) {j : Nat}
    (hj : 0 < j) (htail : tail ≠ []) :
    leftFree s (before.length + value.length + j) = leftFree tail j := by
  have hlen : (before ++ value).length = before.length + value.length := List.length_append
  have htake : tail.take j ≠ [] := by
    simp only [ne_eq, List.take_eq_nil_iff, htail, or_false]
    omega
  rw [leftFree, leftFree, Str.splitOnceChars_eq hsplit, ← hlen, List.take_length_add_append,
    List.getLast?_append_of_ne_nil _ htake]

variable (hne : value ≠ [])
  (hsplit : Str.splitOnceChars value s = some (before, tail))
include hne hsplit

theorem behind_first : ¬ Behind value s before.length := by
  rintro ⟨hle, hmem⟩
  have hpos : 0 < value.length := List.length_pos_iff.mpr hne
  rcases (Str.mem_matchIndices_iff hne hsplit).mp hmem with h | ⟨j, -, h⟩ <;> omega

theorem behind_later {j : Nat} : Behind value s (before.length + value.length + j) ↔
    j = 0 ∨ Behind value tail j := by
  rw [Behind, Behind, Str.mem_matchIndices_iff hne hsplit]
  have hpos : 0 < value.length := List.length_pos_iff.mpr hne
  constructor
  · rintro ⟨hle, h | ⟨j', hj', h⟩⟩
    · left
      omega
    · right
      have hj : j - value.length = j' := by omega
      exact ⟨by omega, hj ▸ hj'⟩
  · rintro (rfl | ⟨hle, hmem⟩)
    · exact ⟨by omega, Or.inl (by omega)⟩
    · exact ⟨by omega, Or.inr ⟨_, hmem, by omega⟩⟩

theorem accepted_iff {i : Nat} : Accepted value s i ↔
    (i = before.length ∧ (before.getLast?.all fun c => !isWord c) = true ∧
      (tail.head?.all fun c => !isWord c) = true) ∨
    ∃ j, Accepted value tail j ∧ i = before.length + value.length + j := by
  have hpos : 0 < value.length := List.length_pos_iff.mpr hne
  have hfirst : rightFree s (before.length + value.length) = tail.head?.all fun c => !isWord c :=
    rightFree_later hsplit 0
  have hlater : ∀ j ∈ Str.matchIndices value tail,
      (Behind value s (before.length + value.length + j) ∨
        leftFree s (before.length + value.length + j) = true) ↔
      (Behind value tail j ∨ leftFree tail j = true) := by
    intro j hj
    rw [behind_later hne hsplit]
    by_cases hzero : j = 0
    · have hfree : leftFree tail j = true := by rw [hzero, leftFree, List.take_zero]; rfl
      simp [hzero, hzero ▸ hfree]
    · have htail : tail ≠ [] := by
        rintro rfl
        exact hne (by simpa using Str.mem_matchIndices hj)
      rw [leftFree_later hsplit (by omega) htail]
      simp [hzero]
  constructor
  · rintro ⟨hmem, hleft, hright⟩
    rcases (Str.mem_matchIndices_iff hne hsplit).mp hmem with rfl | ⟨j, hj, rfl⟩
    · left
      refine ⟨rfl, ?_, hfirst ▸ hright⟩
      rw [← leftFree_first hsplit]
      exact hleft.resolve_left (behind_first hne hsplit)
    · right
      refine ⟨j, ⟨hj, (hlater j hj).mp hleft, ?_⟩, rfl⟩
      rw [← rightFree_later hsplit, ← Nat.add_assoc]
      exact hright
  · rintro (⟨rfl, hleft, hright⟩ | ⟨j, ⟨hj, hleft, hright⟩, rfl⟩)
    · exact ⟨(Str.mem_matchIndices_iff hne hsplit).mpr (Or.inl rfl),
        Or.inr ((leftFree_first hsplit).trans hleft), hfirst.trans hright⟩
    · refine ⟨(Str.mem_matchIndices_iff hne hsplit).mpr (Or.inr ⟨j, hj, rfl⟩), (hlater j hj).mpr hleft, ?_⟩
      rw [Nat.add_assoc, rightFree_later hsplit]
      exact hright

end Split

theorem hidden_iff {value line : Text} {p : Nat} : hidden value line p = true ↔ Hidden value line p := by
  simp only [hidden, Hidden, Bool.and_eq_true, decide_eq_true_eq, List.any_eq_true]
  constructor
  · rintro ⟨hmask, k, -, ⟨hk, hlo⟩, hhi⟩
    exact ⟨hmask, k, hk, hlo, hhi⟩
  · rintro ⟨hmask, k, hk, hlo, hhi⟩
    exact ⟨hmask, k, hk.1, ⟨hk, hlo⟩, hhi⟩

theorem marks_append (a b : Text) (h : Nat → Bool) :
    marks (a ++ b) h = marks a h ++ marks b fun i => h (a.length + i) := by
  rw [marks, List.zipIdx_append, List.map_append, Nat.zero_add,
    List.zipIdx_eq_map_add (l := b) (i := a.length), List.map_map]
  rfl

/-- Every mark of a text comes from a position in it. -/
theorem snd_of_mem_marks {a : Text} {h : Nat → Bool} {p : Char × Bool} (hp : p ∈ marks a h) :
    ∃ i < a.length, p.2 = h i := by
  obtain ⟨i, hi⟩ := List.mem_iff_getElem?.mp hp
  obtain ⟨hlt, -⟩ := List.getElem?_eq_some_iff.mp hi
  rw [length_marks] at hlt
  exact ⟨i, hlt, getElem?_marks hi⟩

theorem marks_false {a : Text} {h : Nat → Bool} (hfalse : ∀ i < a.length, h i = false) :
    marks a h = plain a := by
  have hmarks : ∀ p ∈ marks a h, p.2 = false := by
    intro p hp
    obtain ⟨i, hi, hmark⟩ := snd_of_mem_marks hp
    rw [hmark, hfalse i hi]
  have hplain := eq_plain hmarks
  rwa [map_fst_marks] at hplain

theorem hides_marks_true {a : Text} {h : Nat → Bool} (hne : a ≠ [])
    (htrue : ∀ i < a.length, h i = true) : Hides mask (marks a h) mask := by
  refine hides_run ?_ fun p hp => ?_
  · intro hnil
    rw [← length_marks a h, hnil] at htrue
    exact hne (List.length_eq_zero_iff.mp (by rw [← length_marks a h, hnil]; rfl))
  · obtain ⟨i, hi, hmark⟩ := snd_of_mem_marks hp
    rw [hmark, htrue i hi]

section Scan
variable {value s before tail : Text} (hne : value ≠ [])
  (hsplit : Str.splitOnceChars value s = some (before, tail))
include hne hsplit

theorem hidden_before {p : Nat} (hp : p < before.length) : hidden value s p = false := by
  rw [Bool.eq_false_iff, ne_eq, hidden_iff]
  rintro ⟨-, k, hk, hlo, -⟩
  rcases (accepted_iff hne hsplit).mp hk with ⟨h, -⟩ | ⟨j, -, h⟩ <;> omega

/-- The first match is hidden as a whole or not at all. -/
theorem hidden_first {d : Nat} (hd : d < value.length) : hidden value s (before.length + d) = true ↔
    value ≠ mask ∧ (before.getLast?.all fun c => !isWord c) = true ∧
      (tail.head?.all fun c => !isWord c) = true := by
  rw [hidden_iff, Hidden]
  constructor
  · rintro ⟨hmask, k, hk, hlo, hhi⟩
    rcases (accepted_iff hne hsplit).mp hk with ⟨-, hleft, hright⟩ | ⟨j, -, h⟩
    · exact ⟨hmask, hleft, hright⟩
    · omega
  · rintro ⟨hmask, hleft, hright⟩
    exact ⟨hmask, before.length, (accepted_iff hne hsplit).mpr (Or.inl ⟨rfl, hleft, hright⟩),
      by omega, by omega⟩

theorem hidden_later (d : Nat) :
    hidden value s (before.length + value.length + d) = hidden value tail d := by
  rw [Bool.eq_iff_iff, hidden_iff, hidden_iff, Hidden, Hidden]
  constructor
  · rintro ⟨hmask, k, hk, hlo, hhi⟩
    rcases (accepted_iff hne hsplit).mp hk with ⟨h, -⟩ | ⟨j, hj, h⟩
    · omega
    · exact ⟨hmask, j, hj, by omega, by omega⟩
  · rintro ⟨hmask, j, hj, hlo, hhi⟩
    exact ⟨hmask, _, (accepted_iff hne hsplit).mpr (Or.inr ⟨j, hj, rfl⟩), by omega, by omega⟩

end Scan

theorem hides_maskTokenFrom {value : Text} (hne : value ≠ []) (line : Text) :
    Hides mask (marks line (hidden value line)) (maskTokenFrom value hne line) := by
  induction line using Str.occurrence_induction hne with
  | none s hsplit =>
    have hno : Str.matchIndices value s = [] := by
      rw [Str.matchIndices, Str.matchIndicesFrom_eq hne, hsplit]
    have hplain : marks s (hidden value s) = plain s := by
      apply marks_false
      intro i _
      rw [hidden, hno, List.any_nil, Bool.and_false]
    rw [maskTokenFrom, hsplit, hplain]
    exact hides_plain s
  | some s before tail hsplit ih =>
    have hs := Str.splitOnceChars_eq hsplit
    have hmarks : marks s (hidden value s) = plain before ++
        marks value (fun i => hidden value s (before.length + i)) ++
          marks tail (hidden value tail) := by
      nth_rewrite 1 [hs]
      rw [marks_append, marks_append, marks_false fun i hi => hidden_before hne hsplit hi]
      congr 2
      funext i
      rw [List.length_append, hidden_later hne hsplit]
    rw [maskTokenFrom, hsplit, hmarks]
    refine ((hides_plain before).append ?_).append ih
    by_cases hok : ((before.getLast?.all fun c => !isWord c) &&
        tail.head?.all fun c => !isWord c) = true
    · rw [if_pos hok]
      obtain ⟨hleft, hright⟩ := Bool.and_eq_true_iff.mp hok
      by_cases hmask : value = mask
      · rw [marks_false fun i hi => Bool.eq_false_iff.mpr fun hhidden =>
          ((hidden_first hne hsplit hi).mp hhidden).1 hmask, hmask]
        exact hides_plain mask
      · exact hides_marks_true hne fun i hi => (hidden_first hne hsplit hi).mpr ⟨hmask, hleft, hright⟩
    · rw [if_neg hok, marks_false fun i hi => Bool.eq_false_iff.mpr fun hhidden =>
        hok (Bool.and_eq_true_iff.mpr ((hidden_first hne hsplit hi).mp hhidden).2)]
      exact hides_plain value

section Claim
variable (line value : Text)

/-- The rule as it is told: what it leaves holds no occurrence that stands alone, and an occurrence
that does not is left as it is. -/
structure TokenExact : Prop where
  redacts : '*' ∉ value → ∀ before after, maskToken line value = before ++ value ++ after →
    ¬ ((before.getLast?.all fun c => !isWord c) = true ∧ (after.head?.all fun c => !isWord c) = true)
  spares : ∀ i, Occurs value line i → ¬ Alone value line i →
    ∀ p, i ≤ p → p < i + value.length → ¬ Hidden value line p

/-- Where occurrences that touch or overlap mislead the scan. -/
structure TokenClear : Prop where
  behind : value ≠ mask → ∀ k, Accepted value line k → Behind value line k → leftFree line k = true
  overlap : value ≠ mask → ∀ i k, Occurs value line i → Accepted value line k → i ≠ k →
    Overlaps value i k → Alone value line i
  unseen : '*' ∉ value → ∀ i, Occurs value line i →
    (∀ k, Accepted value line k → ¬ Overlaps value i k) →
      (leftFree line i = false ∧ ¬ Hidden value line (i - 1)) ∨
      (rightFree line (i + value.length) = false ∧ ¬ Hidden value line (i + value.length))

end Claim

section
variable {line value : Text}

theorem spares_iff (hne : value ≠ []) : (∀ i, Occurs value line i → ¬ Alone value line i →
      ∀ p, i ≤ p → p < i + value.length → ¬ Hidden value line p) ↔
    (value ≠ mask → ∀ k, Accepted value line k → Behind value line k → leftFree line k = true) ∧
    (value ≠ mask → ∀ i k, Occurs value line i → Accepted value line k → i ≠ k →
      Overlaps value i k → Alone value line i) := by
  have hpos : 0 < value.length := List.length_pos_iff.mpr hne
  constructor
  · intro hspares
    have hall : value ≠ mask → ∀ i k, Occurs value line i → Accepted value line k →
        Overlaps value i k → Alone value line i := by
      intro hmask i k hi hk hover
      by_contra halone
      obtain ⟨hlo, hhi⟩ := hover
      exact hspares i hi halone (max i k) (by omega) (by omega) ⟨hmask, k, hk, by omega, by omega⟩
    refine ⟨fun hmask k hk _ => ?_, fun hmask i k hi hk _ hover => hall hmask i k hi hk hover⟩
    exact (hall hmask k k (Str.mem_matchIndices hk.1) hk ⟨by omega, by omega⟩).1
  · rintro ⟨hbehind, hoverlap⟩ i hi halone p hlo hhi ⟨hmask, k, hk, hlo', hhi'⟩
    by_cases hik : i = k
    · rw [hik] at halone
      exact halone ⟨hk.2.1.elim (hbehind hmask k hk) id, hk.2.2⟩
    · exact halone (hoverlap hmask i k hi hk hik ⟨by omega, by omega⟩)

/-- A place in the output where nothing of a word ends: there is none in the line, or it is gone. -/
theorem leftFree_out {l₁ l₂ : List (Char × Bool)} {before : Text}
    (hmarks : marks line (hidden value line) = l₁ ++ l₂) (hbefore : Hides mask l₁ before) :
    (before.getLast?.all fun c => !isWord c) = true ↔
      ¬ (leftFree line l₁.length = false ∧ ¬ Hidden value line (l₁.length - 1)) := by
  have hfst : line = l₁.map Prod.fst ++ l₂.map Prod.fst := by
    rw [← List.map_append, ← hmarks, map_fst_marks]
  have hfree : leftFree line l₁.length = (l₁.getLast?.map Prod.fst).all fun c => !isWord c := by
    rw [leftFree, hfst, List.take_left' (List.length_map _), List.getLast?_map]
  rw [hbefore.getLast? rfl, hfree, ← hidden_iff]
  cases hlast : l₁.getLast? with
  | none => simp
  | some p =>
    have hget : (marks line (hidden value line))[l₁.length - 1]? = some p := by
      have hne : l₁ ≠ [] := by
        rintro rfl
        cases hlast
      have hpos : 0 < l₁.length := List.length_pos_iff.mpr hne
      rw [hmarks, List.getElem?_append_left (by omega), ← List.getLast?_eq_getElem?]
      exact hlast
    have hmark := getElem?_marks hget
    rw [← hmark]
    cases hp : p.2 with
    | true =>
      have hword : isWord '*' = false := by decide
      simp [hp, hword]
    | false => simp [hp]

theorem rightFree_out {l₁ l₂ : List (Char × Bool)} {after : Text}
    (hmarks : marks line (hidden value line) = l₁ ++ l₂) (hafter : Hides mask l₂ after) :
    (after.head?.all fun c => !isWord c) = true ↔
      ¬ (rightFree line l₁.length = false ∧ ¬ Hidden value line l₁.length) := by
  have hfst : line = l₁.map Prod.fst ++ l₂.map Prod.fst := by
    rw [← List.map_append, ← hmarks, map_fst_marks]
  have hfree : rightFree line l₁.length = (l₂.head?.map Prod.fst).all fun c => !isWord c := by
    rw [rightFree, hfst, List.drop_left' (List.length_map _), List.head?_map]
  rw [hafter.head? rfl, hfree, ← hidden_iff]
  cases l₂ with
  | nil => simp
  | cons p l₂ =>
    have hget : (marks line (hidden value line))[l₁.length]? = some p := by
      rw [hmarks, List.getElem?_append_right (Nat.le_refl _), Nat.sub_self]
      rfl
    have hmark := getElem?_marks hget
    rw [← hmark]
    cases hp : p.2 with
    | true =>
      have hword : isWord '*' = false := by decide
      simp [hp, hword]
    | false => simp [hp]

/-- An occurrence that overlaps nothing accepted is an unmarked part of the line, and the other way
round. -/
theorem unmarked_iff (hne : value ≠ []) (hmask : value ≠ mask) {i : Nat} :
    (Occurs value line i ∧ ∀ k, Accepted value line k → ¬ Overlaps value i k) ↔
      ∃ l₁ l₂, marks line (hidden value line) = l₁ ++ plain value ++ l₂ ∧ l₁.length = i := by
  constructor
  · rintro ⟨⟨rest, hrest⟩, hclear⟩
    have hi : i ≤ line.length := by
      by_contra hlt
      rw [List.drop_eq_nil_of_le (by omega)] at hrest
      exact hne (List.append_eq_nil_iff.mp hrest).1
    have hlen : (line.take i).length = i := by rw [List.length_take]; omega
    have hwhole : line = line.take i ++ (value ++ rest) := by rw [hrest, List.take_append_drop]
    refine ⟨marks (line.take i) (hidden value line),
      marks rest fun d => hidden value line (i + (value.length + d)), ?_, by rw [length_marks, hlen]⟩
    nth_rewrite 1 [hwhole]
    rw [marks_append, marks_append, marks_false (a := value), List.append_assoc]
    · simp only [hlen]
    · intro d hd
      rw [Bool.eq_false_iff, ne_eq, hidden_iff, hlen]
      rintro ⟨-, k, hk, hlo, hhi⟩
      exact hclear k hk ⟨by omega, by omega⟩
  · rintro ⟨l₁, l₂, hmarks, rfl⟩
    have hfst : line = l₁.map Prod.fst ++ (value ++ l₂.map Prod.fst) := by
      have h := congrArg (List.map Prod.fst) hmarks
      simpa using h
    refine ⟨?_, fun k hk hover => ?_⟩
    · rw [Occurs, hfst, List.drop_left' (List.length_map _)]
      exact List.prefix_append value _
    · have hpos : 0 < value.length := List.length_pos_iff.mpr hne
      obtain ⟨hlo, hhi⟩ := hover
      have hhidden : hidden value line (max l₁.length k) = true :=
        hidden_iff.mpr ⟨hmask, k, hk, by omega, by omega⟩
      rw [hidden_eq_false hmarks (by omega) (by omega)] at hhidden
      cases hhidden

theorem redacts_iff (hne : value ≠ []) (hstar : '*' ∉ value) :
    (∀ before after, maskToken line value = before ++ value ++ after →
      ¬ ((before.getLast?.all fun c => !isWord c) = true ∧
        (after.head?.all fun c => !isWord c) = true)) ↔
    ∀ i, Occurs value line i → (∀ k, Accepted value line k → ¬ Overlaps value i k) →
      (leftFree line i = false ∧ ¬ Hidden value line (i - 1)) ∨
      (rightFree line (i + value.length) = false ∧ ¬ Hidden value line (i + value.length)) := by
  have hmask : value ≠ mask := fun h => hstar (h ▸ List.mem_cons_self)
  have hhides : Hides mask (marks line (hidden value line)) (maskToken line value) := by
    rw [maskToken, dif_neg hne]
    exact hides_maskTokenFrom hne line
  have hends : ∀ {l₁ l₂ before after}, marks line (hidden value line) = l₁ ++ plain value ++ l₂ →
      Hides mask l₁ before → Hides mask l₂ after →
      (((before.getLast?.all fun c => !isWord c) = true ∧
        (after.head?.all fun c => !isWord c) = true) ↔
      ¬ ((leftFree line l₁.length = false ∧ ¬ Hidden value line (l₁.length - 1)) ∨
        (rightFree line (l₁.length + value.length) = false ∧
          ¬ Hidden value line (l₁.length + value.length)))) := by
    intro l₁ l₂ before after hmarks hbefore hafter
    have hlen : (l₁ ++ plain value).length = l₁.length + value.length := by simp
    rw [leftFree_out (by rw [hmarks, List.append_assoc]) hbefore, rightFree_out hmarks hafter, hlen,
      not_or]
  constructor
  · intro hredacts i hi hclear
    obtain ⟨l₁, l₂, hmarks, rfl⟩ := (unmarked_iff hne hmask).mp ⟨hi, hclear⟩
    obtain ⟨x, t, rfl⟩ := List.exists_cons_of_ne_nil hne
    rw [hmarks, List.append_assoc] at hhides
    obtain ⟨before, rest, hout, hbefore, hrest⟩ := hhides.split
    obtain ⟨after, rfl, hafter⟩ := hrest.start
    by_contra hnot
    refine hredacts before after ?_ ((hends hmarks hbefore hafter).mpr hnot)
    rw [hout, List.append_assoc]
    rfl
  · intro hunseen before after hout halone
    rw [hout, List.append_assoc] at hhides
    obtain ⟨x, t, rfl⟩ := List.exists_cons_of_ne_nil hne
    obtain ⟨l₁, l₂, hmarks, hbefore, hl₂⟩ := hhides.cut (notMem_mask hstar x List.mem_cons_self)
    obtain ⟨l₃, rfl, hafter⟩ := Hides.of_start (s := x :: t) hl₂ hstar
    rw [← List.append_assoc] at hmarks
    obtain ⟨hi, hclear⟩ := (unmarked_iff hne hmask).mpr ⟨l₁, l₃, hmarks, rfl⟩
    exact (hends hmarks hbefore hafter).mp halone (hunseen _ hi hclear)

theorem token_exact_iff (line : Text) {value : Text} (hne : value ≠ []) :
    TokenExact line value ↔ TokenClear line value := by
  constructor
  · rintro ⟨hredacts, hspares⟩
    obtain ⟨hbehind, hoverlap⟩ := (spares_iff hne).mp hspares
    exact ⟨hbehind, hoverlap, fun hstar => (redacts_iff hne hstar).mp (hredacts hstar)⟩
  · rintro ⟨hbehind, hoverlap, hunseen⟩
    exact ⟨fun hstar => (redacts_iff hne hstar).mpr (hunseen hstar),
      (spares_iff hne).mpr ⟨hbehind, hoverlap⟩⟩

theorem token_exact_iff_number : TokenExact "order=123456".toList "12345".toList ↔
    TokenClear "order=123456".toList "12345".toList :=
  token_exact_iff _ (by decide)

/-- The second half of a word is taken for a word of its own. -/
theorem repeated_value_altered :
    ¬ ∀ line value : Text, value ≠ [] → TokenExact line value := by
  intro hall
  have hspares := (hall "abab".toList "ab".toList (by decide)).spares 2 ⟨[], rfl⟩
  have hhidden : Hidden "ab".toList "abab".toList 2 := hidden_iff.mp (by decide)
  refine hspares ?_ 2 (by omega) (by decide) hhidden
  rw [Alone]
  decide

end

end Shellflow.Tokens
