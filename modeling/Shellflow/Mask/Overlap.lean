import Shellflow.Mask.WithinLine

/-! Occurrences of a value that overlap: the matcher reports one of them, and of another one the part
that sticks out is hidden only where some other range covers it. -/
namespace Shellflow

section
variable (secrets : List Text) (shorts : List (Text × Text)) (pending : List (Text × Nat))
  (line : Text)

/-- A character in a match of some value, in the continuation of a pending one, or in a tail that is
long enough. -/
def OtherwiseHidden (masks : List Text) (p : Nat) : Prop :=
  (∃ v ∈ masks, ∃ k ∈ Str.matchIndices v line, k ≤ p ∧ p < k + v.length) ∨
  (∃ entry ∈ pending, ∃ r, (continueValue line entry).1 = some r ∧ r.1 ≤ p ∧ p < r.1 + r.2) ∨
  ∃ r ∈ tailRange line (tailPrefix masks line), r.1 ≤ p ∧ p < r.1 + r.2

/-- Every character of every occurrence lies in a range. -/
def OccurrencesCovered (m : SecretMasker) : Prop :=
  ∀ v ∈ m.masks, ∀ i, v <+: line.drop i → ∀ p, i ≤ p → p < i + v.length →
    covered (m.lineRanges line) p = true

end

section
variable {m : SecretMasker} {line : Text}

theorem covered_lineRanges_iff (hmasks : ∀ v ∈ m.masks, v ≠ []) {p : Nat} :
    covered (m.lineRanges line) p = true ↔ OtherwiseHidden m.pending line m.masks p := by
  have hmatches : (∃ r ∈ occurrences m.masks line, r.1 ≤ p ∧ p < r.1 + r.2) ↔
      ∃ v ∈ m.masks, ∃ k ∈ Str.matchIndices v line, k ≤ p ∧ p < k + v.length := by
    constructor
    · rintro ⟨r, hr, hlo, hhi⟩
      obtain ⟨v, hv, -, k, hk, rfl⟩ := mem_occurrences.mp hr
      exact ⟨v, hv, k, hk, hlo, hhi⟩
    · rintro ⟨v, hv, k, hk, hlo, hhi⟩
      exact ⟨(k, v.length), mem_occurrences.mpr ⟨v, hv, hmasks v hv, k, hk, rfl⟩, hlo, hhi⟩
  have hpending : (∃ r ∈ m.pending.filterMap fun entry => (continueValue line entry).1,
      r.1 ≤ p ∧ p < r.1 + r.2) ↔
      ∃ entry ∈ m.pending, ∃ r, (continueValue line entry).1 = some r ∧ r.1 ≤ p ∧ p < r.1 + r.2 := by
    constructor
    · rintro ⟨r, hr, hp⟩
      obtain ⟨entry, hentry, hrange⟩ := List.mem_filterMap.mp hr
      exact ⟨entry, hentry, r, hrange, hp⟩
    · rintro ⟨entry, hentry, r, hrange, hp⟩
      exact ⟨r, List.mem_filterMap.mpr ⟨entry, hentry, hrange⟩, hp⟩
  rw [OtherwiseHidden, ← hmatches, ← hpending, covered_iff, SecretMasker.lineRanges]
  simp only [List.mem_append, or_and_right, exists_or, or_assoc]
  exact or_left_comm

/-- The part of an occurrence that lies in a match is hidden; the scan has passed over an occurrence
only where it begins inside a match. -/
theorem covered_of_sticking_out (hmasks : ∀ v ∈ m.masks, v ≠ []) {v : Text} (hv : v ∈ m.masks)
    (hout : ∀ k ∈ Str.matchIndices v line, ∀ i, k < i → i < k + v.length → v <+: line.drop i →
      ∀ p, k + v.length ≤ p → p < i + v.length → OtherwiseHidden m.pending line m.masks p)
    {i p : Nat} (hi : v <+: line.drop i) (hlo : i ≤ p) (hhi : p < i + v.length) :
    OtherwiseHidden m.pending line m.masks p := by
  obtain ⟨k, hk, hki, hik⟩ := Str.matchIndices_overlap (hmasks v hv) hi
  by_cases hp : p < k + v.length
  · exact Or.inl ⟨v, hv, k, hk, by omega, hp⟩
  · exact hout k hk i (by omega) hik hi p (by omega) hhi

end

theorem occurrences_covered_iff (secrets : List Text) (shorts : List (Text × Text))
    (pending : List (Text × Nat)) (line : Text) :
    OccurrencesCovered line ⟨prepareMasks secrets, shorts, pending⟩ ↔
      ∀ v ∈ prepareMasks secrets, ∀ k ∈ Str.matchIndices v line, ∀ i, k < i → i < k + v.length →
        v <+: line.drop i → ∀ p, k + v.length ≤ p → p < i + v.length →
          OtherwiseHidden pending line (prepareMasks secrets) p := by
  have hmasks : ∀ v ∈ prepareMasks secrets, v ≠ [] := fun v hv => (mem_prepareMasks.mp hv).2
  have hcovered : ∀ p, covered (SecretMasker.lineRanges ⟨prepareMasks secrets, shorts, pending⟩ line) p =
      true ↔ OtherwiseHidden pending line (prepareMasks secrets) p := fun _ =>
    covered_lineRanges_iff hmasks
  constructor
  · intro hall v hv k _ i hki _ hi p hlo hhi
    exact (hcovered p).mp (hall v hv i hi p (by omega) hhi)
  · intro hout v hv i hi p hlo hhi
    exact (hcovered p).mpr (covered_of_sticking_out (m := ⟨prepareMasks secrets, shorts, pending⟩)
      hmasks hv (hout v hv) hi hlo hhi)

/-- The second of two overlapping occurrences keeps its end. -/
theorem overlapping_end_shown : ¬ ∀ (secrets : List Text) (shorts : List (Text × Text))
    (pending : List (Text × Nat)) (line : Text),
      OccurrencesCovered line ⟨prepareMasks secrets, shorts, pending⟩ := by
  intro hall
  have hv : "abcdab".toList ∈ prepareMasks ["abcdab".toList] := by decide
  have hcovered := hall ["abcdab".toList] [] [] "abcdabcdab.".toList _ hv 4 ⟨['.'], rfl⟩ 8 (by decide)
    (by decide)
  have hopen : covered (SecretMasker.lineRanges ⟨prepareMasks ["abcdab".toList], [], []⟩
      "abcdabcdab.".toList) 8 = false := by
    decide +kernel
  rw [hopen] at hcovered
  cases hcovered

end Shellflow
