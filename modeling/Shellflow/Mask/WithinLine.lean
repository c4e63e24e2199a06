import Shellflow.Mask.Tail

/-! Complete values within one line. The ranges hide all of them, and neither the replacement of
whole values nor the rules for short ones put one together again. -/
namespace Shellflow
open Masked SecretMasker
variable {m : SecretMasker} {line : Text}

theorem mem_occurrences {masks : List Text} {r : Nat × Nat} :
    r ∈ occurrences masks line ↔
      ∃ v ∈ masks, v ≠ [] ∧ ∃ pos ∈ Str.matchIndices v line, (pos, v.length) = r := by
  rw [occurrences, List.mem_insertionSort, List.mem_flatMap]
  refine exists_congr fun v => and_congr_right fun _ => ?_
  cases v with
  | nil => simp
  | cons c v => simp

theorem continueValue_range {entry : Text × Nat} {r : Nat × Nat}
    (h : (continueValue line entry).1 = some r) :
    r = (0, line.length) ∨
      entry.1.drop entry.2 ≠ [] ∧ entry.1.drop entry.2 <+: line ∧
        r = (0, (entry.1.drop entry.2).length) := by
  unfold continueValue at h
  by_cases hdone : (entry.1.drop entry.2).isEmpty = true
  · simp [hdone] at h
  · by_cases hwhole : line.isPrefixOf (entry.1.drop entry.2) = true
    · simp only [hdone, hwhole, if_true, Bool.false_eq_true, if_false, Option.some.injEq] at h
      exact Or.inl h.symm
    · by_cases hends : (entry.1.drop entry.2).isPrefixOf line = true
      · simp only [hdone, hwhole, hends, if_true, Bool.false_eq_true, if_false,
          Option.some.injEq] at h
        exact Or.inr ⟨by simpa using hdone, List.isPrefixOf_iff_prefix.mp hends, h.symm⟩
      · simp [hdone, hwhole, hends] at h

theorem rangesFit_lineRanges (m : SecretMasker) (hline : line ≠ []) :
    RangesFit line (m.lineRanges line) := by
  have hpos : 0 < line.length := List.length_pos_iff.mpr hline
  intro r hr
  rcases List.mem_append.mp hr with hr | hr
  · rcases List.mem_append.mp hr with hr | hr
    · obtain ⟨entry, -, hentry⟩ := List.mem_filterMap.mp hr
      rcases continueValue_range hentry with rfl | ⟨hne, hbegins, rfl⟩
      · exact ⟨hpos, by simp⟩
      · exact ⟨List.length_pos_iff.mpr hne, by simpa using hbegins.length_le⟩
    · obtain ⟨v, -, hne, pos, hmatch, rfl⟩ := mem_occurrences.mp hr
      have hlen := (Str.mem_matchIndices hmatch).length_le
      have hv : 0 < v.length := List.length_pos_iff.mpr hne
      rw [List.length_drop] at hlen
      exact ⟨hv, by show pos + v.length ≤ line.length; omega⟩
  · cases htail : tailPrefix m.masks line with
    | none => simp [htail, tailRange] at hr
    | some t =>
      obtain ⟨k, secret⟩ := t
      obtain ⟨-, -, -, hk, -, -⟩ := tailPrefix_eq_some_iff.mp htail
      obtain ⟨hk, hlt, hsuffix⟩ := hk
      have hlen := hsuffix.length_le
      rw [List.length_take] at hlen
      simp only [htail, tailRange] at hr
      split at hr
      · rw [List.mem_singleton.mp hr]
        exact ⟨hk, by show line.length - k + k ≤ line.length; omega⟩
      · exact absurd hr List.not_mem_nil

/-- The line with what the masker hides in it. -/
def lineMarks (m : SecretMasker) (line : Text) : List (Char × Bool) :=
  marks line (covered (m.lineRanges line))

theorem hides_lineRanges (m : SecretMasker) (hline : line ≠ []) :
    Hides mask (lineMarks m line) (applyRanges line (m.lineRanges line)) :=
  hides_applyRanges (rangesFit_lineRanges m hline)

theorem hidden_eq_false {hidden : Nat → Bool} {s : Text} {l₁ l₂ : List (Char × Bool)}
    (h : marks line hidden = l₁ ++ plain s ++ l₂) {i : Nat} (hlo : l₁.length ≤ i)
    (hhi : i < l₁.length + s.length) : hidden i = false := by
  obtain ⟨d, rfl⟩ : ∃ d, i = l₁.length + d := ⟨i - l₁.length, by omega⟩
  have hd : d < (plain s).length := by rw [length_plain]; omega
  have hget : (marks line hidden)[l₁.length + d]? = some ((plain s)[d]) := by
    rw [h, List.append_assoc, List.getElem?_append_right (by omega), Nat.add_sub_cancel_left,
      List.getElem?_append_left hd, List.getElem?_eq_getElem hd]
  rw [← getElem?_marks hget]
  exact snd_of_mem_plain (List.getElem_mem hd)

theorem covered_of_mem {ranges : List (Nat × Nat)} {start len i : Nat}
    (hmem : (start, len) ∈ ranges) (hlo : start ≤ i) (hhi : i < start + len) :
    covered ranges i = true :=
  covered_iff.mpr ⟨(start, len), hmem, hlo, hhi⟩

theorem occurrence_mem_lineRanges {v : Text} {pos : Nat} (hv : v ∈ m.masks) (hne : v ≠ [])
    (hpos : pos ∈ Str.matchIndices v line) : (pos, v.length) ∈ m.lineRanges line := by
  rw [lineRanges, List.append_assoc]
  exact List.mem_append_right _
    (List.mem_append_left _ (mem_occurrences.mpr ⟨v, hv, hne, pos, hpos, rfl⟩))

theorem notMem_mask {v : Text} (hstar : '*' ∉ v) : ∀ x ∈ v, x ∉ mask := by
  intro x hx hmask
  have hxstar : x = '*' := by simpa [mask] using hmask
  exact hstar (hxstar ▸ hx)

/-- A text without a star that the redacted line shows stands in the line, where nothing was hidden. -/
theorem marks_of_part {v : Text} (hline : line ≠ []) (hne : v ≠ []) (hstar : '*' ∉ v)
    (h : v <:+: applyRanges line (m.lineRanges line)) :
    ∃ l₁ l₂, lineMarks m line = l₁ ++ plain v ++ l₂ ∧
      line = l₁.map Prod.fst ++ (v ++ l₂.map Prod.fst) := by
  obtain ⟨l₁, l₂, hmarks⟩ := (hides_lineRanges m hline).of_part (notMem_mask hstar) hne h
  have hfst := congrArg (List.map Prod.fst) hmarks
  exact ⟨l₁, l₂, hmarks, by simpa [lineMarks] using hfst⟩

theorem not_infix_lineRanges {v : Text} (hline : line ≠ []) (hv : v ∈ m.masks) (hne : v ≠ [])
    (hstar : '*' ∉ v) : ¬ v <:+: applyRanges line (m.lineRanges line) := by
  intro hpart
  obtain ⟨l₁, l₂, hmarks, hwhole⟩ := marks_of_part hline hne hstar hpart
  have hhere : v <+: line.drop l₁.length := by
    rw [hwhole, List.drop_left' (List.length_map _)]
    exact List.prefix_append v _
  obtain ⟨pos, hpos, hlt, hgt⟩ := Str.matchIndices_overlap hne hhere
  have hhidden : covered (m.lineRanges line) (max pos l₁.length) = true :=
    covered_of_mem (occurrence_mem_lineRanges hv hne hpos) (by omega) (by omega)
  have hlen : 0 < v.length := List.length_pos_iff.mpr hne
  rw [hidden_eq_false hmarks (by omega) (by omega)] at hhidden
  cases hhidden

/-- A loop that passes over the occurrences of a value and hides some of each redacts the line. -/
theorem redacts_of_occurrences {value : Text} (hne : value ≠ []) {f : Text → Text}
    (hnone : ∀ s, Str.splitOnceChars value s = none → f s = s)
    (hsome : ∀ s before tail, Str.splitOnceChars value s = some (before, tail) →
      ∃ piece, Redacts mask value piece ∧ f s = before ++ piece ++ f tail)
    (line : Text) : Redacts mask line (f line) := by
  induction line using Str.occurrence_induction hne with
  | none s hsplit =>
    rw [hnone s hsplit]
    exact Redacts.refl mask s
  | some s before tail hsplit ih =>
    obtain ⟨piece, hpiece, hf⟩ := hsome s before tail hsplit
    have hs := Str.splitOnceChars_eq hsplit
    rw [hf]
    nth_rewrite 1 [hs]
    exact ((Redacts.refl mask before).append hpiece).append ih

theorem redacts_maskToken (line secret : Text) : Redacts mask line (maskToken line secret) := by
  unfold maskToken
  split
  case isTrue => exact Redacts.refl mask line
  case isFalse hne =>
    refine redacts_of_occurrences hne (fun s hsplit => ?_) (fun s before tail hsplit => ?_) line
    · rw [maskTokenFrom]
      split
      next => rfl
      next hfound => rw [hsplit] at hfound; cases hfound
    · rw [maskTokenFrom]
      split
      next hnone => rw [hsplit] at hnone; cases hnone
      next hfound =>
        rw [hsplit] at hfound
        cases hfound
        refine ⟨_, ?_, rfl⟩
        split
        · exact Redacts.whole mask hne
        · exact Redacts.refl mask secret

theorem redacts_replaceKeyed (line key : Text) {value : Text} (hvalue : value ≠ []) :
    Redacts mask line (replaceKeyed line key ('=' :: value) (List.cons_ne_nil _ _)) := by
  refine redacts_of_occurrences (f := fun s => replaceKeyed s key ('=' :: value) _)
    (List.cons_ne_nil '=' value) (fun s hsplit => ?_) (fun s before tail hsplit => ?_) line
  · rw [replaceKeyed]
    split
    next => rfl
    next hfound => rw [hsplit] at hfound; cases hfound
  · rw [replaceKeyed]
    split
    next hnone => rw [hsplit] at hnone; cases hnone
    next hfound =>
      rw [hsplit] at hfound
      cases hfound
      refine ⟨_, ?_, rfl⟩
      split
      · exact (Redacts.refl mask ['=']).append (Redacts.whole mask hvalue)
      · exact Redacts.refl mask ('=' :: value)

theorem infix_around_mask {v a b : Text} (hstar : '*' ∉ v) (h : v <:+: a ++ mask ++ b) :
    v <:+: a ∨ v <:+: b := by
  rw [List.append_assoc] at h
  refine (infix_append_cons_of_notMem hstar h).imp_right fun htail => ?_
  have hstart : ∀ c, v <:+: '*' :: c → v <:+: c := fun c hc =>
    (infix_append_cons_of_notMem (a := []) hstar hc).elim
      (fun hnil => (List.infix_nil.mp hnil) ▸ List.nil_infix) id
  exact hstart _ (hstart _ htail)

theorem part_of_redacts {out v : Text} (h : Redacts mask line out) (hstar : '*' ∉ v)
    (hpart : v <:+: out) : v <:+: line := h.part (notMem_mask hstar) hpart

theorem part_of_maskKeyed {key value v : Text} (hstar : '*' ∉ v)
    (h : v <:+: maskKeyed line key value) : v <:+: line := by
  unfold maskKeyed at h
  split at h
  case isTrue => exact h
  case isFalse hempty =>
    have hvalue : value ≠ [] := by
      rintro rfl
      simp at hempty
    have hsingle := part_of_redacts (redacts_replaceKeyed _ _ (by simp)) hstar h
    have hbare := part_of_redacts (redacts_replaceKeyed _ _ (by simp)) hstar hsingle
    exact part_of_redacts (redacts_replaceKeyed _ _ hvalue) hstar hbare

/-- What the rules for short values leave without a star stood in the line before. -/
theorem part_of_narrow {v : Text} (hstar : '*' ∉ v) (h : v <:+: m.narrow line) : v <:+: line := by
  unfold narrow at h
  generalize m.shorts = shorts at h
  induction shorts generalizing line with
  | nil => exact h
  | cons kv shorts ih =>
    have htoken := part_of_maskKeyed hstar (ih h)
    exact part_of_redacts (redacts_maskToken line kv.2) hstar htoken

theorem redacts_replace (line : Text) {secret : Text} (hne : secret ≠ []) :
    Redacts mask line (Str.replaceFrom secret mask 0 line) := by
  refine redacts_of_occurrences hne (fun s hsplit => ?_) (fun s before tail hsplit => ?_) line
  · rw [Str.replaceFrom_eq mask hne, hsplit]
  · rw [Str.replaceFrom_eq mask hne, hsplit]
    exact ⟨mask, Redacts.whole mask hne, rfl⟩

/-- The replacement leaves no occurrence. -/
theorem not_infix_replace (line : Text) {secret : Text} (hne : secret ≠ []) (hstar : '*' ∉ secret) :
    ¬ secret <:+: Str.replaceFrom secret mask 0 line := by
  induction line using Str.occurrence_induction hne with
  | none s hsplit =>
    rw [Str.replaceFrom_eq mask hne, hsplit]
    exact Str.not_infix_of_splitOnce_none hsplit
  | some s before tail hsplit ih =>
    rw [Str.replaceFrom_eq mask hne, hsplit]
    intro hpart
    cases infix_around_mask hstar hpart with
    | inl hbefore => exact Str.not_infix_before hne hsplit hbefore
    | inr htail => exact ih htail

@[simp] theorem maskLine_nil (line : Text) : maskLine line [] = line := rfl

theorem maskLine_cons (line : Text) {s : Text} (masks : List Text) (hs : s ≠ []) :
    maskLine line (s :: masks) = maskLine (Str.replaceFrom s mask 0 line) masks := by
  have hempty : ¬ s.isEmpty = true := by simpa using hs
  rw [maskLine, if_neg (by simp), List.foldl_cons, if_neg hempty, maskLine]
  cases masks with
  | nil => rfl
  | cons s' masks => rfl

theorem part_of_maskLine {masks : List Text} {v : Text} (hne : ∀ s ∈ masks, s ≠ [])
    (hstar : '*' ∉ v) (h : v <:+: maskLine line masks) : v <:+: line := by
  induction masks generalizing line with
  | nil => exact h
  | cons s masks ih =>
    have hs : s ≠ [] := hne s List.mem_cons_self
    rw [maskLine_cons line masks hs] at h
    have hone := ih (fun u hu => hne u (List.mem_cons_of_mem s hu)) h
    exact part_of_redacts (redacts_replace line hs) hstar hone

/-- A value that was replaced does not come back when the others are. -/
theorem not_infix_maskLine {masks : List Text} {v : Text} (hne : ∀ s ∈ masks, s ≠ [])
    (hstar : '*' ∉ v) (hv : v ∈ masks) : ¬ v <:+: maskLine line masks := by
  induction masks generalizing line with
  | nil => cases hv
  | cons s masks ih =>
    have hs : s ≠ [] := hne s List.mem_cons_self
    have hne' : ∀ u ∈ masks, u ≠ [] := fun u hu => hne u (List.mem_cons_of_mem s hu)
    rw [maskLine_cons line masks hs]
    cases List.mem_cons.mp hv with
    | inl hhere =>
      rw [hhere] at hstar ⊢
      exact fun h => not_infix_replace line hs hstar (part_of_maskLine hne' hstar h)
    | inr hlater => exact ih hne' hlater

theorem maskLine_eq_self {masks : List Text} (hne : ∀ s ∈ masks, s ≠ [])
    (h : ∀ s ∈ masks, ¬ s <:+: line) : maskLine line masks = line := by
  induction masks with
  | nil => rfl
  | cons s masks ih =>
    have hs : s ≠ [] := hne s List.mem_cons_self
    rw [maskLine_cons line masks hs, Str.replaceFrom_eq_self mask hs (h s List.mem_cons_self)]
    exact ih (fun u hu => hne u (List.mem_cons_of_mem s hu))
      fun u hu => h u (List.mem_cons_of_mem s hu)

/-- No line shows a complete value. -/
theorem not_infix_redactLine {v : Text} (hv : v ∈ m.masks) (hne : v ≠ []) (hstar : '*' ∉ v) :
    ¬ v <:+: (m.redactLine line).2 := by
  intro hpart
  by_cases hline : line = []
  · subst hline
    exact hne (List.infix_nil.mp (part_of_narrow hstar hpart))
  · rw [redactLine, if_neg (by simpa using hline)] at hpart
    exact not_infix_lineRanges hline hv hne hstar (part_of_narrow hstar hpart)

theorem part_of_redactLine {v : Text} (hstar : '*' ∉ v) (h : v <:+: (m.redactLine line).2) :
    v <:+: line := by
  by_cases hne : v = []
  · subst hne
    exact List.nil_infix
  · by_cases hline : line = []
    · subst hline
      exact part_of_narrow hstar h
    · rw [redactLine, if_neg (by simpa using hline)] at h
      obtain ⟨l₁, l₂, -, hwhole⟩ := marks_of_part hline hne hstar (part_of_narrow hstar h)
      rw [hwhole]
      exact (List.prefix_append v _).isInfix.trans (List.suffix_append _ _).isInfix

theorem part_of_redactText {v : Text} (hne : ∀ s ∈ m.masks, s ≠ []) (hstar : '*' ∉ v)
    (h : v <:+: m.redactText line) : v <:+: line :=
  part_of_maskLine hne hstar (part_of_narrow hstar h)

theorem not_infix_redactText {v : Text} (hne : ∀ s ∈ m.masks, s ≠ [])
    (hstar : '*' ∉ v) (hv : v ∈ m.masks) : ¬ v <:+: m.redactText line :=
  fun h => not_infix_maskLine hne hstar hv (part_of_narrow hstar h)

/-- The states of a masker that began fresh and redacted line after line. -/
inductive Reached (masks : List Text) (shorts : List (Text × Text)) : SecretMasker → Prop
  | new : Reached masks shorts (SecretMasker.new masks shorts)
  | redactLine (line : Text) {m : SecretMasker} (h : Reached masks shorts m) :
    Reached masks shorts (m.redactLine line).1

theorem Reached.masks_eq {masks : List Text} {shorts : List (Text × Text)}
    (h : Reached masks shorts m) : m.masks = masks := by
  induction h with
  | new => rfl
  | redactLine line _ ih => rw [redactLine_masks, ih]

/-- The text shows no value. -/
def Clean (masks : List Text) (out : Text) : Prop := ∀ v ∈ masks, ¬ v <:+: out

/-- Neither kind of redaction shows a value, and masking its result again changes nothing. -/
theorem Reached.redact_complete {secrets : List Text} {shorts : List (Text × Text)}
    (h : Reached (prepareMasks secrets) shorts m) (hstar : ∀ v ∈ prepareMasks secrets, '*' ∉ v)
    (line : Text) :
    Clean (prepareMasks secrets) (m.redactLine line).2 ∧
      Clean (prepareMasks secrets) (m.redactText line) ∧
      maskLine (m.redactLine line).2 (prepareMasks secrets) = (m.redactLine line).2 ∧
      maskLine (m.redactText line) (prepareMasks secrets) = m.redactText line := by
  have hne : ∀ v ∈ prepareMasks secrets, v ≠ [] := fun v hv => (mem_prepareMasks.mp hv).2
  have hmasks := h.masks_eq
  have hline : Clean (prepareMasks secrets) (m.redactLine line).2 := by
    intro v hv
    exact not_infix_redactLine (hmasks ▸ hv) (hne v hv) (hstar v hv)
  have htext : Clean (prepareMasks secrets) (m.redactText line) := by
    intro v hv
    rw [← hmasks] at hne hstar hv
    exact not_infix_redactText hne (hstar v hv) hv
  exact ⟨hline, htext, maskLine_eq_self hne hline, maskLine_eq_self hne htext⟩

/-- Values that overlap themselves and each other, after a line that ends in the start of one. -/
theorem Reached.redact_complete_overlap :
    Clean (prepareMasks ["abab".toList, "baba".toList])
      (((SecretMasker.new (prepareMasks ["abab".toList, "baba".toList])
        [("PIN".toList, "12".toList)]).redactLine "xaba".toList).1.redactLine
          "babababa PIN=12".toList).2 :=
  (Reached.redact_complete (.redactLine "xaba".toList .new) (by decide +kernel)
    "babababa PIN=12".toList).1

end Shellflow
