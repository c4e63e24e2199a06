import Shellflow.Mask.WithinLine

/-! Values split over lines. A value can only come through where a line break cuts it and the
masker follows another value there, or the same one from another place. -/
namespace Shellflow
open Masked SecretMasker
variable {m : SecretMasker} {line : Text}

def streamMarks (m : SecretMasker) : List Text → List (Char × Bool)
  | [] => []
  | line :: rest => lineMarks m line ++ streamMarks (m.redactLine line).1 rest

theorem map_fst_streamMarks (m : SecretMasker) (lines : List Text) :
    (streamMarks m lines).map Prod.fst = lines.flatten := by
  induction lines generalizing m with
  | nil => rfl
  | cons line rest ih =>
    rw [streamMarks, List.map_append, ih, lineMarks, map_fst_marks, List.flatten_cons]

theorem hides_redactLine (hshorts : m.shorts = []) (line : Text) :
    Hides mask (lineMarks m line) (m.redactLine line).2 := by
  by_cases hline : line = []
  · subst hline
    rw [redactLine_nil, narrow_of_shorts hshorts]
    exact Hides.nil
  · rw [redactLine, if_neg (by simpa using hline), narrow_of_shorts hshorts]
    exact hides_lineRanges m hline

theorem hides_redactLines (hshorts : m.shorts = []) (lines : List Text) :
    Hides mask (streamMarks m lines) (m.redactLines lines).flatten := by
  induction lines generalizing m with
  | nil => exact Hides.nil
  | cons line rest ih =>
    have hrest := ih (m := (m.redactLine line).1) (by rw [redactLine_shorts, hshorts])
    exact (hides_redactLine hshorts line).append hrest

theorem continueValue_covers (entry : Text × Nat) (hline : line ≠ [])
    (hne : entry.1.drop entry.2 ≠ [])
    (h : line <+: entry.1.drop entry.2 ∨ entry.1.drop entry.2 <+: line) :
    ∃ len, 0 < len ∧ (continueValue line entry).1 = some (0, len) := by
  unfold continueValue
  rw [if_neg (by simpa using hne)]
  by_cases hwhole : line <+: entry.1.drop entry.2
  · rw [if_pos (List.isPrefixOf_iff_prefix.mpr hwhole)]
    exact ⟨line.length, List.length_pos_iff.mpr hline, rfl⟩
  · rw [if_neg (fun hp => hwhole (List.isPrefixOf_iff_prefix.mp hp)),
      if_pos (List.isPrefixOf_iff_prefix.mpr (h.resolve_left hwhole))]
    exact ⟨_, List.length_pos_iff.mpr hne, rfl⟩

/-- The rest of a value that is followed does not come out, over whatever lines it is spread. -/
theorem not_prefix_of_pending {secret : Text} {k : Nat} (hshorts : m.shorts = [])
    (hpending : (secret, k) ∈ m.pending) (hne : secret.drop k ≠ []) (hstar : '*' ∉ secret.drop k)
    (lines : List Text) : ¬ secret.drop k <+: (m.redactLines lines).flatten := by
  induction lines generalizing m with
  | nil =>
    intro h
    exact hne (List.prefix_nil.mp h)
  | cons line rest ih =>
    by_cases hline : line = []
    · subst hline
      have hout : (m.redactLines ([] :: rest)).flatten = (m.redactLines rest).flatten := by
        rw [redactLines, redactLine_nil, narrow_of_shorts hshorts, List.flatten_cons,
          List.nil_append]
      rw [hout]
      exact ih hshorts hpending
    · rintro ⟨out, hout⟩
      have hhides := hides_redactLines hshorts (line :: rest)
      rw [← hout] at hhides
      obtain ⟨l, hl, -⟩ := Hides.of_start hhides hstar
      have htext : line ++ rest.flatten = secret.drop k ++ l.map Prod.fst := by
        have hfst := congrArg (List.map Prod.fst) hl
        rwa [map_fst_streamMarks, List.map_append, map_fst_plain, List.flatten_cons] at hfst
      -- the line and the rest of the value begin alike, so the masker hides the first character
      have halike : line <+: secret.drop k ∨ secret.drop k <+: line :=
        List.prefix_or_prefix_of_prefix (List.prefix_append line rest.flatten)
          (htext ▸ List.prefix_append (secret.drop k) _)
      obtain ⟨len, hlen, hrange⟩ := continueValue_covers (secret, k) hline hne halike
      have hmem : (0, len) ∈ m.lineRanges line := by
        rw [lineRanges, List.append_assoc]
        exact List.mem_append_left _ (List.mem_filterMap.mpr ⟨(secret, k), hpending, hrange⟩)
      have hhidden : covered (m.lineRanges line) 0 = true :=
        covered_of_mem hmem (Nat.le_refl 0) (by omega)
      obtain ⟨x, s, hx⟩ := List.exists_cons_of_ne_nil hne
      obtain ⟨c, t, rfl⟩ := List.exists_cons_of_ne_nil hline
      rw [hx, streamMarks, plain_cons, lineMarks, marks, List.zipIdx_cons, List.map_cons,
        List.cons_append, List.cons_append] at hl
      have hfirst := congrArg Prod.snd (List.cons.inj hl).1
      rw [hhidden] at hfirst
      cases hfirst

/-- A complete value of the line reaches into its last `n` characters. -/
def FoundAcross (masks : List Text) (line : Text) (n : Nat) : Prop :=
  ∃ v ∈ masks, ∃ pos ∈ Str.matchIndices v line, line.length < pos + v.length + n

/-- The break between a line and the text that follows it. When a value lies across it and
nothing complete follows, then a complete value covers some of its part in the line, or the value
that is followed is long enough there to be hidden at once, or it ends within the other part. -/
def BreakOk (masks : List Text) (line rest : Text) : Prop :=
  ∀ s ∈ masks, ∀ p r, s = p ++ r → p ≠ [] → r ≠ [] → p <:+ line → r <+: rest →
    (∀ v ∈ masks, ¬ v <:+: r) →
      FoundAcross masks line p.length ∨
        ∃ k secret, LongestTail masks line k secret ∧
          (minPrefixRedact ≤ byteLen (secret.take k) ∨ secret.drop k <+: r)

def BreaksOk (masks : List Text) : List Text → Prop
  | [] => True
  | line :: rest => BreakOk masks line rest.flatten ∧ BreaksOk masks rest

/-- The lines a fresh masker puts out, one after the other, show no value. -/
def NoLeak (masks : List Text) (lines : List Text) : Prop :=
  ∀ s ∈ masks, ¬ s <:+: ((SecretMasker.new masks []).redactLines lines).flatten

theorem hidden_tail {hidden : Nat → Bool} {p : Text} {l : List (Char × Bool)}
    (h : marks line hidden = l ++ plain p) {i : Nat} (hlo : line.length ≤ i + p.length)
    (hhi : i < line.length) : hidden i = false := by
  have hlen : line.length = l.length + p.length := by
    have := congrArg List.length h
    simpa using this
  have hsplit : marks line hidden = l ++ plain p ++ [] := by rw [h, List.append_nil]
  exact hidden_eq_false hsplit (by omega) (by omega)

theorem tail_mem_lineRanges {k : Nat} {secret : Text} (h : LongestTail m.masks line k secret)
    (hlong : minPrefixRedact ≤ byteLen (secret.take k)) :
    (line.length - k, k) ∈ m.lineRanges line := by
  have hrange : tailRange line (tailPrefix m.masks line) = [(line.length - k, k)] := by
    rw [tailPrefix_eq_some_iff.mpr h, tailRange, if_pos hlong]
  rw [lineRanges, hrange]
  exact List.mem_append_right _ (List.mem_singleton.mpr rfl)

/-- A value that lies across a good break does not come out there. -/
theorem not_across_of_breakOk {s p r : Text} {lines : List Text} (hshorts : m.shorts = [])
    (hstar : ∀ v ∈ m.masks, '*' ∉ v) (hok : BreakOk m.masks line lines.flatten)
    (hs : s ∈ m.masks) (hsplit : s = p ++ r) (hp : p ≠ []) (hr : r ≠ [])
    (hbefore : p <:+ (m.redactLine line).2)
    (hafter : r <+: ((m.redactLine line).1.redactLines lines).flatten)
    (hfresh : ∀ v ∈ m.masks, ¬ v <:+: r) : False := by
  have hsstar : '*' ∉ p ++ r := hsplit ▸ hstar s hs
  have hpstar : ∀ x ∈ p, x ∉ mask := notMem_mask fun h => hsstar (List.mem_append_left r h)
  have hrstar : '*' ∉ r := fun h => hsstar (List.mem_append_right p h)
  have hshorts' : (m.redactLine line).1.shorts = [] := by rw [redactLine_shorts, hshorts]
  obtain ⟨front, hfront⟩ := hbefore
  have hhides := hides_redactLine hshorts line
  rw [← hfront] at hhides
  obtain ⟨l, hl⟩ := hhides.of_end hpstar hp
  have hshown : ∀ i, line.length ≤ i + p.length → i < line.length →
      covered (m.lineRanges line) i = false := fun i => hidden_tail hl
  have hpline : p <:+ line := by
    have hfst := congrArg (List.map Prod.fst) hl
    rw [lineMarks, map_fst_marks, List.map_append, map_fst_plain] at hfst
    exact hfst ▸ List.suffix_append _ p
  have hrrest : r <+: lines.flatten := by
    obtain ⟨out, hout⟩ := hafter
    have hhides' := hides_redactLines hshorts' lines
    rw [← hout] at hhides'
    obtain ⟨l', hl', -⟩ := Hides.of_start hhides' hrstar
    have hfst := congrArg (List.map Prod.fst) hl'
    rw [map_fst_streamMarks, List.map_append, map_fst_plain] at hfst
    exact hfst ▸ List.prefix_append r _
  have hplen : 0 < p.length := List.length_pos_iff.mpr hp
  rcases hok s hs p r hsplit hp hr hpline hrrest hfresh with
    ⟨v, hv, pos, hpos, hreach⟩ | ⟨k, secret, htail, hlong | hends⟩
  · have hne : v ≠ [] := by
      rintro rfl
      exact hfresh [] hv List.nil_infix
    have hv0 : 0 < v.length := List.length_pos_iff.mpr hne
    have hend : pos + v.length ≤ line.length := by
      have hlen := (Str.mem_matchIndices hpos).length_le
      rw [List.length_drop] at hlen
      omega
    have hhidden := covered_of_mem (i := pos + v.length - 1)
      (occurrence_mem_lineRanges hv hne hpos) (by omega) (by omega)
    rw [hshown _ (by omega) (by omega)] at hhidden
    cases hhidden
  · obtain ⟨-, -, -, ⟨hk, hlt, hsuffix⟩, -, -⟩ := id htail
    have hlen := hsuffix.length_le
    rw [List.length_take] at hlen
    have hhidden := covered_of_mem (i := line.length - 1) (tail_mem_lineRanges htail hlong)
      (by omega) (by omega)
    rw [hshown _ (by omega) (by omega)] at hhidden
    cases hhidden
  · have hline : line ≠ [] := by
      rintro rfl
      exact hp (List.suffix_nil.mp hpline)
    have hpending : (secret, k) ∈ (m.redactLine line).1.pending := by
      rw [redactLine_pending m hline, pendingAfter, tailPrefix_eq_some_iff.mpr htail]
      exact List.mem_append_right _ (List.mem_singleton.mpr rfl)
    obtain ⟨before, after, hmasks, ⟨-, hlt, -⟩, -, -⟩ := htail
    have hmem : secret ∈ m.masks := hmasks ▸ List.mem_append_right before List.mem_cons_self
    have hne : secret.drop k ≠ [] := by
      rw [← List.length_pos_iff, List.length_drop]
      omega
    exact not_prefix_of_pending hshorts' hpending hne
      (fun h => hstar secret hmem (List.mem_of_mem_drop h)) lines (hends.trans hafter)

/-- Good breaks keep every value back: the shortest one that came out would lie across a break. -/
theorem not_infix_of_breaksOk {masks : List Text} (hne : ∀ v ∈ masks, v ≠ [])
    (hstar : ∀ v ∈ masks, '*' ∉ v) (n : Nat) {lines : List Text} (hmasks : m.masks = masks)
    (hshorts : m.shorts = []) (hok : BreaksOk masks lines) {s : Text} (hs : s ∈ masks)
    (hlen : s.length ≤ n) : ¬ s <:+: (m.redactLines lines).flatten := by
  induction n generalizing m lines s with
  | zero =>
    exact absurd (List.length_eq_zero_iff.mp (Nat.le_zero.mp hlen)) (hne s hs)
  | succ n ihn =>
    induction lines generalizing m with
    | nil =>
      intro h
      exact hne s hs (List.infix_nil.mp h)
    | cons line rest ih =>
      subst hmasks
      have hshorts' : (m.redactLine line).1.shorts = [] := by rw [redactLine_shorts, hshorts]
      intro hpart
      rw [redactLines, List.flatten_cons] at hpart
      rcases List.infix_append_iff_ne_nil.mp hpart with hhere | hlater | hacross
      · exact not_infix_redactLine hs (hne s hs) (hstar s hs) hhere
      · exact ih (redactLine_masks m line) hshorts' hok.2 hlater
      · obtain ⟨p, r, hp, hr, hsplit, hbefore, hafter⟩ := hacross
        refine not_across_of_breakOk hshorts hstar hok.1 hs hsplit hp hr hbefore hafter ?_
        intro v hv hvr
        have hplen : 0 < p.length := List.length_pos_iff.mpr hp
        have hvlen := hvr.length_le
        rw [hsplit, List.length_append] at hlen
        exact ihn (redactLine_masks m line) hshorts' hok.2 hv (by omega)
          (hvr.trans hafter.isInfix)

theorem star_mem_of_end {x r : Text} (hne : x ≠ []) (h : x <:+ r ++ ['*']) : '*' ∈ x := by
  rcases List.suffix_concat_iff.mp h with rfl | ⟨t, rfl, -⟩
  · exact absurd rfl hne
  · simp

/-- A line the masker has nothing to do with. -/
theorem redactLine_eq_of_lineRanges (hshorts : m.shorts = []) (hline : line ≠ [])
    (h : m.lineRanges line = []) : (m.redactLine line).2 = line := by
  rw [redactLine, if_neg (by simpa using hline), narrow_of_shorts hshorts, h]
  rfl

/-- After a bad break the rest of the value comes out on the next line. -/
theorem lineRanges_after_bad_break {masks : List Text} {r : Text} (hstar : ∀ v ∈ masks, '*' ∉ v) (hline : line ≠ [])
    (hfresh : ∀ v ∈ masks, ¬ v <:+: r)
    (hbad : ∀ k secret, LongestTail masks line k secret → ¬ secret.drop k <+: r) :
    (((SecretMasker.new masks []).redactLine line).1).lineRanges (r ++ ['*']) = [] := by
  have hmem : ∀ k secret, LongestTail masks line k secret → secret ∈ masks := by
    rintro k secret ⟨before, after, rfl, -⟩
    exact List.mem_append_right before List.mem_cons_self
  have hcontinued : ((SecretMasker.new masks []).redactLine line).1.pending.filterMap
      (fun entry => (continueValue (r ++ ['*']) entry).1) = [] := by
    rw [redactLine_pending _ hline, List.filterMap_eq_nil_iff]
    rintro ⟨secret, k⟩ hentry
    have htail : LongestTail masks line k secret :=
      tailPrefix_eq_some_iff.mp (by simpa [pendingAfter, SecretMasker.new] using hentry)
    have hdrop : '*' ∉ secret.drop k :=
      fun h => hstar secret (hmem k secret htail) (List.mem_of_mem_drop h)
    have hwhole : ¬ (r ++ ['*']) <+: secret.drop k :=
      fun h => hdrop (h.subset (by simp))
    have hends : ¬ secret.drop k <+: r ++ ['*'] := by
      intro h
      rcases List.prefix_concat_iff.mp h with h | h
      · exact hdrop (h ▸ by simp)
      · exact hbad k secret htail h
    unfold continueValue
    by_cases hdone : (secret.drop k).isEmpty = true
    · rw [if_pos hdone]
    · rw [if_neg hdone, if_neg (fun h => hwhole (List.isPrefixOf_iff_prefix.mp h)),
        if_neg (fun h => hends (List.isPrefixOf_iff_prefix.mp h))]
  have hcomplete : occurrences masks (r ++ ['*']) = [] := by
    apply List.eq_nil_iff_forall_not_mem.mpr
    intro q hq
    obtain ⟨v, hv, hvne, pos, hpos, -⟩ := mem_occurrences.mp hq
    have hpart : v <:+: (r ++ ['*']) :=
      (Str.mem_matchIndices hpos).isInfix.trans (List.drop_suffix pos _).isInfix
    rcases List.infix_concat_iff.mp hpart with h | h
    · exact hstar v hv (star_mem_of_end hvne h)
    · exact hfresh v hv h
  have htail : tailPrefix masks (r ++ ['*']) = none := by
    cases hfound : tailPrefix masks (r ++ ['*']) with
    | none => rfl
    | some t =>
      obtain ⟨before, after, hmasks, ⟨hpos, hlt, hsuffix⟩, -, -⟩ := tailPrefix_eq_some_iff.mp hfound
      have htake : t.2.take t.1 ≠ [] := by
        rw [← List.length_pos_iff, List.length_take]
        omega
      have hin := List.mem_of_mem_take (star_mem_of_end htake hsuffix)
      exact absurd hin (hstar t.2 (hmasks ▸ List.mem_append_right before List.mem_cons_self))
  rw [lineRanges, redactLine_masks]
  show _ ++ occurrences masks _ ++ tailRange _ (tailPrefix masks _) = []
  rw [hcontinued, hcomplete, htail]
  rfl

theorem breakOk_of_noLeak {masks : List Text} (hstar : ∀ v ∈ masks, '*' ∉ v) (hsafe : ∀ lines, NoLeak masks lines) (line rest : Text) :
    BreakOk masks line rest := by
  intro s hs p r hsplit hp hr hpline _ hfresh
  by_contra hbad
  obtain ⟨hfound, htail⟩ := not_or.mp hbad
  have hshort : ∀ k secret, LongestTail masks line k secret →
      ¬ minPrefixRedact ≤ byteLen (secret.take k) ∧ ¬ secret.drop k <+: r :=
    fun k secret h => not_or.mp fun hor => htail ⟨k, secret, h, hor⟩
  have hline : line ≠ [] := by
    rintro rfl
    exact hp (List.suffix_nil.mp hpline)
  have hshown : ∀ i, line.length ≤ i + p.length →
      covered ((SecretMasker.new masks []).lineRanges line) i = false := by
    intro i hi
    rw [Bool.eq_false_iff, ne_eq, covered_iff]
    rintro ⟨q, hq, hlo, hhi⟩
    rcases List.mem_append.mp hq with hq | hq
    · obtain ⟨v, hv, -, pos, hpos, rfl⟩ := mem_occurrences.mp (by simpa [SecretMasker.new] using hq)
      exact hfound ⟨v, hv, pos, hpos, by
        have : i < pos + v.length := hhi
        omega⟩
    · cases hfound' : tailPrefix masks line with
      | none => simp [SecretMasker.new, hfound', tailRange] at hq
      | some t =>
        have hlong := (hshort t.1 t.2 (tailPrefix_eq_some_iff.mp hfound')).1
        simp [SecretMasker.new, hfound', tailRange, hlong] at hq
  have hfirst : p <:+ ((SecretMasker.new masks []).redactLine line).2 := by
    have hhides := hides_redactLine (m := SecretMasker.new masks []) rfl line
    obtain ⟨front, rfl⟩ := hpline
    have hplain : ∀ q ∈ (lineMarks (SecretMasker.new masks []) (front ++ p)).drop front.length,
        q.2 = false := by
      intro q hq
      obtain ⟨i, hi⟩ := List.mem_iff_getElem?.mp hq
      rw [List.getElem?_drop] at hi
      rw [getElem?_marks hi, hshown _ (by rw [List.length_append]; omega)]
    have hdrop := eq_plain hplain
    rw [List.map_drop, lineMarks, map_fst_marks, List.drop_left] at hdrop
    rw [← List.take_append_drop front.length (lineMarks _ _), lineMarks, hdrop] at hhides
    exact hhides.end_of_plain
  have hsecond : (((SecretMasker.new masks []).redactLine line).1.redactLine (r ++ ['*'])).2 =
      r ++ ['*'] := by
    apply redactLine_eq_of_lineRanges
    · rw [redactLine_shorts, SecretMasker.new]
    · simp
    · exact lineRanges_after_bad_break hstar hline hfresh fun k secret h => (hshort k secret h).2
  apply hsafe [line, r ++ ['*']] s hs
  obtain ⟨front, hfront⟩ := hfirst
  rw [redactLines, redactLines, redactLines, hsecond, ← hfront, hsplit]
  exact ⟨front, ['*'], by simp⟩

/-- A stream whose line breaks are all good shows no value, and only masks without a bad break
are safe on every stream. -/
theorem prepareMasks_noLeak_iff (secrets : List Text)
    (hstar : ∀ v ∈ prepareMasks secrets, '*' ∉ v) :
    (∀ lines, BreaksOk (prepareMasks secrets) lines → NoLeak (prepareMasks secrets) lines) ∧
      ((∀ lines, NoLeak (prepareMasks secrets) lines) ↔
        ∀ line rest, BreakOk (prepareMasks secrets) line rest) := by
  have hne : ∀ v ∈ prepareMasks secrets, v ≠ [] := fun v hv => (mem_prepareMasks.mp hv).2
  have hgood : ∀ lines, BreaksOk (prepareMasks secrets) lines →
      NoLeak (prepareMasks secrets) lines := fun lines hok s hs =>
    not_infix_of_breaksOk hne hstar s.length rfl rfl hok hs (Nat.le_refl _)
  refine ⟨hgood, fun hsafe line rest => breakOk_of_noLeak hstar hsafe line rest, ?_⟩
  intro hok lines
  apply hgood
  induction lines with
  | nil => trivial
  | cons line rest ih => exact ⟨hok line rest.flatten, ih⟩

theorem prepareMasks_noLeak_iff_split_value :
    NoLeak (prepareMasks [['a', 'b']]) [['x', 'a'], ['b', 'y']] := by
  have hmasks : prepareMasks [['a', 'b']] = [['a', 'b']] := rfl
  refine (prepareMasks_noLeak_iff [['a', 'b']] (by decide)).1 _ ?_
  rw [hmasks]
  refine ⟨?_, ?_, trivial⟩
  · intro s hs p r hsplit hp hr _ _ _
    obtain rfl := List.mem_singleton.mp hs
    obtain ⟨c, p, rfl⟩ := List.exists_cons_of_ne_nil hp
    have hb : ['b'] = p ++ r := (List.cons.inj hsplit).2
    have hrest : ['b'] <+: r := by
      cases p with
      | nil => exact ⟨[], by simpa using hb⟩
      | cons d p =>
        have hnil : [] = p ++ r := (List.cons.inj hb).2
        exact absurd (List.append_eq_nil_iff.mp hnil.symm).2 hr
    have htail : IsTail ['x', 'a'] ['a', 'b'] 1 := ⟨by decide, by decide, by decide⟩
    have hmax : ∀ v ∈ [['a', 'b']], ∀ j, IsTail ['x', 'a'] v j → j ≤ 1 := by
      intro v hv j hj
      obtain rfl := List.mem_singleton.mp hv
      exact Nat.le_of_lt_succ hj.2.1
    exact Or.inr ⟨1, ['a', 'b'], ⟨[], [], rfl, htail, fun v hv => absurd hv List.not_mem_nil, hmax⟩,
      Or.inr hrest⟩
  · intro s _ p r _ _ hr _ hrest _
    exact absurd (List.prefix_nil.mp hrest) hr

/-- The line ends twice in the first letter of the value, and the longer tail is followed. -/
theorem prepareMasks_leaks_after_a_repeated_letter :
    ¬ ∀ secrets : List Text, (∀ v ∈ prepareMasks secrets, '*' ∉ v) →
      ∀ lines, NoLeak (prepareMasks secrets) lines := by
  intro h
  have hsafe := h ["ssh-passphrase".toList] (by decide +kernel) ["ss".toList, "sh-passphrase".toList]
    "ssh-passphrase".toList (by decide +kernel)
  exact hsafe (by decide +kernel)

end Shellflow
