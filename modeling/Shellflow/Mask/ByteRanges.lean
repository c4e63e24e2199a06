import Shellflow.Lib.Bytes
import Shellflow.Mask.Masker

/-! The masker on bytes, as the source counts: no range cuts a character, so slicing the line drops
nothing and every run of hidden characters becomes one placeholder. -/
namespace Shellflow.ByteRanges

section Offsets

/-- `str::split_at_checked` -/
def splitBytes : Text → Nat → Option (Text × Text)
  | [], n => if n = 0 then some ([], []) else none
  | c :: s, n =>
    if n = 0 then some ([], c :: s)
    else if c.utf8Size ≤ n then
      (splitBytes s (n - c.utf8Size)).map fun parts => (c :: parts.1, parts.2)
    else none

def isCharBoundary (s : Text) (n : Nat) : Bool := (splitBytes s n).isSome

/-- `s.get(n..)` -/
def getFrom (s : Text) (n : Nat) : Option Text := (splitBytes s n).map Prod.snd

/-- `s.get(a..b)` -/
def getRange (s : Text) (a b : Nat) : Option Text :=
  if a ≤ b then (splitBytes s b).bind fun parts => getFrom parts.1 a else none

/-- `str::char_indices`, the offsets only. -/
def charIndicesFrom (n : Nat) : Text → List Nat
  | [] => []
  | c :: s => n :: charIndicesFrom (n + c.utf8Size) s

end Offsets

def prefixBoundaries (s : Text) : List Nat := ((charIndicesFrom 0 s).drop 1).reverse

def renderFrom (line : Text) (cursor : Nat) : List (Nat × Nat) → Text
  | [] => (getFrom line cursor).getD []
  | (start, stop) :: rest =>
    (getRange line cursor start).getD [] ++ mask ++ renderFrom line (max cursor stop) rest

def applyRanges (line : Text) (ranges : List (Nat × Nat)) : Text :=
  if ranges.isEmpty then line
  else renderFrom line 0 (merged (ranges.insertionSort RangeLe))

structure Masker where
  masks : List Text
  shorts : List (Text × Text)
  pending : List (Text × Nat)

def matchPositions (pat line : Text) : List Nat :=
  (Str.matchIndices pat line).map fun k => byteLen (line.take k)

def occurrences (masks : List Text) (line : Text) : List (Nat × Nat) :=
  (masks.flatMap fun secret =>
    if secret.isEmpty then []
    else (matchPositions secret line).map fun pos => (pos, byteLen secret)).insertionSort RangeLe

/-- The tests of one boundary, the cheap one on the first byte before the comparison. -/
def endsWithPrefix (bytes secretBytes : List UInt8) (boundary : Nat) : Bool :=
  boundary ≤ bytes.length && bytes[bytes.length - boundary]? == secretBytes[0]? &&
    (secretBytes.take boundary).isSuffixOf bytes

def betterTail (bytes : List UInt8) (best : Option (Nat × Text)) (secret : Text) :
    Option (Nat × Text) :=
  match (prefixBoundaries secret).find? (endsWithPrefix bytes (Bytes.encode secret)) with
  | none => best
  | some boundary => if best.all fun b => b.1 < boundary then some (boundary, secret) else best

def tailPrefix (masks : List Text) (line : Text) : Option (Nat × Text) :=
  if line.isEmpty then none else masks.foldl (betterTail (Bytes.encode line)) none

def tailRange (line : Text) (tail : Option (Nat × Text)) : List (Nat × Nat) :=
  match tail with
  | none => []
  | some (len, _) => if minPrefixRedact ≤ len then [(byteLen line - len, len)] else []

/-- One pending value: the range it hides and what stays pending. -/
def continueValue (line : Text) (entry : Text × Nat) : Option (Nat × Nat) × Option (Text × Nat) :=
  match getFrom entry.1 entry.2 with
  | none => (none, none)
  | some rest =>
    if rest.isEmpty then (none, none)
    else if line.isPrefixOf rest then
      let consumed := entry.2 + byteLen line
      (some (0, byteLen line),
        if (getFrom entry.1 consumed).any fun remainder => !remainder.isEmpty then
          some (entry.1, consumed)
        else none)
    else if rest.isPrefixOf line then (some (0, byteLen rest), none)
    else (none, none)

namespace Masker

def new (masks : List Text) (shorts : List (Text × Text)) : Masker := ⟨masks, shorts, []⟩

def narrow (m : Masker) (line : Text) : Text :=
  m.shorts.foldl (fun out kv => maskKeyed (maskToken out kv.2) kv.1 kv.2) line

/-- The ranges that are applied to a line; an empty line is left before there are any. -/
def ranges (m : Masker) (line : Text) : List (Nat × Nat) :=
  if line.isEmpty then []
  else
    m.pending.filterMap (fun entry => (continueValue line entry).1) ++ occurrences m.masks line ++
      tailRange line (tailPrefix m.masks line)

def pendingAfter (m : Masker) (line : Text) : List (Text × Nat) :=
  m.pending.filterMap (fun entry => (continueValue line entry).2) ++
    ((tailPrefix m.masks line).map fun tail => (tail.2, tail.1)).toList

def redactLine (m : Masker) (line : Text) : Masker × Text :=
  if line.isEmpty then (m, m.narrow line)
  else ({ m with pending := m.pendingAfter line }, m.narrow (applyRanges line (m.ranges line)))

/-- The state behind some lines. -/
def after (m : Masker) (lines : List Text) : Masker :=
  lines.foldl (fun m line => (m.redactLine line).1) m

end Masker

/-- The characters of a text with a mark each; `n` is the offset of the first one. -/
def marksFrom (hidden : Nat → Bool) (n : Nat) : Text → List (Char × Bool)
  | [] => []
  | c :: s => (c, hidden n) :: marksFrom hidden (n + c.utf8Size) s

/-- One placeholder for each maximal run of marked characters, the others as they are. -/
def maskRuns : List (Char × Bool) → Text
  | [] => []
  | (c, hidden) :: s =>
    if !hidden then c :: maskRuns s
    else if s.head?.any Prod.snd then maskRuns s
    else mask ++ maskRuns s

section Offsets

theorem length_encode (s : Text) : (Bytes.encode s).length = byteLen s := by
  induction s with
  | nil => rfl
  | cons c s ih =>
    rw [Bytes.encode_cons, List.length_append, String.length_utf8EncodeChar, ih, byteLen]

theorem splitBytes_append (s t : Text) : splitBytes (s ++ t) (byteLen s) = some (s, t) := by
  induction s with
  | nil => cases t <;> rfl
  | cons c s ih =>
    have hc : 0 < c.utf8Size := c.utf8Size_pos
    rw [byteLen, List.cons_append, splitBytes, if_neg (by omega), if_pos (by omega),
      Nat.add_sub_cancel_left, ih, Option.map_some]

theorem splitBytes_some {s p t : Text} {n : Nat} (h : splitBytes s n = some (p, t)) :
    s = p ++ t ∧ n = byteLen p := by
  induction s generalizing n p with
  | nil =>
    by_cases hn : n = 0
    · rw [splitBytes, if_pos hn] at h
      cases h
      exact ⟨rfl, hn⟩
    · rw [splitBytes, if_neg hn] at h
      cases h
  | cons c s ih =>
    rw [splitBytes] at h
    by_cases hn : n = 0
    · rw [if_pos hn] at h
      cases h
      exact ⟨rfl, hn⟩
    · rw [if_neg hn] at h
      by_cases hc : c.utf8Size ≤ n
      · rw [if_pos hc] at h
        obtain ⟨parts, hparts, hcons⟩ := Option.map_eq_some_iff.mp h
        cases hcons
        obtain ⟨hs, hlen⟩ := ih hparts
        refine ⟨by rw [List.cons_append, ← hs], ?_⟩
        rw [byteLen]
        omega
      · rw [if_neg hc] at h
        cases h

theorem isCharBoundary_iff {s : Text} {n : Nat} :
    isCharBoundary s n = true ↔ ∃ p t, s = p ++ t ∧ n = byteLen p := by
  rw [isCharBoundary, Option.isSome_iff_exists]
  constructor
  · rintro ⟨⟨p, t⟩, h⟩
    exact ⟨p, t, splitBytes_some h⟩
  · rintro ⟨p, t, rfl, rfl⟩
    exact ⟨_, splitBytes_append p t⟩

/-- A later boundary splits what follows an earlier one. -/
theorem isCharBoundary_append {p s : Text} {n : Nat} (h : isCharBoundary (p ++ s) n = true)
    (hn : byteLen p ≤ n) : ∃ gap rest, s = gap ++ rest ∧ n = byteLen (p ++ gap) := by
  obtain ⟨q, t, hsplit, rfl⟩ := isCharBoundary_iff.mp h
  rcases List.append_eq_append_iff.mp hsplit with ⟨gap, hq, hs⟩ | ⟨gap, hp, ht⟩
  · exact ⟨gap, t, hs, by rw [hq]⟩
  · by_cases hgap : gap = []
    · rw [hgap, List.append_nil] at hp
      exact ⟨[], s, rfl, by rw [hp, List.append_nil]⟩
    · have hpos := byteLen_pos hgap
      rw [hp, byteLen_append] at hn
      omega

theorem getFrom_append (p s : Text) : getFrom (p ++ s) (byteLen p) = some s := by
  rw [getFrom, splitBytes_append, Option.map_some]

theorem getRange_append (p gap s : Text) :
    getRange (p ++ (gap ++ s)) (byteLen p) (byteLen (p ++ gap)) = some gap := by
  have hle : byteLen p ≤ byteLen (p ++ gap) := by
    rw [byteLen_append]
    omega
  rw [getRange, if_pos hle, ← List.append_assoc, splitBytes_append, Option.bind_some,
    getFrom_append]

/-- The offsets of the characters are the lengths of the parts before them. -/
theorem mem_charIndicesFrom {n i : Nat} {s : Text} (h : i ∈ charIndicesFrom n s) :
    ∃ k, k < s.length ∧ i = n + byteLen (s.take k) := by
  induction s generalizing n with
  | nil => cases h
  | cons c s ih =>
    rw [charIndicesFrom, List.mem_cons] at h
    rcases h with rfl | h
    · exact ⟨0, Nat.succ_pos _, rfl⟩
    · obtain ⟨k, hk, hi⟩ := ih h
      refine ⟨k + 1, by rw [List.length_cons]; omega, ?_⟩
      rw [List.take_succ_cons, byteLen]
      omega

/-- A boundary is the length of a nonempty beginning. -/
theorem mem_prefixBoundaries_split {s : Text} {n : Nat} (h : n ∈ prefixBoundaries s) :
    ∃ p t, s = p ++ t ∧ p ≠ [] ∧ n = byteLen p := by
  rw [prefixBoundaries, List.mem_reverse] at h
  cases s with
  | nil => cases h
  | cons c s =>
    rw [charIndicesFrom, List.drop_one, List.tail_cons] at h
    obtain ⟨k, -, hn⟩ := mem_charIndicesFrom h
    refine ⟨c :: s.take k, s.drop k, ?_, List.cons_ne_nil _ _, ?_⟩
    · rw [List.cons_append, List.take_append_drop]
    · rw [hn, byteLen]
      omega

end Offsets

section Merging

/-- Ranges told by start and stop that stand apart and cover what the ones told by length cover,
their ends taken from these. -/
structure Merges (ranges parts : List (Nat × Nat)) : Prop where
  apart : parts.Pairwise fun a b => a.2 < b.1
  nonempty : ∀ a ∈ parts, a.1 < a.2
  starts : ∀ a ∈ parts, ∃ r ∈ ranges, a.1 = r.1
  stops : ∀ a ∈ parts, ∃ r ∈ ranges, a.2 = r.1 + r.2
  cover : ∀ i, (∃ a ∈ parts, a.1 ≤ i ∧ i < a.2) ↔ covered ranges i = true

/-- A range that begins in the one before, or right behind it, is joined with it. -/
theorem Merges.join {pos len start stop : Nat} {rest parts : List (Nat × Nat)}
    (hne : start < stop) (hlo : start ≤ pos) (htouch : pos ≤ stop)
    (h : Merges ((start, max stop (pos + len) - start) :: rest) parts) :
    Merges ((start, stop - start) :: (pos, len) :: rest) parts where
  apart := h.apart
  nonempty := h.nonempty
  starts := by
    intro a ha
    obtain ⟨r, hr, hstart⟩ := h.starts a ha
    rcases List.mem_cons.mp hr with rfl | hr
    · exact ⟨_, List.mem_cons_self, hstart⟩
    · exact ⟨r, List.mem_cons_of_mem _ (List.mem_cons_of_mem _ hr), hstart⟩
  stops := by
    intro a ha
    obtain ⟨r, hr, hstop⟩ := h.stops a ha
    rcases List.mem_cons.mp hr with rfl | hr
    · have hmax : start + (max stop (pos + len) - start) = max stop (pos + len) := by omega
      rw [hmax] at hstop
      by_cases hend : pos + len ≤ stop
      · refine ⟨_, List.mem_cons_self, ?_⟩
        show a.2 = start + (stop - start)
        omega
      · refine ⟨(pos, len), List.mem_cons_of_mem _ List.mem_cons_self, ?_⟩
        show a.2 = pos + len
        omega
    · exact ⟨r, List.mem_cons_of_mem _ (List.mem_cons_of_mem _ hr), hstop⟩
  cover := by
    intro i
    rw [h.cover, covered_cons, covered_cons, covered_cons, ← or_assoc]
    refine or_congr_left ?_
    show start ≤ i ∧ i < start + (max stop (pos + len) - start) ↔
      (start ≤ i ∧ i < start + (stop - start)) ∨ pos ≤ i ∧ i < pos + len
    omega

theorem merges_mergeFrom {start stop : Nat} {rest : List (Nat × Nat)} (hne : start < stop)
    (hlen : ∀ r ∈ rest, 0 < r.2) (hpos : ∀ r ∈ rest, start ≤ r.1)
    (hsorted : rest.Pairwise RangeLe) :
    Merges ((start, stop - start) :: rest) (mergeFrom start stop rest) := by
  induction rest generalizing start stop with
  | nil =>
    have hstop : start + (stop - start) = stop := by omega
    rw [mergeFrom]
    exact {
      apart := List.pairwise_singleton _ _
      nonempty := fun a ha => by rwa [List.mem_singleton.mp ha]
      starts := fun a ha => ⟨_, List.mem_cons_self, by rw [List.mem_singleton.mp ha]⟩
      stops := fun a ha => ⟨_, List.mem_cons_self, by rw [List.mem_singleton.mp ha, hstop]⟩
      cover := fun i => by simp [covered, hstop] }
  | cons r rest ih =>
    obtain ⟨pos, len⟩ := r
    have hr : 0 < len := hlen (pos, len) List.mem_cons_self
    have hstart : start ≤ pos := hpos (pos, len) List.mem_cons_self
    have hlen' : ∀ q ∈ rest, 0 < q.2 := fun q hq => hlen q (List.mem_cons_of_mem _ hq)
    have hpos' : ∀ q ∈ rest, pos ≤ q.1 := by
      intro q hq
      have hle : RangeLe (pos, len) q := List.rel_of_pairwise_cons hsorted hq
      unfold RangeLe at hle
      omega
    rw [mergeFrom]
    by_cases htouch : pos ≤ stop
    · rw [if_pos htouch]
      exact (ih (by omega) hlen' (fun q hq => hstart.trans (hpos' q hq)) hsorted.of_cons).join
        hne hstart htouch
    · rw [if_neg htouch]
      have hrest := ih (Nat.lt_add_of_pos_right hr) hlen' hpos' hsorted.of_cons
      rw [Nat.add_sub_cancel_left] at hrest
      have hstop : start + (stop - start) = stop := by omega
      refine ⟨List.pairwise_cons.mpr ⟨?_, hrest.apart⟩, ?_, ?_, ?_, ?_⟩
      · intro b hb
        obtain ⟨q, hq, hbq⟩ := hrest.starts b hb
        rcases List.mem_cons.mp hq with rfl | hq
        · show stop < b.1
          rw [hbq]
          exact Nat.lt_of_not_le htouch
        · have hle := hpos' q hq
          show stop < b.1
          omega
      · exact List.forall_mem_cons.mpr ⟨hne, hrest.nonempty⟩
      · refine List.forall_mem_cons.mpr ⟨⟨_, List.mem_cons_self, rfl⟩, fun a ha => ?_⟩
        obtain ⟨q, hq, haq⟩ := hrest.starts a ha
        exact ⟨q, List.mem_cons_of_mem _ hq, haq⟩
      · refine List.forall_mem_cons.mpr ⟨⟨_, List.mem_cons_self, hstop.symm⟩, fun a ha => ?_⟩
        obtain ⟨q, hq, haq⟩ := hrest.stops a ha
        exact ⟨q, List.mem_cons_of_mem _ hq, haq⟩
      · intro i
        simp only [covered_cons, ← hrest.cover, List.mem_cons, exists_eq_or_imp, hstop]

theorem merges_merged {ranges : List (Nat × Nat)} (hsorted : ranges.Pairwise RangeLe)
    (hlen : ∀ r ∈ ranges, 0 < r.2) : Merges ranges (merged ranges) := by
  cases ranges with
  | nil => exact ⟨List.Pairwise.nil, nofun, nofun, nofun, fun i => by simp [merged, covered]⟩
  | cons r rest =>
    obtain ⟨pos, len⟩ := r
    have hpos : ∀ q ∈ rest, pos ≤ q.1 := by
      intro q hq
      have hle : RangeLe (pos, len) q := List.rel_of_pairwise_cons hsorted hq
      unfold RangeLe at hle
      omega
    have hmerges := merges_mergeFrom (Nat.lt_add_of_pos_right (hlen _ List.mem_cons_self))
      (fun q hq => hlen q (List.mem_cons_of_mem _ hq)) hpos hsorted.of_cons
    rwa [Nat.add_sub_cancel_left] at hmerges

end Merging

section Rendering
variable {hidden : Nat → Bool} {n : Nat}

theorem marksFrom_append (s t : Text) :
    marksFrom hidden n (s ++ t) = marksFrom hidden n s ++ marksFrom hidden (n + byteLen s) t := by
  induction s generalizing n with
  | nil => rfl
  | cons c s ih =>
    rw [List.cons_append, marksFrom, marksFrom, ih, List.cons_append, byteLen, Nat.add_assoc]

theorem maskRuns_shown {s : Text} (rest : List (Char × Bool))
    (h : ∀ i, n ≤ i → i < n + byteLen s → hidden i = false) :
    maskRuns (marksFrom hidden n s ++ rest) = s ++ maskRuns rest := by
  induction s generalizing n with
  | nil => rfl
  | cons c s ih =>
    have hc : 0 < c.utf8Size := c.utf8Size_pos
    rw [byteLen] at h
    rw [marksFrom, List.cons_append, maskRuns, h n (Nat.le_refl n) (by omega), Bool.not_false,
      if_pos rfl, ih fun i hlo hhi => h i (by omega) (by omega), List.cons_append]

theorem maskRuns_run {s : Text} {rest : List (Char × Bool)} (hne : s ≠ [])
    (h : ∀ i, n ≤ i → i < n + byteLen s → hidden i = true)
    (hrest : rest.head?.any Prod.snd = false) :
    maskRuns (marksFrom hidden n s ++ rest) = mask ++ maskRuns rest := by
  induction s generalizing n with
  | nil => exact absurd rfl hne
  | cons c s ih =>
    have hc : 0 < c.utf8Size := c.utf8Size_pos
    rw [byteLen] at h
    rw [marksFrom, List.cons_append, maskRuns, h n (Nat.le_refl n) (by omega), Bool.not_true,
      if_neg Bool.false_ne_true]
    by_cases hs : s = []
    · rw [hs, marksFrom, List.nil_append, hrest, if_neg Bool.false_ne_true]
    · have hpos := byteLen_pos hs
      have hhead : (marksFrom hidden (n + c.utf8Size) s ++ rest).head?.any Prod.snd = true := by
        obtain ⟨d, s', rfl⟩ := List.exists_cons_of_ne_nil hs
        exact h _ (by omega) (by omega)
      rw [if_pos hhead, ih hs fun i hlo hhi => h i (by omega) (by omega)]

theorem head_marksFrom {s : Text} (h : hidden n = false) :
    (marksFrom hidden n s).head?.any Prod.snd = false := by
  cases s with
  | nil => rfl
  | cons c s => exact h

theorem shown_of_outside {parts : List (Nat × Nat)} {low i : Nat}
    (hhidden : ∀ i, low ≤ i → (hidden i = true ↔ ∃ a ∈ parts, a.1 ≤ i ∧ i < a.2))
    (hi : low ≤ i) (hout : ∀ a ∈ parts, ¬ (a.1 ≤ i ∧ i < a.2)) : hidden i = false := by
  rw [Bool.eq_false_iff, ne_eq, hhidden i hi]
  rintro ⟨a, ha, hin⟩
  exact hout a ha hin

/-- Between the merged ranges the line is kept, each of them is one run. -/
theorem renderFrom_eq {parts : List (Nat × Nat)} (before : Text) {s : Text}
    (hapart : parts.Pairwise fun a b => a.2 < b.1) (hne : ∀ a ∈ parts, a.1 < a.2)
    (hcuts : ∀ a ∈ parts, isCharBoundary (before ++ s) a.1 = true ∧
      isCharBoundary (before ++ s) a.2 = true)
    (hlo : ∀ a ∈ parts, byteLen before ≤ a.1)
    (hhidden : ∀ i, byteLen before ≤ i → (hidden i = true ↔ ∃ a ∈ parts, a.1 ≤ i ∧ i < a.2)) :
    renderFrom (before ++ s) (byteLen before) parts =
      maskRuns (marksFrom hidden (byteLen before) s) := by
  induction parts generalizing before s with
  | nil =>
    have hall : maskRuns (marksFrom hidden (byteLen before) s ++ []) = s ++ maskRuns [] :=
      maskRuns_shown [] fun i hi _ =>
        shown_of_outside hhidden hi fun a ha => absurd ha List.not_mem_nil
    rw [List.append_nil, maskRuns, List.append_nil] at hall
    rw [renderFrom, getFrom_append, hall, Option.getD_some]
  | cons a parts ih =>
    obtain ⟨start, stop⟩ := a
    have hfirst : start < stop := hne _ List.mem_cons_self
    have hlater : ∀ a ∈ parts, stop < a.1 := fun a ha => List.rel_of_pairwise_cons hapart ha
    obtain ⟨gap, s, rfl, rfl⟩ := isCharBoundary_append (hcuts _ List.mem_cons_self).1
      (hlo _ List.mem_cons_self)
    have hstop : isCharBoundary (before ++ gap ++ s) stop = true := by
      rw [List.append_assoc]
      exact (hcuts _ List.mem_cons_self).2
    obtain ⟨run, s, rfl, rfl⟩ := isCharBoundary_append hstop (Nat.le_of_lt hfirst)
    have hrun : run ≠ [] := by
      rintro rfl
      rw [List.append_nil] at hfirst
      omega
    have hassoc : before ++ (gap ++ (run ++ s)) = before ++ gap ++ run ++ s := by
      simp only [List.append_assoc]
    have hmax : max (byteLen before) (byteLen (before ++ gap ++ run)) =
        byteLen (before ++ gap ++ run) := by
      rw [byteLen_append, byteLen_append]
      omega
    have hgap : ∀ i, byteLen before ≤ i → i < byteLen before + byteLen gap → hidden i = false := by
      intro i hi hlt
      rw [← byteLen_append] at hlt
      refine shown_of_outside hhidden hi fun a ha hin => ?_
      rcases List.mem_cons.mp ha with rfl | ha
      · exact absurd hin.1 (Nat.not_le.mpr hlt)
      · have := hlater a ha
        omega
    have hcovered : ∀ i, byteLen before + byteLen gap ≤ i →
        i < byteLen before + byteLen gap + byteLen run → hidden i = true := by
      intro i hi hlt
      rw [← byteLen_append] at hi hlt
      rw [← byteLen_append] at hlt
      exact (hhidden i (by rw [byteLen_append] at hi; omega)).mpr ⟨_, List.mem_cons_self, hi, hlt⟩
    have hbehind : ∀ i, byteLen (before ++ gap ++ run) ≤ i → byteLen before ≤ i := by
      intro i hi
      rw [byteLen_append, byteLen_append] at hi
      omega
    have hhead : (marksFrom hidden (byteLen before + byteLen gap + byteLen run) s).head?.any
        Prod.snd = false := by
      rw [← byteLen_append, ← byteLen_append]
      refine head_marksFrom (shown_of_outside hhidden (hbehind _ (Nat.le_refl _)) fun a ha hin => ?_)
      rcases List.mem_cons.mp ha with rfl | ha
      · exact absurd hin.2 (Nat.lt_irrefl _)
      · have := hlater a ha
        omega
    have hrest : renderFrom (before ++ gap ++ run ++ s) (byteLen (before ++ gap ++ run)) parts =
        maskRuns (marksFrom hidden (byteLen (before ++ gap ++ run)) s) := by
      refine ih (before ++ gap ++ run) hapart.of_cons (fun a ha => hne a (List.mem_cons_of_mem _ ha)) ?_
        (fun a ha => Nat.le_of_lt (hlater a ha)) ?_
      · intro a ha
        rw [← hassoc]
        exact hcuts a (List.mem_cons_of_mem _ ha)
      · intro i hi
        rw [hhidden i (hbehind i hi)]
        simp only [List.mem_cons, exists_eq_or_imp]
        exact or_iff_right fun hin => absurd hin.2 (Nat.not_lt.mpr hi)
    rw [renderFrom, getRange_append, Option.getD_some, hmax, hassoc, hrest, marksFrom_append,
      marksFrom_append, maskRuns_shown _ hgap, maskRuns_run hrun hcovered hhead, List.append_assoc,
      byteLen_append, byteLen_append]

end Rendering

section Boundaries
variable {line : Text} {r : Nat × Nat}

/-- A nonempty range that cuts no character. -/
def Clean (line : Text) (r : Nat × Nat) : Prop :=
  0 < r.2 ∧ isCharBoundary line r.1 = true ∧ isCharBoundary line (r.1 + r.2) = true

theorem clean_part (before rest : Text) {part : Text} (hne : part ≠ []) :
    Clean (before ++ part ++ rest) (byteLen before, byteLen part) := by
  refine ⟨byteLen_pos hne, isCharBoundary_iff.mpr ⟨before, part ++ rest, ?_, rfl⟩,
    isCharBoundary_iff.mpr ⟨before ++ part, rest, rfl, (byteLen_append _ _).symm⟩⟩
  rw [List.append_assoc]

/-- The ranges of one line become its masked runs. -/
theorem applyRanges_eq {ranges : List (Nat × Nat)} (hclean : ∀ r ∈ ranges, Clean line r) :
    applyRanges line ranges = maskRuns (marksFrom (covered ranges) 0 line) := by
  by_cases hnil : ranges = []
  · have hall : maskRuns (marksFrom (covered []) 0 line ++ []) = line ++ maskRuns [] :=
      maskRuns_shown [] fun _ _ _ => rfl
    rw [List.append_nil, maskRuns, List.append_nil] at hall
    rw [hnil, hall]
    rfl
  · have hmem : ∀ q, q ∈ ranges.insertionSort RangeLe ↔ q ∈ ranges :=
      fun q => List.mem_insertionSort RangeLe
    have hsorted : (ranges.insertionSort RangeLe).Pairwise RangeLe :=
      List.pairwise_insertionSort RangeLe _
    have hcovered : ∀ i, covered ranges i = true ↔
        covered (ranges.insertionSort RangeLe) i = true := by
      intro i
      simp only [covered_iff, hmem]
    have hmerges : Merges (ranges.insertionSort RangeLe)
        (merged (ranges.insertionSort RangeLe)) :=
      merges_merged hsorted fun q hq => (hclean q ((hmem q).mp hq)).1
    rw [applyRanges, if_neg (by simpa using hnil)]
    refine renderFrom_eq [] hmerges.apart hmerges.nonempty ?_
      (fun a _ => Nat.zero_le a.1) fun i _ => by rw [hmerges.cover, hcovered]
    intro a ha
    obtain ⟨q, hq, hstart⟩ := hmerges.starts a ha
    obtain ⟨q', hq', hstop⟩ := hmerges.stops a ha
    rw [hstart, hstop]
    exact ⟨(hclean q ((hmem q).mp hq)).2.1, (hclean q' ((hmem q').mp hq')).2.2⟩

theorem clean_continueValue {entry : Text × Nat} (hne : line ≠ [])
    (h : (continueValue line entry).1 = some r) : Clean line r := by
  unfold continueValue at h
  cases hrest : getFrom entry.1 entry.2 with
  | none =>
    rw [hrest] at h
    cases h
  | some rest =>
    rw [hrest] at h
    dsimp only at h
    by_cases hempty : rest.isEmpty = true
    · rw [if_pos hempty] at h
      cases h
    · rw [if_neg hempty] at h
      by_cases hwhole : line.isPrefixOf rest = true
      · rw [if_pos hwhole] at h
        cases h
        have hclean := clean_part [] [] hne
        rwa [List.nil_append, List.append_nil] at hclean
      · rw [if_neg hwhole] at h
        by_cases hends : rest.isPrefixOf line = true
        · rw [if_pos hends] at h
          cases h
          obtain ⟨t, rfl⟩ := List.isPrefixOf_iff_prefix.mp hends
          exact clean_part [] t (by simpa using hempty)
        · rw [if_neg hends] at h
          cases h

theorem clean_occurrence {masks : List Text} (h : r ∈ occurrences masks line) : Clean line r := by
  rw [occurrences, List.mem_insertionSort, List.mem_flatMap] at h
  obtain ⟨secret, -, hr⟩ := h
  by_cases hempty : secret.isEmpty = true
  · rw [if_pos hempty] at hr
    cases hr
  · rw [if_neg hempty] at hr
    obtain ⟨pos, hpos, rfl⟩ := List.mem_map.mp hr
    obtain ⟨k, hk, rfl⟩ := List.mem_map.mp hpos
    obtain ⟨t, ht⟩ := Str.mem_matchIndices hk
    have hsplit : line.take k ++ secret ++ t = line := by
      rw [List.append_assoc, ht, List.take_append_drop]
    have hclean := clean_part (line.take k) t (List.isEmpty_eq_false_iff.mp
      (Bool.eq_false_iff.mpr hempty))
    rwa [hsplit] at hclean

/-- What the search finds is a nonempty end of the line. -/
theorem endsWithPrefix_split {secret : Text} {n : Nat} (hn : n ∈ prefixBoundaries secret)
    (h : endsWithPrefix (Bytes.encode line) (Bytes.encode secret) n = true) :
    ∃ before tail, line = before ++ tail ∧ tail ≠ [] ∧ n = byteLen tail := by
  obtain ⟨p, t, rfl, hp, rfl⟩ := mem_prefixBoundaries_split hn
  rw [endsWithPrefix, Bool.and_eq_true, List.isSuffixOf_iff_suffix, Bytes.encode_append,
    ← length_encode, List.take_left] at h
  obtain ⟨before, hbefore⟩ := Bytes.suffix_of_encode hp h.2
  exact ⟨before, p, hbefore.symm, hp, rfl⟩

theorem tailPrefix_split {masks : List Text} {tail : Nat × Text}
    (h : tailPrefix masks line = some tail) :
    ∃ before part, line = before ++ part ∧ part ≠ [] ∧ tail.1 = byteLen part := by
  unfold tailPrefix at h
  by_cases hempty : line.isEmpty = true
  · rw [if_pos hempty] at h
    cases h
  · rw [if_neg hempty] at h
    have hstep : ∀ best : Option (Nat × Text), (∀ b ∈ best, ∃ before part, line = before ++ part ∧
        part ≠ [] ∧ b.1 = byteLen part) → ∀ b ∈ masks.foldl (betterTail (Bytes.encode line)) best,
        ∃ before part, line = before ++ part ∧ part ≠ [] ∧ b.1 = byteLen part := by
      clear h
      induction masks with
      | nil => exact fun best h => h
      | cons secret masks ih =>
        intro best hbest
        refine ih _ fun b hb => ?_
        unfold betterTail at hb
        cases hfind : (prefixBoundaries secret).find?
            (endsWithPrefix (Bytes.encode line) (Bytes.encode secret)) with
        | none =>
          rw [hfind] at hb
          exact hbest b hb
        | some n =>
          rw [hfind] at hb
          dsimp only at hb
          by_cases hlonger : (best.all fun b => b.1 < n) = true
          · rw [if_pos hlonger] at hb
            cases hb
            exact endsWithPrefix_split (List.mem_of_find?_eq_some hfind)
              (List.find?_some hfind)
          · rw [if_neg hlonger] at hb
            exact hbest b hb
    exact hstep none (fun b hb => by cases hb) tail h

theorem clean_tailRange {masks : List Text} (h : r ∈ tailRange line (tailPrefix masks line)) :
    Clean line r := by
  unfold tailRange at h
  cases htail : tailPrefix masks line with
  | none =>
    rw [htail] at h
    cases h
  | some tail =>
    rw [htail] at h
    dsimp only at h
    by_cases hlong : minPrefixRedact ≤ tail.1
    · rw [if_pos hlong] at h
      obtain ⟨before, part, rfl, hne, hlen⟩ := tailPrefix_split htail
      have hstart : byteLen (before ++ part) - tail.1 = byteLen before := by
        rw [byteLen_append, hlen, Nat.add_sub_cancel]
      rw [List.mem_singleton.mp h, hstart, hlen]
      have hclean := clean_part before [] hne
      rwa [List.append_nil] at hclean
    · rw [if_neg hlong] at h
      cases h

theorem clean_ranges (m : Masker) : ∀ r ∈ m.ranges line, Clean line r := by
  intro r hr
  unfold Masker.ranges at hr
  by_cases hempty : line.isEmpty = true
  · rw [if_pos hempty] at hr
    cases hr
  · rw [if_neg hempty, List.mem_append, List.mem_append] at hr
    rcases hr with (hpending | hoccurrence) | htail
    · obtain ⟨entry, -, hrange⟩ := List.mem_filterMap.mp hpending
      exact clean_continueValue (by simpa using hempty) hrange
    · exact clean_occurrence hoccurrence
    · exact clean_tailRange htail

end Boundaries

namespace Masker

@[simp] theorem redactLine_shorts (m : Masker) (line : Text) :
    (m.redactLine line).1.shorts = m.shorts := by
  unfold redactLine
  split <;> rfl

@[simp] theorem after_shorts (m : Masker) (lines : List Text) :
    (m.after lines).shorts = m.shorts := by
  induction lines generalizing m with
  | nil => rfl
  | cons line lines ih => rw [after, List.foldl_cons, ← after, ih, redactLine_shorts]

theorem redactLine_of_shorts {m : Masker} (h : m.shorts = []) (line : Text) :
    (m.redactLine line).2 = applyRanges line (m.ranges line) := by
  have hnarrow : ∀ s, m.narrow s = s := fun s => by rw [narrow, h, List.foldl_nil]
  rw [redactLine]
  by_cases hempty : line.isEmpty = true
  · rw [if_pos hempty, hnarrow, ranges, if_pos hempty]
    rfl
  · rw [if_neg hempty, hnarrow]

end Masker

theorem unmasked_text_kept (masks before : List Text) (line : Text) :
    (∀ r ∈ ((Masker.new masks []).after before).ranges line, Clean line r) ∧
      (((Masker.new masks []).after before).redactLine line).2 =
        maskRuns (marksFrom (covered (((Masker.new masks []).after before).ranges line)) 0 line) := by
  refine ⟨clean_ranges _, ?_⟩
  rw [Masker.redactLine_of_shorts (Masker.after_shorts _ _), applyRanges_eq (clean_ranges _)]

end Shellflow.ByteRanges
