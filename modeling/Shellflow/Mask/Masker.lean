import Mathlib.Data.List.Destutter
import Mathlib.Data.List.Sort
import Shellflow.Text
import Shellflow.Mask.Ranges

/-! The masker of one output stream: complete values and values split over lines are hidden by
ranges, the short ones by narrow rules afterwards. -/
namespace Shellflow

def byteLen : Text → Nat
  | [] => 0
  | c :: s => c.utf8Size + byteLen s

@[simp] theorem byteLen_append (s t : Text) : byteLen (s ++ t) = byteLen s + byteLen t := by
  induction s with
  | nil => rw [List.nil_append, byteLen, Nat.zero_add]
  | cons c s ih => rw [List.cons_append, byteLen, byteLen, ih, Nat.add_assoc]

theorem byteLen_pos {s : Text} (h : s ≠ []) : 0 < byteLen s := by
  cases s with
  | nil => exact absurd rfl h
  | cons c s =>
    have hc : 0 < c.utf8Size := c.utf8Size_pos
    rw [byteLen]
    omega

/-- Longer values first, values of one length by their content. -/
def MaskLe (a b : Text) : Prop :=
  byteLen b < byteLen a ∨ byteLen a = byteLen b ∧ Str.leChars a b = true

instance (a b : Text) : Decidable (MaskLe a b) := inferInstanceAs (Decidable (_ ∨ _))

def prepareMasks (secrets : List Text) : List Text :=
  ((secrets.filter fun s => !s.isEmpty).insertionSort MaskLe).destutter (· ≠ ·)

def maskLine (line : Text) (masks : List Text) : Text :=
  if masks.isEmpty then line
  else masks.foldl (fun out secret =>
    if secret.isEmpty then out else Str.replaceFrom secret mask 0 out) line

def isWord (c : Char) : Bool := isAsciiAlphanumeric c || c == '_'

/-- The loop of `maskToken`; it looks for the value in what is left of the line. -/
def maskTokenFrom (secret : Text) (hne : secret ≠ []) (rest : Text) : Text :=
  match _h : Str.splitOnceChars secret rest with
  | none => rest
  | some (before, tail) =>
    let leftOk := before.getLast?.all fun c => !isWord c
    let rightOk := tail.head?.all fun c => !isWord c
    before ++ (if leftOk && rightOk then mask else secret) ++ maskTokenFrom secret hne tail
termination_by rest.length
decreasing_by exact Str.length_tail_lt hne _h

def maskToken (line secret : Text) : Text :=
  if hne : secret = [] then line else maskTokenFrom secret hne line

def eqIgnoreAsciiCase (a b : Text) : Bool := a.map Str.asciiLower == b.map Str.asciiLower

/-- The identifier is what the part before the match ends in. -/
def replaceKeyed (line key suffix : Text) (hne : suffix ≠ []) : Text :=
  match _h : Str.splitOnceChars suffix line with
  | none => line
  | some (before, tail) =>
    let ident := before.rtakeWhile isWord
    before ++ (if eqIgnoreAsciiCase ident key then '=' :: mask else suffix) ++
      replaceKeyed tail key suffix hne
termination_by line.length
decreasing_by exact Str.length_tail_lt hne _h

def maskKeyed (line key value : Text) : Text :=
  if key.isEmpty || value.isEmpty then line
  else
    let bare := replaceKeyed line key ('=' :: value) (List.cons_ne_nil _ _)
    let single := replaceKeyed bare key ('=' :: '\'' :: value ++ ['\'']) (List.cons_ne_nil _ _)
    replaceKeyed single key ('=' :: '"' :: value ++ ['"']) (List.cons_ne_nil _ _)

def minPrefixRedact : Nat := 4

/-- The lengths of the proper prefixes, longest first. -/
def prefixBoundaries (s : Text) : List Nat := (List.range' 1 (s.length - 1)).reverse

/-- `pending` holds values whose prefix ended an earlier line, with the part already seen. The
prefix lengths of the values, which the source keeps next to them, are computed when needed. -/
structure SecretMasker where
  masks : List Text
  shorts : List (Text × Text)
  pending : List (Text × Nat)

namespace SecretMasker

def new (masks : List Text) (shorts : List (Text × Text)) : SecretMasker := ⟨masks, shorts, []⟩

/-- The rules for the values below the masking threshold. -/
def narrow (m : SecretMasker) (line : Text) : Text :=
  m.shorts.foldl (fun out kv => maskKeyed (maskToken out kv.2) kv.1 kv.2) line

def redactText (m : SecretMasker) (text : Text) : Text := m.narrow (maskLine text m.masks)

end SecretMasker

/-- One pending value on a nonempty line: the range it hides and what stays pending. -/
def continueValue (line : Text) (entry : Text × Nat) : Option (Nat × Nat) × Option (Text × Nat) :=
  let rest := entry.1.drop entry.2
  if rest.isEmpty then (none, none)
  else if line.isPrefixOf rest then
    let consumed := entry.2 + line.length
    (some (0, line.length),
      if (entry.1.drop consumed).isEmpty then none else some (entry.1, consumed))
  else if rest.isPrefixOf line then (some (0, rest.length), none)
  else (none, none)

def occurrences (masks : List Text) (line : Text) : List (Nat × Nat) :=
  (masks.flatMap fun secret =>
    if secret.isEmpty then []
    else (Str.matchIndices secret line).map fun pos => (pos, secret.length)).insertionSort RangeLe

/-- The longest proper prefix of a value that ends the line. The test of the first byte, which
only saves comparisons, is left out. -/
def longestTail (line secret : Text) : Option Nat :=
  (prefixBoundaries secret).find? fun k => k ≤ line.length && (secret.take k).isSuffixOf line

def betterTail (line : Text) (best : Option (Nat × Text)) (secret : Text) : Option (Nat × Text) :=
  match longestTail line secret with
  | none => best
  | some k => if best.all fun b => b.1 < k then some (k, secret) else best

def tailPrefix (masks : List Text) (line : Text) : Option (Nat × Text) :=
  if line.isEmpty then none else masks.foldl (betterTail line) none

def tailRange (line : Text) (tail : Option (Nat × Text)) : List (Nat × Nat) :=
  match tail with
  | none => []
  | some (k, secret) =>
    if minPrefixRedact ≤ byteLen (secret.take k) then [(line.length - k, k)] else []

namespace SecretMasker

/-- Everything the long values hide in a nonempty line. -/
def lineRanges (m : SecretMasker) (line : Text) : List (Nat × Nat) :=
  m.pending.filterMap (fun entry => (continueValue line entry).1) ++ occurrences m.masks line ++
    tailRange line (tailPrefix m.masks line)

def pendingAfter (m : SecretMasker) (line : Text) : List (Text × Nat) :=
  m.pending.filterMap (fun entry => (continueValue line entry).2) ++
    ((tailPrefix m.masks line).map fun tail => (tail.2, tail.1)).toList

def redactLine (m : SecretMasker) (line : Text) : SecretMasker × Text :=
  if line.isEmpty then (m, m.narrow line)
  else
    ({ m with pending := m.pendingAfter line }, m.narrow (applyRanges line (m.lineRanges line)))

/-- A whole stream, line by line. -/
def redactLines (m : SecretMasker) : List Text → List Text
  | [] => []
  | line :: rest => (m.redactLine line).2 :: (m.redactLine line).1.redactLines rest

@[simp] theorem redactLine_masks (m : SecretMasker) (line : Text) :
    (m.redactLine line).1.masks = m.masks := by
  unfold redactLine
  split <;> rfl

@[simp] theorem redactLine_shorts (m : SecretMasker) (line : Text) :
    (m.redactLine line).1.shorts = m.shorts := by
  unfold redactLine
  split <;> rfl

@[simp] theorem redactLine_nil (m : SecretMasker) : m.redactLine [] = (m, m.narrow []) := rfl

theorem redactLine_pending {line : Text} (m : SecretMasker) (hne : line ≠ []) :
    (m.redactLine line).1.pending = m.pendingAfter line := by
  rw [redactLine, if_neg (by simpa using hne)]

theorem narrow_of_shorts {m : SecretMasker} (h : m.shorts = []) (line : Text) :
    m.narrow line = line := by
  rw [narrow, h, List.foldl_nil]

end SecretMasker

theorem mem_destutter'_ne {s a : Text} {l : List Text} :
    s ∈ l.destutter' (· ≠ ·) a ↔ s ∈ a :: l := by
  induction l generalizing a with
  | nil => rfl
  | cons b l ih =>
    by_cases hab : a ≠ b
    · rw [List.destutter'_cons_pos _ hab, List.mem_cons, ih, List.mem_cons (b := a)]
    · rw [List.destutter'_cons_neg _ hab, ih]
      obtain rfl : a = b := not_not.mp hab
      simp

/-- The prepared set holds the nonempty values, each of them. -/
theorem mem_prepareMasks {secrets : List Text} {s : Text} :
    s ∈ prepareMasks secrets ↔ s ∈ secrets ∧ s ≠ [] := by
  have hdedup : ∀ l : List Text, s ∈ l.destutter (· ≠ ·) ↔ s ∈ l := by
    intro l
    cases l with
    | nil => rfl
    | cons a l => exact mem_destutter'_ne
  rw [prepareMasks, hdedup, List.mem_insertionSort, List.mem_filter]
  simp

instance : Std.Total MaskLe where
  total a b := by
    have hcontent := Str.leChars_total a b
    unfold MaskLe
    rcases Nat.lt_trichotomy (byteLen a) (byteLen b) with hlt | heq | hgt
    · exact .inr (.inl hlt)
    · exact hcontent.imp (fun h => .inr ⟨heq, h⟩) fun h => .inr ⟨heq.symm, h⟩
    · exact .inl (.inl hgt)

instance : IsTrans Text MaskLe where
  trans a b c hab hbc := by
    rcases hab with hab | ⟨hab, hle⟩
    · rcases hbc with hbc | ⟨hbc, -⟩
      · exact .inl (hbc.trans hab)
      · exact .inl (hbc ▸ hab)
    · rcases hbc with hbc | ⟨hbc, hle'⟩
      · exact .inl (hab ▸ hbc)
      · exact .inr ⟨hab.trans hbc, Str.leChars_trans hle hle'⟩

instance : Std.Antisymm MaskLe where
  antisymm a b hab hba := by
    rcases hab with hab | ⟨hab, hle⟩
    · rcases hba with hba | ⟨hba, -⟩ <;> omega
    · rcases hba with hba | ⟨-, hle'⟩
      · omega
      · exact Str.leChars_antisymm hle hle'

/-- Strictly longer, or of one length and strictly first by content. -/
def MaskLt (a b : Text) : Prop :=
  byteLen b < byteLen a ∨ byteLen a = byteLen b ∧ Str.leChars b a = false

theorem maskLt_of_le_of_ne {a b : Text} (hle : MaskLe a b) (hne : a ≠ b) : MaskLt a b := by
  refine hle.imp_right fun h => ⟨h.1, ?_⟩
  cases hback : Str.leChars b a with
  | false => rfl
  | true => exact absurd (Str.leChars_antisymm h.2 hback) hne

/-- Whatever sort brought the values in order, dropping adjacent repetitions leaves one list. -/
theorem destutter_eq_of_sorted {l m : List Text} (hl : l.Pairwise MaskLe) (hm : m.Pairwise MaskLe)
    (hmem : ∀ s, s ∈ l ↔ s ∈ m) : l.destutter (· ≠ ·) = m.destutter (· ≠ ·) := by
  have hsorted : ∀ {l : List Text}, l.Pairwise MaskLe → (l.destutter (· ≠ ·)).Pairwise MaskLe :=
    fun h => h.sublist (List.destutter_sublist _ _)
  refine List.Perm.eq_of_pairwise (fun a b _ _ hab hba => Std.Antisymm.antisymm a b hab hba)
    (hsorted hl) (hsorted hm) ?_
  rw [hl.destutter_eq_dedup, hm.destutter_eq_dedup]
  refine (List.perm_ext_iff_of_nodup l.nodup_dedup m.nodup_dedup).mpr fun s => ?_
  rw [List.mem_dedup, List.mem_dedup, hmem]

/-- The prepared list is the strictly sorted list of the nonempty values, whatever their order and
however often each of them is given. -/
theorem prepareMasks_canonical (secrets : List Text) :
    (∀ s, s ∈ prepareMasks secrets ↔ s ∈ secrets ∧ s ≠ []) ∧
      (prepareMasks secrets).Nodup ∧ (prepareMasks secrets).Pairwise MaskLt ∧
      ∀ others : List Text, (∀ s, s ∈ others ↔ s ∈ secrets) →
        prepareMasks others = prepareMasks secrets := by
  have hsorted : ∀ l : List Text, (l.insertionSort MaskLe).Pairwise MaskLe :=
    List.pairwise_insertionSort MaskLe
  have hnodup : (prepareMasks secrets).Nodup := by
    rw [prepareMasks, (hsorted _).destutter_eq_dedup]
    exact List.nodup_dedup _
  refine ⟨fun s => mem_prepareMasks, hnodup, ?_, fun others hothers => ?_⟩
  · have hle : (prepareMasks secrets).Pairwise MaskLe :=
      (hsorted _).sublist (List.destutter_sublist _ _)
    exact hle.imp₂ (fun a b => maskLt_of_le_of_ne) hnodup
  · refine destutter_eq_of_sorted (hsorted _) (hsorted _) fun s => ?_
    rw [List.mem_insertionSort, List.mem_insertionSort, List.mem_filter, List.mem_filter, hothers]

/-- The order of the entries and a repeated one make no difference. -/
theorem prepareMasks_canonical_reordered :
    prepareMasks ["b".toList, "abc".toList, [], "a".toList, "b".toList] =
      prepareMasks ["a".toList, "abc".toList, "b".toList, []] :=
  (prepareMasks_canonical _).2.2.2 _ fun s => by simp only [List.mem_cons]; tauto

end Shellflow
