import Mathlib.Data.List.Basic
import Mathlib.Data.List.DropRight
import Mathlib.Data.List.Infix

/-! String operations with the documented behaviour of the Rust standard library. The work is
done on character lists, where recursion is structural; the `String` versions wrap it. -/
namespace Str

/-- The code points with the Unicode property `White_Space`. -/
def isWhitespace (c : Char) : Bool :=
  let n := c.toNat
  (9 ≤ n && n ≤ 13) || n == 32 || n == 0x85 || n == 0xA0 || n == 0x1680 ||
    (0x2000 ≤ n && n ≤ 0x200A) || n == 0x2028 || n == 0x2029 || n == 0x202F ||
    n == 0x205F || n == 0x3000

section Chars

def trimStartChars (s : List Char) : List Char := s.dropWhile isWhitespace

def trimEndChars (s : List Char) : List Char := s.rdropWhile isWhitespace

def trimChars (s : List Char) : List Char := trimEndChars (trimStartChars s)

/-- `cur` is the current line, reversed. A carriage return goes with the newline after it. -/
def linesFrom (cur : List Char) : List Char → List (List Char)
  | [] => if cur = [] then [] else [cur.reverse]
  | c :: s =>
    if c = '\n' then
      (match cur with
        | '\r' :: rest => rest.reverse
        | _ => cur.reverse) :: linesFrom [] s
    else linesFrom (c :: cur) s

def linesChars (s : List Char) : List (List Char) := linesFrom [] s

/-- `cur` is the current word, reversed. -/
def wordsFrom (cur : List Char) : List Char → List (List Char)
  | [] => if cur = [] then [] else [cur.reverse]
  | c :: s =>
    if isWhitespace c then
      if cur = [] then wordsFrom [] s else cur.reverse :: wordsFrom [] s
    else wordsFrom (c :: cur) s

/-- What stands before and after the first occurrence of `pat`. -/
def splitOnceChars (pat : List Char) : List Char → Option (List Char × List Char)
  | [] => if pat = [] then some ([], []) else none
  | c :: s =>
    match pat.isPrefixOf? (c :: s) with
    | some rest => some ([], rest)
    | none => (splitOnceChars pat s).map fun p => (c :: p.1, p.2)

/-- `skip` characters belong to an occurrence that was replaced already. -/
def replaceFrom (pat rep : List Char) : Nat → List Char → List Char
  | _, [] => []
  | k + 1, _ :: s => replaceFrom pat rep k s
  | 0, c :: s =>
    if pat.isPrefixOf (c :: s) then rep ++ replaceFrom pat rep (pat.length - 1) s
    else c :: replaceFrom pat rep 0 s

/-- The index of the next character is `k`; `skip` characters belong to the last occurrence. -/
def matchIndicesFrom (pat : List Char) : Nat → Nat → List Char → List Nat
  | _, _, [] => []
  | k, skip + 1, _ :: s => matchIndicesFrom pat (k + 1) skip s
  | k, 0, c :: s =>
    if pat.isPrefixOf (c :: s) then k :: matchIndicesFrom pat (k + 1) (pat.length - 1) s
    else matchIndicesFrom pat (k + 1) 0 s

/-- Where a nonempty `pat` occurs, from the left and without overlaps. -/
def matchIndices (pat s : List Char) : List Nat := matchIndicesFrom pat 0 0 s

/-- The pieces between the occurrences of a character; `cur` is the current piece, reversed. -/
def splitCharFrom (sep : Char) (cur : List Char) : List Char → List (List Char)
  | [] => [cur.reverse]
  | c :: s => if c = sep then cur.reverse :: splitCharFrom sep [] s else splitCharFrom sep (c :: cur) s

/-- The order of code points, which is the one of the bytes in UTF-8. -/
def leChars : List Char → List Char → Bool
  | [], _ => true
  | _ :: _, [] => false
  | a :: s, b :: t => a.toNat < b.toNat || a.toNat = b.toNat && leChars s t

/-- The text behind every leading copy of a nonempty pattern, at most `fuel` of them. -/
def trimPatternChars (pat : List Char) : Nat → List Char → List Char
  | 0, s => s
  | fuel + 1, s =>
    match pat.isPrefixOf? s with
    | some rest => trimPatternChars pat fuel rest
    | none => s

def isAsciiDigit (c : Char) : Bool := '0' ≤ c && c ≤ '9'

/-- The value of a nonempty run of digits of a radix up to ten. -/
def digitsValue (radix acc : Nat) : List Char → Option Nat
  | [] => some acc
  | c :: s =>
    if isAsciiDigit c && c.toNat - '0'.toNat < radix then
      digitsValue radix (radix * acc + (c.toNat - '0'.toNat)) s
    else none

/-- An unsigned number below `bound`, with an optional plus sign in front. -/
def parseUnsignedChars (radix bound : Nat) (s : List Char) : Option Nat :=
  let digits := if s.head? = some '+' then s.drop 1 else s
  if digits.isEmpty then none else (digitsValue radix 0 digits).filter fun n => n < bound

end Chars

def trim (s : String) : String := String.ofList (trimChars s.toList)

def trimStart (s : String) : String := String.ofList (trimStartChars s.toList)

def trimEnd (s : String) : String := String.ofList (trimEndChars s.toList)

def lines (s : String) : List String := (linesChars s.toList).map String.ofList

def splitWhitespace (s : String) : List String := (wordsFrom [] s.toList).map String.ofList

def startsWith (s pat : String) : Bool := pat.toList.isPrefixOf s.toList

def endsWith (s pat : String) : Bool := pat.toList.isSuffixOf s.toList

def contains (s pat : String) : Bool := decide (pat.toList <:+: s.toList)

def stripPrefix (s pat : String) : Option String :=
  (pat.toList.isPrefixOf? s.toList).map String.ofList

def stripSuffix (s pat : String) : Option String :=
  (pat.toList.isSuffixOf? s.toList).map String.ofList

def splitOnce (s pat : String) : Option (String × String) :=
  (splitOnceChars pat.toList s.toList).map fun p => (String.ofList p.1, String.ofList p.2)

/-- Every occurrence of a nonempty `pat`, from the left and without overlaps. -/
def replace (s pat rep : String) : String :=
  String.ofList (replaceFrom pat.toList rep.toList 0 s.toList)

def splitChar (s : String) (sep : Char) : List String :=
  (splitCharFrom sep [] s.toList).map String.ofList

/-- What stands before and after the last occurrence of a character. -/
def rsplitOnceChar (s : String) (sep : Char) : Option (String × String) :=
  (splitOnceChars [sep] s.toList.reverse).map fun p =>
    (String.ofList p.2.reverse, String.ofList p.1.reverse)

def trimStartMatches (s : String) (c : Char) : String :=
  String.ofList (s.toList.dropWhile fun d => d == c)

/-- A text without the leading copies of a nonempty pattern. -/
def trimStartPattern (s pat : String) : String :=
  String.ofList (trimPatternChars pat.toList s.length s.toList)

def parseU16 (s : String) : Option Nat := parseUnsignedChars 10 65536 s.toList

def parseU32 (s : String) : Option Nat := parseUnsignedChars 10 4294967296 s.toList

def parseU64 (s : String) : Option Nat := parseUnsignedChars 10 18446744073709551616 s.toList

/-- A signed number of 32 bits, with an optional sign in front. -/
def parseI32 (s : String) : Option Int :=
  match s.toList with
  | '-' :: digits =>
    if digits.isEmpty then none
    else ((digitsValue 10 0 digits).filter fun n => n ≤ 2147483648).map fun n => -Int.ofNat n
  | chars => (parseUnsignedChars 10 2147483648 chars).map Int.ofNat

/-- A signed number of 64 bits, with an optional sign in front. -/
def parseI64 (s : String) : Option Int :=
  match s.toList with
  | '-' :: digits =>
    if digits.isEmpty then none
    else ((digitsValue 10 0 digits).filter fun n => n ≤ 9223372036854775808).map fun n =>
      -Int.ofNat n
  | chars => (parseUnsignedChars 10 9223372036854775808 chars).map Int.ofNat

def toAsciiUppercase (s : String) : String :=
  String.ofList (s.toList.map fun c =>
    if 'a' ≤ c ∧ c ≤ 'z' then Char.ofNat (c.toNat - 32) else c)

def asciiLower (c : Char) : Char := if 'A' ≤ c ∧ c ≤ 'Z' then Char.ofNat (c.toNat + 32) else c

def toAsciiLowercase (s : String) : String := String.ofList (s.toList.map asciiLower)

def all (s : String) (p : Char → Bool) : Bool := s.toList.all p

def join (sep : String) (l : List String) : String :=
  String.ofList (sep.toList.intercalate (l.map String.toList))

attribute [local simp] linesFrom wordsFrom splitOnceChars replaceFrom matchIndicesFrom splitCharFrom digitsValue leChars

theorem splitOnceChars_eq {pat s before tail : List Char}
    (h : splitOnceChars pat s = some (before, tail)) : s = before ++ pat ++ tail := by
  induction s generalizing before with
  | nil =>
    rw [splitOnceChars] at h
    split at h
    case isTrue hpat =>
      cases h
      simp [hpat]
    case isFalse => cases h
  | cons c s ih =>
    rw [splitOnceChars] at h
    split at h
    next rest hpat =>
      cases h
      exact (List.isPrefixOf?_eq_some_iff_append_eq.mp hpat).symm
    next =>
      obtain ⟨⟨b, t⟩, hrec, hp⟩ := Option.map_eq_some_iff.mp h
      cases hp
      rw [ih hrec]
      rfl

theorem length_tail_lt {pat s before tail : List Char} (hne : pat ≠ [])
    (h : splitOnceChars pat s = some (before, tail)) : tail.length < s.length := by
  have hpos : 0 < pat.length := List.length_pos_iff.mpr hne
  rw [splitOnceChars_eq h, List.length_append, List.length_append]
  omega

theorem not_infix_of_splitOnce_none {pat s : List Char} (h : splitOnceChars pat s = none) :
    ¬ pat <:+: s := by
  induction s with
  | nil =>
    intro hpat
    rw [splitOnceChars, if_pos (List.infix_nil.mp hpat)] at h
    cases h
  | cons c s ih =>
    rw [splitOnceChars] at h
    split at h
    next => cases h
    next hpre =>
      intro hpat
      rcases List.infix_cons_iff.mp hpat with hhere | hlater
      · rw [← List.isPrefixOf_iff_prefix, ← List.isSome_isPrefixOf?_eq_isPrefixOf, hpre] at hhere
        cases hhere
      · exact ih (Option.map_eq_none_iff.mp h) hlater

/-- The split is at the first occurrence. -/
theorem not_infix_before {pat s before tail : List Char} (hne : pat ≠ [])
    (h : splitOnceChars pat s = some (before, tail)) : ¬ pat <:+: before := by
  induction s generalizing before with
  | nil =>
    rw [splitOnceChars, if_neg hne] at h
    cases h
  | cons c s ih =>
    have hwhole := splitOnceChars_eq h
    rw [splitOnceChars] at h
    split at h
    next =>
      cases h
      exact fun hpat => hne (List.infix_nil.mp hpat)
    next hpre =>
      obtain ⟨⟨b, t⟩, hrec, hp⟩ := Option.map_eq_some_iff.mp h
      cases hp
      intro hpat
      rcases List.infix_cons_iff.mp hpat with hhere | hlater
      · have hstart : pat <+: c :: s := by
          rw [hwhole, List.append_assoc]
          exact hhere.trans (List.prefix_append _ _)
        rw [← List.isPrefixOf_iff_prefix, ← List.isSome_isPrefixOf?_eq_isPrefixOf, hpre] at hstart
        cases hstart
      · exact ih hrec hlater

/-- Induction along the occurrences of a pattern, from the left and without overlaps. -/
theorem occurrence_induction {pat : List Char} (hne : pat ≠ []) {motive : List Char → Prop}
    (none : ∀ s, splitOnceChars pat s = none → motive s)
    (some : ∀ s before tail, splitOnceChars pat s = some (before, tail) → motive tail → motive s)
    (s : List Char) : motive s := by
  induction hn : s.length using Nat.strongRecOn generalizing s with
  | ind n ih =>
    cases h : splitOnceChars pat s with
    | none => exact none s h
    | some parts =>
      exact some s parts.1 parts.2 h (ih parts.2.length (hn ▸ length_tail_lt hne h) parts.2 rfl)

theorem replaceFrom_drop (pat rep : List Char) (k : Nat) (s : List Char) :
    replaceFrom pat rep k s = replaceFrom pat rep 0 (s.drop k) := by
  induction s generalizing k with
  | nil => rw [List.drop_nil, replaceFrom, replaceFrom]
  | cons c s ih =>
    cases k with
    | zero => rfl
    | succ k => rw [replaceFrom, ih, List.drop_succ_cons]

theorem replaceFrom_eq {pat : List Char} (rep : List Char) (hne : pat ≠ []) (s : List Char) :
    replaceFrom pat rep 0 s =
      match splitOnceChars pat s with
      | none => s
      | some (before, tail) => before ++ rep ++ replaceFrom pat rep 0 tail := by
  induction s with
  | nil => rw [replaceFrom, splitOnceChars, if_neg hne]
  | cons c s ih =>
    rw [replaceFrom, splitOnceChars, ← List.isSome_isPrefixOf?_eq_isPrefixOf]
    cases hpre : pat.isPrefixOf? (c :: s) with
    | some rest =>
      have hwhole := List.isPrefixOf?_eq_some_iff_append_eq.mp hpre
      have hdrop : s.drop (pat.length - 1) = rest := by
        obtain ⟨d, pat', rfl⟩ := List.exists_cons_of_ne_nil hne
        have hs : s = pat' ++ rest := (List.cons.inj hwhole).2.symm
        rw [hs, List.length_cons, Nat.add_sub_cancel, List.drop_left]
      rw [Option.isSome_some, if_pos rfl, replaceFrom_drop, hdrop]
      rfl
    | none =>
      rw [Option.isSome_none, if_neg Bool.false_ne_true, ih]
      cases splitOnceChars pat s with
      | none => rfl
      | some parts => rfl

/-- Nothing is replaced where the pattern does not occur. -/
theorem replaceFrom_eq_self {pat s : List Char} (rep : List Char) (hne : pat ≠ [])
    (h : ¬ pat <:+: s) : replaceFrom pat rep 0 s = s := by
  rw [replaceFrom_eq rep hne]
  cases hsplit : splitOnceChars pat s with
  | none => rfl
  | some parts => exact absurd ⟨parts.1, parts.2, (splitOnceChars_eq hsplit).symm⟩ h

theorem mem_matchIndicesFrom {pat s : List Char} {k skip i : Nat}
    (h : i ∈ matchIndicesFrom pat k skip s) : k ≤ i ∧ pat <+: s.drop (i - k) := by
  induction s generalizing k skip with
  | nil => cases skip <;> simp [matchIndicesFrom] at h
  | cons c s ih =>
    have hstep : ∀ {skip}, i ∈ matchIndicesFrom pat (k + 1) skip s →
        k ≤ i ∧ pat <+: (c :: s).drop (i - k) := by
      intro skip hmem
      obtain ⟨hk, hpat⟩ := ih hmem
      obtain ⟨d, rfl⟩ : ∃ d, i = k + 1 + d := ⟨i - (k + 1), by omega⟩
      have hd : k + 1 + d - k = d + 1 := by omega
      have hd' : k + 1 + d - (k + 1) = d := by omega
      rw [hd'] at hpat
      exact ⟨by omega, by rw [hd, List.drop_succ_cons]; exact hpat⟩
    cases skip with
    | succ skip => exact hstep h
    | zero =>
      rw [matchIndicesFrom] at h
      split at h
      case isTrue hpat =>
        rcases List.mem_cons.mp h with rfl | h
        · simpa using List.isPrefixOf_iff_prefix.mp hpat
        · exact hstep h
      case isFalse => exact hstep h

theorem mem_matchIndices {pat s : List Char} {i : Nat} (h : i ∈ matchIndices pat s) :
    pat <+: s.drop i := by
  simpa using (mem_matchIndicesFrom h).2

/-- The scan skips an occurrence only when it begins inside one it has found. -/
theorem matchIndicesFrom_overlap {pat s : List Char} {d : Nat} (k skip : Nat) (hne : pat ≠ [])
    (hpat : pat <+: s.drop d) (hskip : skip ≤ d) :
    ∃ i ∈ matchIndicesFrom pat k skip s, i ≤ k + d ∧ k + d < i + pat.length := by
  have hlen : 0 < pat.length := List.length_pos_iff.mpr hne
  induction s generalizing k skip d with
  | nil =>
    rw [List.drop_nil, List.prefix_nil] at hpat
    exact absurd hpat hne
  | cons c s ih =>
    cases skip with
    | succ skip =>
      obtain ⟨d, rfl⟩ : ∃ e, d = e + 1 := ⟨d - 1, by omega⟩
      obtain ⟨i, hi, hlt, hgt⟩ := ih (k + 1) skip hpat (by omega)
      exact ⟨i, hi, by omega, by omega⟩
    | zero =>
      rw [matchIndicesFrom]
      by_cases hhere : pat.isPrefixOf (c :: s)
      · rw [if_pos hhere]
        by_cases hd : d < pat.length
        · exact ⟨k, List.mem_cons_self, by omega, by omega⟩
        · obtain ⟨d, rfl⟩ : ∃ e, d = e + 1 := ⟨d - 1, by omega⟩
          obtain ⟨i, hi, hlt, hgt⟩ :=
            ih (k + 1) (pat.length - 1) hpat (by omega)
          exact ⟨i, List.mem_cons_of_mem k hi, by omega, by omega⟩
      · rw [if_neg hhere]
        cases d with
        | zero => exact absurd (List.isPrefixOf_iff_prefix.mpr hpat) hhere
        | succ d =>
          obtain ⟨i, hi, hlt, hgt⟩ := ih (k + 1) 0 hpat (by omega)
          exact ⟨i, hi, by omega, by omega⟩

theorem matchIndices_overlap {pat s : List Char} {d : Nat} (hne : pat ≠ [])
    (hpat : pat <+: s.drop d) :
    ∃ i ∈ matchIndices pat s, i ≤ d ∧ d < i + pat.length := by
  have h := matchIndicesFrom_overlap 0 0 hne hpat (Nat.zero_le d)
  simpa [matchIndices] using h

theorem matchIndicesFrom_drop (pat : List Char) (k skip : Nat) (s : List Char) :
    matchIndicesFrom pat k skip s = matchIndicesFrom pat (k + skip) 0 (s.drop skip) := by
  induction s generalizing k skip with
  | nil => rw [List.drop_nil, matchIndicesFrom, matchIndicesFrom]
  | cons c s ih =>
    cases skip with
    | zero => rfl
    | succ skip =>
      rw [matchIndicesFrom, ih, List.drop_succ_cons]
      congr 1
      omega

/-- The scan goes on behind the first match. -/
theorem matchIndicesFrom_eq {pat : List Char} (hne : pat ≠ []) (k : Nat) (s : List Char) :
    matchIndicesFrom pat k 0 s =
      match splitOnceChars pat s with
      | none => []
      | some (before, tail) =>
        (k + before.length) :: matchIndicesFrom pat (k + before.length + pat.length) 0 tail := by
  induction s generalizing k with
  | nil => rw [matchIndicesFrom, splitOnceChars, if_neg hne]
  | cons c s ih =>
    rw [matchIndicesFrom, splitOnceChars, ← List.isSome_isPrefixOf?_eq_isPrefixOf]
    cases hpre : pat.isPrefixOf? (c :: s) with
    | some rest =>
      have hwhole := List.isPrefixOf?_eq_some_iff_append_eq.mp hpre
      obtain ⟨d, pat', rfl⟩ := List.exists_cons_of_ne_nil hne
      have hs : s = pat' ++ rest := (List.cons.inj hwhole).2.symm
      have hdrop : s.drop ((d :: pat').length - 1) = rest := by
        rw [hs, List.length_cons, Nat.add_sub_cancel, List.drop_left]
      have hk : k + 1 + ((d :: pat').length - 1) = k + 0 + (d :: pat').length := by
        rw [List.length_cons]
        omega
      rw [Option.isSome_some, if_pos rfl, matchIndicesFrom_drop, hdrop, hk]
      rfl
    | none =>
      rw [Option.isSome_none, if_neg Bool.false_ne_true, ih]
      cases splitOnceChars pat s with
      | none => rfl
      | some parts =>
        have hk : k + 1 + parts.1.length = k + (parts.1.length + 1) := by omega
        simp only [Option.map_some, List.length_cons, hk]

theorem matchIndicesFrom_shift {pat : List Char} (hne : pat ≠ []) (k : Nat) (s : List Char) :
    matchIndicesFrom pat k 0 s = (matchIndices pat s).map (k + ·) := by
  unfold matchIndices
  have hgen : ∀ d, matchIndicesFrom pat (k + d) 0 s =
      (matchIndicesFrom pat d 0 s).map (k + ·) := by
    induction s using occurrence_induction hne with
    | none s hsplit =>
      intro d
      rw [matchIndicesFrom_eq hne, matchIndicesFrom_eq hne, hsplit]
      rfl
    | some s before tail hsplit ih =>
      intro d
      have hd : k + (d + before.length) + pat.length = k + (d + before.length + pat.length) := by
        omega
      have hd' : k + d + before.length = k + (d + before.length) := by omega
      rw [matchIndicesFrom_eq hne, matchIndicesFrom_eq hne d, hsplit]
      simp only [List.map_cons, hd', hd, ih]
  exact hgen 0

/-- The first match, then those of the rest. -/
theorem mem_matchIndices_iff {pat s before tail : List Char} (hne : pat ≠ [])
    (hsplit : splitOnceChars pat s = some (before, tail)) {i : Nat} : i ∈ matchIndices pat s ↔
    i = before.length ∨ ∃ j ∈ matchIndices pat tail, i = before.length + pat.length + j := by
  have h := matchIndicesFrom_eq hne 0 s
  rw [hsplit] at h
  simp only [Nat.zero_add] at h
  rw [matchIndices, h, List.mem_cons, matchIndicesFrom_shift hne, List.mem_map]
  simp only [eq_comm]

/-- A nonempty run of characters without white space. -/
def IsWord (w : String) : Prop := w.toList ≠ [] ∧ ∀ c ∈ w.toList, isWhitespace c = false

theorem wordsFrom_word (cur w s : List Char) (hw : ∀ c ∈ w, isWhitespace c = false) :
    wordsFrom cur (w ++ s) = wordsFrom (w.reverse ++ cur) s := by
  induction w generalizing cur with
  | nil => rfl
  | cons c w ih =>
    have hc : isWhitespace c = false := hw c List.mem_cons_self
    have htail := ih (c :: cur) fun d hd => hw d (List.mem_cons_of_mem c hd)
    simpa [wordsFrom, hc] using htail

theorem wordsFrom_intercalate (l : List (List Char)) (hne : ∀ w ∈ l, w ≠ [])
    (hw : ∀ w ∈ l, ∀ c ∈ w, isWhitespace c = false) :
    wordsFrom [] ([' '].intercalate l) = l := by
  induction l with
  | nil => rfl
  | cons w l ih =>
    have hwne : w ≠ [] := hne w List.mem_cons_self
    have hword : ∀ c ∈ w, isWhitespace c = false := hw w List.mem_cons_self
    have htail := ih (fun v hv => hne v (List.mem_cons_of_mem w hv))
      (fun v hv => hw v (List.mem_cons_of_mem w hv))
    cases l with
    | nil =>
      have h := wordsFrom_word [] w [] hword
      simpa [List.intercalate, wordsFrom, hwne] using h
    | cons v l =>
      have hjoin : [' '].intercalate (w :: v :: l) = w ++ ' ' :: [' '].intercalate (v :: l) := by
        simp [List.intercalate]
      have hspace : isWhitespace ' ' = true := by decide
      rw [hjoin, wordsFrom_word [] w _ hword]
      simp [wordsFrom, hspace, hwne, htail]

theorem mem_wordsFrom {cur s w : List Char} (hcur : ∀ c ∈ cur, isWhitespace c = false)
    (h : w ∈ wordsFrom cur s) : w ≠ [] ∧ ∀ c ∈ w, isWhitespace c = false := by
  induction s generalizing cur with
  | nil =>
    rw [wordsFrom] at h
    by_cases hne : cur = []
    · simp [hne] at h
    · rw [if_neg hne, List.mem_singleton] at h
      subst h
      exact ⟨by simpa using hne, fun c hc => hcur c (List.mem_reverse.mp hc)⟩
  | cons c s ih =>
    rw [wordsFrom] at h
    by_cases hc : isWhitespace c = true
    · rw [if_pos hc] at h
      by_cases hne : cur = []
      · rw [if_pos hne] at h
        exact ih (fun d hd => absurd hd List.not_mem_nil) h
      · rw [if_neg hne] at h
        rcases List.mem_cons.mp h with rfl | h
        · exact ⟨by simpa using hne, fun d hd => hcur d (List.mem_reverse.mp hd)⟩
        · exact ih (fun d hd => absurd hd List.not_mem_nil) h
    · rw [if_neg hc] at h
      refine ih (fun d hd => ?_) h
      rcases List.mem_cons.mp hd with rfl | hd
      · simpa using hc
      · exact hcur d hd

theorem isWord_of_mem_splitWhitespace {s w : String} (h : w ∈ splitWhitespace s) : IsWord w := by
  obtain ⟨cs, hcs, rfl⟩ := List.mem_map.mp h
  have hword := mem_wordsFrom (fun c hc => absurd hc List.not_mem_nil) hcs
  simpa [IsWord] using hword

/-- Joining words with blanks loses nothing. -/
theorem splitWhitespace_join (l : List String) (hl : ∀ w ∈ l, IsWord w) :
    splitWhitespace (join " " l) = l := by
  have hwords : wordsFrom [] ([' '].intercalate (l.map String.toList)) = l.map String.toList := by
    apply wordsFrom_intercalate
    · intro w hw
      obtain ⟨s, hs, rfl⟩ := List.mem_map.mp hw
      exact (hl s hs).1
    · intro w hw
      obtain ⟨s, hs, rfl⟩ := List.mem_map.mp hw
      exact (hl s hs).2
  have hblank : (" " : String).toList = [' '] := rfl
  rw [splitWhitespace, join, String.toList_ofList, hblank, hwords, List.map_map]
  simp [Function.comp_def]

theorem splitOnceChars_of_notMem {c : Char} {a : List Char} (b : List Char) (ha : c ∉ a) :
    splitOnceChars [c] (a ++ c :: b) = some (a, b) := by
  induction a with
  | nil => simp [splitOnceChars, List.isPrefixOf?]
  | cons d a ih =>
    simp only [List.mem_cons, not_or] at ha
    obtain ⟨hd, ha⟩ := ha
    simp [splitOnceChars, List.isPrefixOf?, hd, ih ha]

theorem splitOnceChars_singleton_iff {c : Char} {s a b : List Char} :
    splitOnceChars [c] s = some (a, b) ↔ s = a ++ c :: b ∧ c ∉ a := by
  constructor
  · intro h
    refine ⟨by rw [splitOnceChars_eq h, List.append_assoc]; rfl, fun hmem => ?_⟩
    exact not_infix_before (List.cons_ne_nil c []) h ((List.singleton_infix_iff c a).mpr hmem)
  · rintro ⟨rfl, ha⟩
    exact splitOnceChars_of_notMem b ha

/-- The first occurrence is where its first character first stands. -/
theorem splitOnceChars_append {c : Char} {a : List Char} (pat b : List Char) (ha : c ∉ a) :
    splitOnceChars (c :: pat) (a ++ (c :: pat ++ b)) = some (a, b) := by
  induction a with
  | nil =>
    have hwhole : (c :: pat).isPrefixOf? (c :: pat ++ b) = some b :=
      List.isPrefixOf?_eq_some_iff_append_eq.mpr rfl
    rw [List.cons_append] at hwhole ⊢
    rw [List.nil_append, splitOnceChars, hwhole]
  | cons d a ih =>
    rw [List.mem_cons, not_or] at ha
    have hne : (c == d) = false := beq_false_of_ne ha.1
    rw [List.cons_append, splitOnceChars, List.isPrefixOf?, hne, if_neg Bool.false_ne_true, ih ha.2]
    rfl

theorem splitOnce_eq_some {s pat a b : String} (h : splitOnce s pat = some (a, b)) :
    s = a ++ (pat ++ b) := by
  obtain ⟨⟨before, tail⟩, hsplit, heq⟩ := Option.map_eq_some_iff.mp h
  cases heq
  rw [← String.toList_inj, splitOnceChars_eq hsplit]
  simp

theorem splitOnceChars_eq_none {c : Char} {s : List Char} (h : c ∉ s) :
    splitOnceChars [c] s = none := by
  induction s with
  | nil => rfl
  | cons d s ih =>
    rw [List.mem_cons, not_or] at h
    simp [splitOnceChars, List.isPrefixOf?, h.1, ih h.2]

theorem rsplitOnceChar_eq_none {s : String} {c : Char} (h : c ∉ s.toList) :
    rsplitOnceChar s c = none := by
  rw [rsplitOnceChar, splitOnceChars_eq_none (by simpa using h), Option.map_none]

theorem rsplitOnceChar_append (a b : String) {c : Char} (hb : c ∉ b.toList) :
    rsplitOnceChar (a ++ (String.singleton c ++ b)) c = some (a, b) := by
  have hrev : (a ++ (String.singleton c ++ b)).toList.reverse =
      b.toList.reverse ++ c :: a.toList.reverse := by
    simp
  rw [rsplitOnceChar, hrev, splitOnceChars_of_notMem _ (by simpa using hb)]
  simp

theorem isPrefixOf?_eq_none {p s : List Char} (h : ¬ p <+: s) : p.isPrefixOf? s = none := by
  induction p generalizing s with
  | nil => exact absurd List.nil_prefix h
  | cons c p ih =>
    cases s with
    | nil => rfl
    | cons d s =>
      rw [List.cons_prefix_cons, not_and] at h
      by_cases hcd : c = d
      · simp [List.isPrefixOf?, hcd, ih (h hcd)]
      · simp [List.isPrefixOf?, hcd]

theorem stripPrefix_eq_none {s pat : String} (h : ¬ pat.toList <+: s.toList) :
    stripPrefix s pat = none := by
  rw [stripPrefix, isPrefixOf?_eq_none h, Option.map_none]

theorem stripPrefix_append (pat s : String) : stripPrefix (pat ++ s) pat = some s := by
  have happend : pat.toList.isPrefixOf? (pat.toList ++ s.toList) = some s.toList := by
    induction pat.toList with
    | nil => cases s.toList <;> rfl
    | cons c l ih => simp [List.isPrefixOf?, ih]
  rw [stripPrefix, String.toList_append, happend, Option.map_some, String.ofList_toList]

/-- A text without whitespace has nothing to trim. -/
theorem stripPrefix_eq_some {s pat rest : String} (h : stripPrefix s pat = some rest) :
    s = pat ++ rest := by
  by_cases hpat : pat.toList <+: s.toList
  · obtain ⟨tail, htail⟩ := hpat
    have hs : s = pat ++ String.ofList tail := by
      apply String.toList_inj.mp
      simp [← htail]
    rw [hs, stripPrefix_append, Option.some_inj] at h
    rw [hs, h]
  · rw [stripPrefix_eq_none hpat] at h
    cases h

theorem rsplitOnceChar_eq_some {s a b : String} {c : Char} (h : rsplitOnceChar s c = some (a, b)) :
    s = a ++ (String.singleton c ++ b) := by
  obtain ⟨⟨tail, front⟩, hsplit, hpair⟩ := Option.map_eq_some_iff.mp h
  obtain ⟨rfl, rfl⟩ := Prod.mk.inj hpair
  have hrev := congrArg List.reverse (splitOnceChars_eq hsplit)
  apply String.toList_inj.mp
  rw [List.reverse_reverse] at hrev
  simp [hrev]

/-- The split is at the last occurrence. -/
theorem notMem_of_rsplitOnceChar {s a b : String} {c : Char}
    (h : rsplitOnceChar s c = some (a, b)) : c ∉ b.toList := by
  obtain ⟨⟨tail, front⟩, hsplit, hpair⟩ := Option.map_eq_some_iff.mp h
  obtain ⟨rfl, rfl⟩ := Prod.mk.inj hpair
  intro hmem
  have hbefore : c ∈ tail := by simpa using hmem
  obtain ⟨x, y, hxy⟩ := List.append_of_mem hbefore
  exact not_infix_before (List.cons_ne_nil c []) hsplit ⟨x, y, by simp [hxy]⟩

theorem notMem_of_rsplitOnceChar_none {s : String} {c : Char} (h : rsplitOnceChar s c = none) :
    c ∉ s.toList := by
  intro hmem
  obtain ⟨x, y, hxy⟩ := List.append_of_mem (List.mem_reverse.mpr hmem)
  exact not_infix_of_splitOnce_none (Option.map_eq_none_iff.mp h) ⟨x, y, by simp [hxy]⟩

theorem trimChars_eq_self {s : List Char} (h : ∀ c ∈ s, isWhitespace c = false) :
    trimChars s = s := by
  have hstart : trimStartChars s = s := by
    cases s with
    | nil => rfl
    | cons c s =>
      rw [trimStartChars, List.dropWhile_cons_of_neg]
      rw [h c List.mem_cons_self]
      exact Bool.false_ne_true
  rw [trimChars, hstart, trimEndChars, List.rdropWhile_eq_self_iff]
  intro hne
  rw [h _ (List.getLast_mem hne)]
  exact Bool.false_ne_true

/-- What `trim` leaves alone begins and ends with other characters than whitespace. -/
theorem trimChars_eq_self_iff {s : List Char} :
    trimChars s = s ↔ trimStartChars s = s ∧ trimEndChars s = s := by
  constructor
  · intro h
    have hstart : trimStartChars s = s := by
      have hsuffix : trimStartChars s <:+ s := List.dropWhile_suffix _
      refine hsuffix.eq_of_length (Nat.le_antisymm hsuffix.length_le ?_)
      calc s.length = (trimChars s).length := by rw [h]
        _ ≤ (trimStartChars s).length := (List.rdropWhile_prefix _ _).length_le
    refine ⟨hstart, ?_⟩
    rw [trimChars, hstart] at h
    exact h
  · rintro ⟨hstart, hend⟩
    rw [trimChars, hstart, hend]

theorem trimChars_concat {c : Char} (s : List Char) (hc : isWhitespace c = true) :
    trimChars (s ++ [c]) = trimChars s := by
  have hstart : trimStartChars (s ++ [c]) = trimStartChars s ++ [c] ∨
      trimStartChars (s ++ [c]) = [] ∧ trimStartChars s = [] := by
    rw [trimStartChars, trimStartChars, List.dropWhile_append]
    split
    next hempty =>
      exact .inr ⟨by rw [List.dropWhile_cons_of_pos hc]; rfl, List.isEmpty_iff.mp hempty⟩
    next => exact .inl rfl
  rw [trimChars, trimChars]
  cases hstart with
  | inl h => rw [h, trimEndChars, List.rdropWhile_concat_pos _ _ _ hc, trimEndChars]
  | inr h => rw [h.1, h.2]

theorem stripSuffix_eq_some {s pat rest : String} (h : stripSuffix s pat = some rest) :
    s = rest ++ pat := by
  obtain ⟨l, hl, rfl⟩ := Option.map_eq_some_iff.mp h
  rw [List.isSuffixOf?] at hl
  obtain ⟨r, hr, rfl⟩ := Option.map_eq_some_iff.mp hl
  have hwhole := congrArg List.reverse (List.isPrefixOf?_eq_some_iff_append_eq.mp hr)
  rw [List.reverse_append, List.reverse_reverse, List.reverse_reverse] at hwhole
  rw [← String.toList_inj, String.toList_append, String.toList_ofList, hwhole]

theorem trimEndChars_append {a s : List Char} (hne : s ≠ []) (hs : trimEndChars s = s) :
    trimEndChars (a ++ s) = a ++ s := by
  refine List.rdropWhile_eq_self_iff.mpr fun h => ?_
  rw [List.getLast_append_of_ne_nil h hne]
  exact List.rdropWhile_eq_self_iff.mp hs hne

theorem getLast?_ne_of_trimEnd {s : List Char} {c : Char} (hs : trimEndChars s = s)
    (hc : isWhitespace c = true) : s.getLast? ≠ some c := by
  intro h
  have hne : s ≠ [] := by
    rintro rfl
    cases h
  rw [List.getLast?_eq_some_getLast hne, Option.some_inj] at h
  exact List.rdropWhile_eq_self_iff.mp hs hne (h ▸ hc)

theorem trimStartMatches_eq_self {s : String} {c : Char} (h : c ∉ s.toList) :
    trimStartMatches s c = s := by
  have hdrop : s.toList.dropWhile (fun d => d == c) = s.toList := by
    cases hs : s.toList with
    | nil => rfl
    | cons d l =>
      have hne : d ≠ c := fun he => h (hs ▸ he ▸ List.mem_cons_self)
      rw [List.dropWhile_cons_of_neg]
      simpa using hne
  rw [trimStartMatches, hdrop, String.ofList_toList]

theorem linesFrom_append (cur a rest : List Char) (ha : '\n' ∉ a) :
    linesFrom cur (a ++ '\n' :: rest) = linesFrom (a.reverse ++ cur) ('\n' :: rest) := by
  induction a generalizing cur with
  | nil => rfl
  | cons c a ih =>
    simp only [List.mem_cons, not_or] at ha
    obtain ⟨hc, ha⟩ := ha
    have hstep : linesFrom cur (c :: (a ++ '\n' :: rest)) =
        linesFrom (c :: cur) (a ++ '\n' :: rest) := by
      conv_lhs => unfold linesFrom
      exact if_neg (Ne.symm hc)
    rw [List.cons_append, hstep, ih _ ha, List.reverse_cons, List.append_assoc,
      List.singleton_append]

/-- The first line of a text that goes on after it. -/
theorem lines_head (line rest : String) (hline : '\n' ∉ line.toList)
    (hlast : line.toList.getLast? ≠ some '\r') :
    (lines (line ++ ("\n" ++ rest))).head? = some line := by
  have htext : (line ++ ("\n" ++ rest)).toList = line.toList ++ '\n' :: rest.toList := by
    simp
  rw [List.getLast?_eq_head?_reverse] at hlast
  rw [lines, linesChars, htext, linesFrom_append _ _ _ hline, linesFrom, if_pos rfl,
    List.append_nil, List.map_cons, List.head?_cons, Option.some_inj, List.reverse_reverse,
    String.ofList_toList]
  intro tail h
  rw [List.append_nil] at h
  rw [h] at hlast
  exact hlast rfl

theorem splitCharFrom_append (sep : Char) (cur a b : List Char) :
    splitCharFrom sep cur (a ++ sep :: b) =
      splitCharFrom sep cur a ++ splitCharFrom sep [] b := by
  induction a generalizing cur with
  | nil => simp [splitCharFrom]
  | cons c a ih =>
    rw [List.cons_append, splitCharFrom, splitCharFrom]
    by_cases hc : c = sep
    · rw [if_pos hc, if_pos hc, ih, List.cons_append]
    · rw [if_neg hc, if_neg hc, ih]

theorem splitCharFrom_ne_nil (sep : Char) (cur s : List Char) :
    splitCharFrom sep cur s ≠ [] := by
  induction s generalizing cur with
  | nil => exact List.cons_ne_nil _ _
  | cons c s ih =>
    rw [splitCharFrom]
    split
    · exact List.cons_ne_nil _ _
    · exact ih _

theorem splitCharFrom_eq_cons (sep : Char) (cur s : List Char) :
    ∃ rest, splitCharFrom sep cur s = (cur.reverse ++ s.takeWhile (· != sep)) :: rest := by
  induction s generalizing cur with
  | nil => exact ⟨[], by simp [splitCharFrom]⟩
  | cons c s ih =>
    rw [splitCharFrom]
    by_cases hc : c = sep
    · exact ⟨splitCharFrom sep [] s, by simp [hc]⟩
    · obtain ⟨rest, hrest⟩ := ih (c :: cur)
      exact ⟨rest, by rw [if_neg hc, hrest]; simp [hc]⟩

theorem notMem_of_mem_splitCharFrom {sep : Char} {s line : List Char}
    (h : line ∈ splitCharFrom sep [] s) : sep ∉ line := by
  have hrun : ∀ (s cur : List Char), sep ∉ cur → ∀ l ∈ splitCharFrom sep cur s, sep ∉ l := by
    intro s
    induction s with
    | nil =>
      intro cur hcur l hl
      rw [List.mem_singleton.mp hl, List.mem_reverse]
      exact hcur
    | cons c s ih =>
      intro cur hcur l hl
      rw [splitCharFrom] at hl
      by_cases hc : c = sep
      · rw [if_pos hc] at hl
        cases List.mem_cons.mp hl with
        | inl hl =>
          rw [hl, List.mem_reverse]
          exact hcur
        | inr hl => exact ih [] List.not_mem_nil l hl
      · rw [if_neg hc] at hl
        refine ih (c :: cur) (fun hmem => ?_) l hl
        cases List.mem_cons.mp hmem with
        | inl hmem => exact hc hmem.symm
        | inr hmem => exact hcur hmem
  exact hrun s [] List.not_mem_nil line h

theorem splitCharFrom_of_notMem {sep : Char} {s : List Char} (cur : List Char) (h : sep ∉ s) :
    splitCharFrom sep cur s = [cur.reverse ++ s] := by
  induction s generalizing cur with
  | nil => simp [splitCharFrom]
  | cons c s ih =>
    have hc : c ≠ sep := fun hc => h (hc ▸ List.mem_cons_self)
    rw [splitCharFrom, if_neg hc, ih _ (fun hs => h (List.mem_cons_of_mem c hs))]
    simp

theorem splitCharFrom_intercalate {sep : Char} {l : List (List Char)} (hne : l ≠ [])
    (h : ∀ part ∈ l, sep ∉ part) : splitCharFrom sep [] ([sep].intercalate l) = l := by
  induction l with
  | nil => exact absurd rfl hne
  | cons part l ih =>
    obtain ⟨hpart, hl⟩ := List.forall_mem_cons.mp h
    cases l with
    | nil => simpa using splitCharFrom_of_notMem [] hpart
    | cons next l =>
      have hcons : [sep].intercalate (part :: next :: l) = part ++ sep :: [sep].intercalate (next :: l) := by
        simp [List.intercalate]
      rw [hcons, splitCharFrom_append, splitCharFrom_of_notMem [] hpart, ih (List.cons_ne_nil _ _) hl]
      rfl

/-- A line without the carriage return in front of its newline. -/
def dropCr (line : List Char) : List Char :=
  if line.getLast? = some '\r' then line.dropLast else line

theorem dropCr_prefix (line : List Char) : dropCr line <+: line := by
  rw [dropCr]
  split
  · exact List.dropLast_prefix line
  · exact List.prefix_rfl

theorem linesFrom_newline (cur s : List Char) :
    linesFrom cur ('\n' :: s) = dropCr cur.reverse :: linesFrom [] s := by
  conv_lhs => unfold linesFrom
  rw [if_pos rfl, dropCr, List.getLast?_reverse]
  cases cur with
  | nil => rfl
  | cons c cur =>
    by_cases hc : c = '\r'
    · subst hc
      simp
    · simp [hc]

theorem notMem_of_mem_linesFrom {cur s line : List Char} (hcur : '\n' ∉ cur)
    (h : line ∈ linesFrom cur s) : '\n' ∉ line := by
  induction s generalizing cur with
  | nil =>
    rw [linesFrom] at h
    split at h
    · cases h
    · rw [List.mem_singleton.mp h, List.mem_reverse]
      exact hcur
  | cons c s ih =>
    by_cases hc : c = '\n'
    · rw [hc, linesFrom_newline] at h
      cases List.mem_cons.mp h with
      | inl h =>
        rw [h]
        exact fun hmem => hcur (List.mem_reverse.mp (List.IsPrefix.subset ( dropCr_prefix _) hmem))
      | inr h => exact ih List.not_mem_nil h
    · conv at h => unfold linesFrom
      rw [if_neg hc] at h
      refine ih (fun hmem => ?_) h
      cases List.mem_cons.mp hmem with
      | inl hmem => exact hc hmem.symm
      | inr hmem => exact hcur hmem

/-- Lines that are ended by a newline each, in front of more text. -/
theorem linesChars_unlines {l : List (List Char)} (hl : ∀ line ∈ l, '\n' ∉ line) (s : List Char) :
    linesChars ((l.flatMap fun line => line ++ ['\n']) ++ s) = l.map dropCr ++ linesChars s := by
  induction l with
  | nil => rfl
  | cons line l ih =>
    obtain ⟨hline, hl⟩ := List.forall_mem_cons.mp hl
    have htext : ((line :: l).flatMap fun line => line ++ ['\n']) ++ s =
        line ++ '\n' :: ((l.flatMap fun line => line ++ ['\n']) ++ s) := by simp
    rw [linesChars, htext, linesFrom_append _ _ _ hline, linesFrom_newline, List.append_nil,
      List.reverse_reverse, List.map_cons, List.cons_append, ← ih hl, linesChars]

/-- Lines that are joined with a newline behind each are read again. -/
theorem lines_join {l : List String}
    (hl : ∀ line ∈ l, '\n' ∉ line.toList ∧ line.toList.getLast? ≠ some '\r') :
    lines (String.join (l.map (· ++ "\n"))) = l := by
  have htext : (String.join (l.map (· ++ "\n"))).toList =
      ((l.map String.toList).flatMap fun line => line ++ ['\n']) ++ [] := by
    rw [String.toList_join, List.flatMap_map, List.flatMap_map, List.append_nil]
    simp only [String.toList_append]
    rfl
  have hcr : (l.map String.toList).map dropCr = l.map String.toList := by
    refine List.map_congr_left (fun line hline => ?_) |>.trans (List.map_id _)
    obtain ⟨text, htext, rfl⟩ := List.mem_map.mp hline
    exact if_neg (hl text htext).2
  have hfree : ∀ line ∈ l.map String.toList, '\n' ∉ line := by
    intro line hline
    obtain ⟨text, htext, rfl⟩ := List.mem_map.mp hline
    exact (hl text htext).1
  rw [lines, htext, linesChars_unlines hfree, hcr, linesChars, linesFrom, if_pos rfl,
    List.append_nil, List.map_map]
  exact (List.map_congr_left fun line _ => String.ofList_toList).trans (List.map_id _)

theorem linesFrom_open (cur s : List Char) (hs : '\n' ∉ s) :
    linesFrom cur s = if cur.reverse ++ s = [] then [] else [cur.reverse ++ s] := by
  induction s generalizing cur with
  | nil => simp [linesFrom]
  | cons c s ih =>
    rw [List.mem_cons, not_or] at hs
    conv_lhs => unfold linesFrom
    rw [if_neg (Ne.symm hs.1), ih _ hs.2]
    simp

/-- The last line of a text needs no newline. -/
theorem linesChars_open {s : List Char} (hs : '\n' ∉ s) :
    linesChars s = if s = [] then [] else [s] := linesFrom_open [] s hs

theorem unlines_splitCharFrom (sep : Char) (cur s : List Char) :
    ((splitCharFrom sep cur s).flatMap fun part => part ++ [sep]) = cur.reverse ++ (s ++ [sep]) := by
  induction s generalizing cur with
  | nil => simp [splitCharFrom]
  | cons c s ih =>
    rw [splitCharFrom]
    split
    · next hc =>
      subst hc
      rw [List.flatMap_cons, ih]
      simp
    · rw [ih]
      simp

theorem mem_or_mem_splitChar {s : String} (sep : Char) {c : Char} (h : c ∈ s.toList) :
    c = sep ∨ ∃ part ∈ splitChar s sep, c ∈ part.toList := by
  have hmem : c ∈ (splitCharFrom sep [] s.toList).flatMap fun part => part ++ [sep] := by
    rw [unlines_splitCharFrom]
    simp [h]
  obtain ⟨part, hpart, hc⟩ := List.mem_flatMap.mp hmem
  rcases List.mem_append.mp hc with hc | hc
  · exact .inr ⟨String.ofList part, List.mem_map_of_mem hpart, by simpa using hc⟩
  · exact .inl (List.mem_singleton.mp hc)

/-- A part of a text of lines: some whole lines and a part of the next one. -/
theorem prefix_unlines {l : List (List Char)} {u : List Char}
    (h : u <+: l.flatMap fun line => line ++ ['\n']) :
    ∃ done rest part, l = done ++ rest ∧
      u = (done.flatMap fun line => line ++ ['\n']) ++ part ∧
      (part = [] ∨ ∃ line after, rest = line :: after ∧ part <+: line) := by
  induction l generalizing u with
  | nil => exact ⟨[], [], u, rfl, rfl, .inl (List.prefix_nil.mp h)⟩
  | cons line l ih =>
    rw [List.flatMap_cons] at h
    cases List.prefix_or_prefix_of_prefix h (List.prefix_append (line ++ ['\n']) _) with
    | inl hshort =>
      cases List.prefix_concat_iff.mp hshort with
      | inl hline => exact ⟨[line], l, [], rfl, by simp [hline], .inl rfl⟩
      | inr hpart => exact ⟨[], line :: l, u, rfl, rfl, .inr ⟨line, l, rfl, hpart⟩⟩
    | inr hwhole =>
      obtain ⟨u, rfl⟩ := hwhole
      obtain ⟨done, rest, part, rfl, rfl, hpart⟩ := ih ((List.prefix_append_right_inj _).mp h)
      exact ⟨line :: done, rest, part, rfl, by simp, hpart⟩

theorem digitsValue_eq {l : List Char} (acc : Nat) (hl : ∀ c ∈ l, c.isDigit = true) :
    digitsValue 10 acc l = some (Nat.ofDigitChars 10 l acc) := by
  induction l generalizing acc with
  | nil => rfl
  | cons c l ih =>
    have hc := hl c List.mem_cons_self
    have hdigit : isAsciiDigit c = true := hc
    have hrange : c.toNat - '0'.toNat < 10 := by
      simp only [Char.isDigit, Bool.and_eq_true, decide_eq_true_eq] at hc
      have h9 : c.toNat ≤ 57 := hc.2
      have h0 : ('0' : Char).toNat = 48 := rfl
      omega
    have hguard : (isAsciiDigit c && decide (c.toNat - '0'.toNat < 10)) = true := by
      rw [hdigit, Bool.true_and, decide_eq_true_eq]
      exact hrange
    rw [digitsValue, if_pos hguard, ih _ fun d hd => hl d (.tail c hd), Nat.ofDigitChars_cons]

theorem isDigit_of_mem_toString {n : Nat} {c : Char} (h : c ∈ (toString n).toList) :
    c.isDigit = true := by
  rw [Nat.toString_eq_repr, Nat.toList_repr] at h
  exact Nat.isDigit_of_mem_toDigits (by decide) (by decide) h

theorem toString_toList_ne_nil (k : Nat) : (toString k).toList ≠ [] := by
  rw [Nat.toString_eq_repr, Nat.toList_repr]
  exact Nat.toDigits_ne_nil

theorem digitsValue_toString (n : Nat) : digitsValue 10 0 (toString n).toList = some n := by
  rw [digitsValue_eq 0 fun c => isDigit_of_mem_toString, Nat.toString_eq_repr, Nat.toList_repr,
    Nat.ofDigitChars_ten_toDigits]

theorem leChars_total (s t : List Char) : leChars s t = true ∨ leChars t s = true := by
  induction s generalizing t with
  | nil => exact .inl rfl
  | cons a s ih =>
    cases t with
    | nil => exact .inr rfl
    | cons b t =>
      simp only [leChars, Bool.or_eq_true, Bool.and_eq_true, decide_eq_true_eq]
      rcases Nat.lt_trichotomy a.toNat b.toNat with hlt | heq | hgt
      · exact .inl (.inl hlt)
      · exact (ih t).imp (fun h => .inr ⟨heq, h⟩) fun h => .inr ⟨heq.symm, h⟩
      · exact .inr (.inl hgt)

theorem leChars_trans {s t u : List Char} (hst : leChars s t = true) (htu : leChars t u = true) :
    leChars s u = true := by
  induction s generalizing t u with
  | nil => rfl
  | cons a s ih =>
    cases t with
    | nil => cases hst
    | cons b t =>
      cases u with
      | nil => cases htu
      | cons c u =>
        simp only [leChars, Bool.or_eq_true, Bool.and_eq_true, decide_eq_true_eq] at hst htu ⊢
        rcases hst with hab | ⟨hab, hst⟩
        · exact .inl (by omega)
        · rcases htu with hbc | ⟨hbc, htu⟩
          · exact .inl (by omega)
          · exact .inr ⟨hab.trans hbc, ih hst htu⟩

theorem leChars_antisymm {s t : List Char} (hst : leChars s t = true) (hts : leChars t s = true) :
    s = t := by
  induction s generalizing t with
  | nil =>
    cases t with
    | nil => rfl
    | cons b t => cases hts
  | cons a s ih =>
    cases t with
    | nil => cases hst
    | cons b t =>
      simp only [leChars, Bool.or_eq_true, Bool.and_eq_true, decide_eq_true_eq] at hst hts
      have hab : a.toNat = b.toNat := by omega
      obtain ⟨-, hst⟩ := hst.resolve_left (by omega)
      obtain ⟨-, hts⟩ := hts.resolve_left (by omega)
      rw [Char.toNat_inj.mp hab, ih hst hts]

end Str
