import Mathlib.Computability.Language
import Mathlib.Data.List.Infix
import Shellflow.Lib.Masked

/-! Extended regular expressions without groups and alternatives, and the search of `grep -E`. A
pattern means a language of byte strings; the matcher finds the words of that language. -/
namespace Ere

abbrev Raw := List UInt8

inductive Atom
  | byte (b : UInt8)
  | bracket (ranges : List (UInt8 × UInt8))
deriving DecidableEq, Repr

structure Item where
  atom : Atom
  star : Bool
deriving DecidableEq, Repr

def Atom.accepts : Atom → UInt8 → Bool
  | byte c, b => b == c
  | bracket ranges, b => ranges.any fun r => r.1 ≤ b && b ≤ r.2

section Syntax

def asciiByte (c : Char) : Option UInt8 :=
  if c.toNat < 128 then some (UInt8.ofNat c.toNat) else none

/-- The ranges of a bracket list and what follows it. -/
def parseBracket : List Char → Option (List (UInt8 × UInt8) × List Char)
  | [] => none
  | '[' :: _ => none
  | ']' :: rest => some ([], rest)
  | a :: '-' :: b :: rest =>
    if b = ']' then none
    else
      (asciiByte a).bind fun lo =>
        (asciiByte b).bind fun hi => (parseBracket rest).map fun r => ((lo, hi) :: r.1, r.2)
  | a :: rest =>
    (asciiByte a).bind fun b => (parseBracket rest).map fun r => ((b, b) :: r.1, r.2)

/-- The characters that stand for themselves only behind a backslash. -/
def metachars : List Char := "\\[].*+?^$()|\x7b\x7d".toList

def parseAtom : List Char → Option (Atom × List Char)
  | [] => none
  | '[' :: '^' :: _ => none
  | '[' :: ']' :: _ => none
  | '[' :: rest => (parseBracket rest).map fun r => (.bracket r.1, r.2)
  | '\\' :: c :: rest =>
    if c ∈ metachars then (asciiByte c).map fun b => (.byte b, rest) else none
  | c :: rest => if c ∈ metachars then none else (asciiByte c).map fun b => (.byte b, rest)

def parseItems : Nat → List Char → Option (List Item)
  | _, [] => some []
  | 0, _ => none
  | k + 1, s =>
    (parseAtom s).bind fun r =>
      match r.2 with
      | '*' :: rest => (parseItems k rest).map (⟨r.1, true⟩ :: ·)
      | rest => (parseItems k rest).map (⟨r.1, false⟩ :: ·)

/-- The pattern a text is read as; a text with other operators is none. -/
def parse (text : String) : Option (List Item) := parseItems text.length text.toList

end Syntax

section Languages

/-- The words of one letter that meets `p`. -/
def letters (p : UInt8 → Bool) : Language UInt8 := {w | ∃ b, p b = true ∧ w = [b]}

def Item.language (item : Item) : Language UInt8 :=
  if item.star then KStar.kstar (letters item.atom.accepts) else letters item.atom.accepts

def language : List Item → Language UInt8
  | [] => 1
  | item :: items => item.language * language items

theorem mem_kstar_letters {p : UInt8 → Bool} {w : Raw} :
    w ∈ KStar.kstar (letters p) ↔ ∀ b ∈ w, p b = true := by
  rw [Language.mem_kstar]
  constructor
  · rintro ⟨words, rfl, hwords⟩ b hb
    obtain ⟨word, hword, hmem⟩ := List.mem_flatten.mp hb
    obtain ⟨c, hc, rfl⟩ := hwords word hword
    rwa [List.mem_singleton.mp hmem]
  · intro h
    refine ⟨w.map fun b => [b], ?_, ?_⟩
    · induction w with
      | nil => rfl
      | cons b w ih => rw [List.map_cons, List.flatten_cons, ← ih fun c hc => h c (.tail b hc)]; rfl
    · intro word hword
      obtain ⟨b, hb, rfl⟩ := List.mem_map.mp hword
      exact ⟨b, h b hb, rfl⟩

theorem mem_language_nil {w : Raw} : w ∈ language [] ↔ w = [] := Language.mem_one w

theorem mem_language_letter {a : Atom} {items : List Item} {w : Raw} :
    w ∈ language (⟨a, false⟩ :: items) ↔
      ∃ b rest, a.accepts b = true ∧ rest ∈ language items ∧ w = b :: rest := by
  rw [language, Language.mem_mul]
  constructor
  · rintro ⟨_, ⟨b, hb, rfl⟩, rest, hrest, rfl⟩
    exact ⟨b, rest, hb, hrest, rfl⟩
  · rintro ⟨b, rest, hb, hrest, rfl⟩
    exact ⟨[b], ⟨b, hb, rfl⟩, rest, hrest, rfl⟩

theorem mem_language_star {a : Atom} {items : List Item} {w : Raw} :
    w ∈ language (⟨a, true⟩ :: items) ↔
      ∃ run rest, (∀ b ∈ run, a.accepts b = true) ∧ rest ∈ language items ∧ run ++ rest = w := by
  rw [language, Language.mem_mul]
  constructor
  · rintro ⟨run, hrun, rest, hrest, rfl⟩
    exact ⟨run, rest, mem_kstar_letters.mp hrun, hrest, rfl⟩
  · rintro ⟨run, rest, hrun, hrest, rfl⟩
    exact ⟨run, mem_kstar_letters.mpr hrun, rest, hrest, rfl⟩

end Languages

section Matching

/-- Any number of accepted bytes, then the rest of the pattern. -/
def matchStar (p : UInt8 → Bool) (rest : Raw → Bool) : Raw → Bool
  | [] => rest []
  | b :: s => rest (b :: s) || (p b && matchStar p rest s)

/-- Whether the text starts with a word of the pattern. -/
def matchHere : List Item → Raw → Bool
  | [], _ => true
  | ⟨a, true⟩ :: items, s => matchStar a.accepts (matchHere items) s
  | ⟨_, false⟩ :: _, [] => false
  | ⟨a, false⟩ :: items, b :: s => a.accepts b && matchHere items s

theorem matchStar_iff {p : UInt8 → Bool} {rest : Raw → Bool} {s : Raw} :
    matchStar p rest s = true ↔
      ∃ run tail, (∀ b ∈ run, p b = true) ∧ rest tail = true ∧ run ++ tail = s := by
  induction s with
  | nil =>
    rw [matchStar]
    constructor
    · intro h
      exact ⟨[], [], fun b hb => (List.not_mem_nil hb).elim, h, rfl⟩
    · rintro ⟨run, tail, -, h, heq⟩
      rwa [← (List.append_eq_nil_iff.mp heq).2]
  | cons b s ih =>
    rw [matchStar, Bool.or_eq_true, Bool.and_eq_true, ih]
    constructor
    · rintro (h | ⟨hb, run, tail, hrun, h, rfl⟩)
      · exact ⟨[], b :: s, fun b hb => (List.not_mem_nil hb).elim, h, rfl⟩
      · exact ⟨b :: run, tail, List.forall_mem_cons.mpr ⟨hb, hrun⟩, h, rfl⟩
    · rintro ⟨run, tail, hrun, h, heq⟩
      cases run with
      | nil => exact .inl (heq ▸ h)
      | cons c run =>
        obtain ⟨rfl, rfl⟩ := List.cons.inj heq
        exact .inr ⟨hrun c List.mem_cons_self, run, tail, fun b hb => hrun b (.tail c hb), h, rfl⟩

theorem matchHere_iff {items : List Item} {s : Raw} :
    matchHere items s = true ↔ ∃ w ∈ language items, w <+: s := by
  induction items generalizing s with
  | nil => simp [matchHere, mem_language_nil]
  | cons item items ih =>
    obtain ⟨a, star⟩ := item
    cases star with
    | true =>
      rw [matchHere, matchStar_iff]
      constructor
      · rintro ⟨run, tail, hrun, h, rfl⟩
        obtain ⟨w, hw, hstart⟩ := ih.mp h
        exact ⟨run ++ w, mem_language_star.mpr ⟨run, w, hrun, hw, rfl⟩,
          (List.prefix_append_right_inj run).mpr hstart⟩
      · rintro ⟨w, hw, hstart⟩
        obtain ⟨run, rest, hrun, hrest, rfl⟩ := mem_language_star.mp hw
        obtain ⟨more, rfl⟩ := hstart
        exact ⟨run, rest ++ more, hrun, ih.mpr ⟨rest, hrest, List.prefix_append rest more⟩,
          (List.append_assoc run rest more).symm⟩
    | false =>
      cases s with
      | nil => simp [matchHere, mem_language_letter]
      | cons b s =>
        rw [matchHere, Bool.and_eq_true, ih]
        constructor
        · rintro ⟨hb, w, hw, hstart⟩
          exact ⟨b :: w, mem_language_letter.mpr ⟨b, w, hb, hw, rfl⟩,
            List.cons_prefix_cons.mpr ⟨rfl, hstart⟩⟩
        · rintro ⟨w, hw, hstart⟩
          obtain ⟨c, rest, hc, hrest, rfl⟩ := mem_language_letter.mp hw
          obtain ⟨rfl, hrest'⟩ := List.cons_prefix_cons.mp hstart
          exact ⟨hc, rest, hrest, hrest'⟩

/-- Whether some part of the text is a word of the pattern. -/
def search (items : List Item) (s : Raw) : Bool := s.tails.any (matchHere items)

theorem search_iff {items : List Item} {s : Raw} :
    search items s = true ↔ ∃ w ∈ language items, w <:+: s := by
  rw [search, List.any_eq_true]
  constructor
  · rintro ⟨tail, htail, h⟩
    obtain ⟨w, hw, hstart⟩ := matchHere_iff.mp h
    exact ⟨w, hw, hstart.isInfix.trans ((List.mem_tails _ _).mp htail).isInfix⟩
  · rintro ⟨w, hw, before, after, rfl⟩
    refine ⟨w ++ after, (List.mem_tails _ _).mpr ⟨before, (List.append_assoc _ _ _).symm⟩, ?_⟩
    exact matchHere_iff.mpr ⟨w, hw, List.prefix_append w after⟩

end Matching

section Grep

def newline : UInt8 := 10

/-- The lines of a file; `cur` is the line read so far, reversed. -/
def linesFrom (cur : Raw) : Raw → List Raw
  | [] => if cur = [] then [] else [cur.reverse]
  | b :: s => if b = newline then cur.reverse :: linesFrom [] s else linesFrom (b :: cur) s

/-- `grep -qE`: whether a line of the file matches. -/
def grep (items : List Item) (content : Raw) : Bool := (linesFrom [] content).any (search items)

theorem infix_linesFrom {w cur : Raw} (hne : w ≠ []) (hw : newline ∉ w) (s : Raw) :
    (∃ line ∈ linesFrom cur s, w <:+: line) ↔ w <:+: cur.reverse ++ s := by
  induction s generalizing cur with
  | nil =>
    rw [List.append_nil, linesFrom]
    split
    case isTrue h => simp [h, hne]
    case isFalse => simp
  | cons b s ih =>
    rw [linesFrom]
    split
    case isTrue hb =>
      rw [List.exists_mem_cons_iff, ih, List.reverse_nil, List.nil_append, hb]
      constructor
      · rintro (h | h)
        · exact h.trans (List.prefix_append _ _).isInfix
        · exact h.trans (List.suffix_append_of_suffix (List.suffix_cons _ _)).isInfix
      · exact Masked.infix_append_cons_of_notMem hw
    case isFalse => rw [ih, List.reverse_cons, List.append_assoc, List.singleton_append]

/-- A pattern without line breaks matches a line exactly when it matches the text. -/
theorem grep_iff {items : List Item} (h : ∀ w ∈ language items, w ≠ [] ∧ newline ∉ w)
    (content : Raw) : grep items content = true ↔ ∃ w ∈ language items, w <:+: content := by
  rw [grep, List.any_eq_true]
  constructor
  · rintro ⟨line, hline, hsearch⟩
    obtain ⟨w, hw, hinfix⟩ := search_iff.mp hsearch
    have hany : ∃ line ∈ linesFrom [] content, w <:+: line := ⟨line, hline, hinfix⟩
    exact ⟨w, hw, (infix_linesFrom (h w hw).1 (h w hw).2 content).mp hany⟩
  · rintro ⟨w, hw, hinfix⟩
    have hcontent : w <:+: [].reverse ++ content := hinfix
    obtain ⟨line, hline, hmatch⟩ := (infix_linesFrom (h w hw).1 (h w hw).2 content).mpr hcontent
    exact ⟨line, hline, search_iff.mpr ⟨w, hw, hmatch⟩⟩

end Grep

end Ere
