import Mathlib.Data.List.Infix
import Mathlib.Data.List.TakeWhile

/-! The leftmost longest match of a pattern in a line, and version numbers found that way: a match of
three numbers between dots takes the first three numbers in a row. -/
namespace Leftmost

abbrev Text := List Char

inductive Times where
  | once
  | maybe
  | repeated
deriving DecidableEq

/-- A class of letters and how often one stands there. -/
structure Piece where
  letter : Char → Bool
  times : Times

/-- One letter or more, then what `rest` accepts. -/
def acceptsRun (letter : Char → Bool) (rest : Text → Bool) : Text → Bool
  | [] => false
  | c :: s => letter c && (rest s || acceptsRun letter rest s)

/-- Whether the whole text is a word of the pattern. -/
def accepts : List Piece → Text → Bool
  | [], s => s.isEmpty
  | ⟨letter, .once⟩ :: ps, s =>
    match s with
    | [] => false
    | c :: s => letter c && accepts ps s
  | ⟨letter, .maybe⟩ :: ps, s =>
    accepts ps s ||
      match s with
      | [] => false
      | c :: s => letter c && accepts ps s
  | ⟨letter, .repeated⟩ :: ps, s => acceptsRun letter (accepts ps) s

/-- The longest word at the beginning. -/
def longest (accept : Text → Bool) : Text → Option Text
  | [] => if accept [] then some [] else none
  | c :: s =>
    match longest (fun w => accept (c :: w)) s with
    | some w => some (c :: w)
    | none => if accept [] then some [] else none

/-- The longest of the words that begin first. -/
def leftmost (accept : Text → Bool) : Text → Option Text
  | [] => longest accept []
  | c :: s =>
    match longest accept (c :: s) with
    | some w => some w
    | none => leftmost accept s

section Search
variable {accept accept' : Text → Bool} {s w : Text}

attribute [local simp] longest leftmost

theorem longest_none (h : ∀ u, u <+: s → accept u = false) : longest accept s = none := by
  induction s generalizing accept with
  | nil => rw [longest, h [] (List.prefix_refl [])]; rfl
  | cons c s ih =>
    have hnone : longest (fun w => accept (c :: w)) s = none :=
      ih fun u hu => h (c :: u) (List.cons_prefix_cons.mpr ⟨rfl, hu⟩)
    rw [longest, hnone, h [] List.nil_prefix]
    rfl

theorem longest_some (hw : accept w = true) (hpre : w <+: s)
    (hmax : ∀ u, u <+: s → accept u = true → u.length ≤ w.length) : longest accept s = some w := by
  induction s generalizing accept w with
  | nil =>
    obtain rfl := List.prefix_nil.mp hpre
    rw [longest, hw]
    rfl
  | cons c s ih =>
    cases w with
    | nil =>
      have hnone : longest (fun w => accept (c :: w)) s = none := by
        refine longest_none fun u hu => Bool.eq_false_iff.mpr fun hu' => ?_
        have := hmax (c :: u) (List.cons_prefix_cons.mpr ⟨rfl, hu⟩) hu'
        rw [List.length_cons, List.length_nil] at this
        omega
      rw [longest, hnone, hw]
      rfl
    | cons d w =>
      obtain ⟨rfl, hpre'⟩ := List.cons_prefix_cons.mp hpre
      have hsome : longest (fun w => accept (d :: w)) s = some w := by
        refine ih hw hpre' fun u hu hu' => ?_
        have := hmax (d :: u) (List.cons_prefix_cons.mpr ⟨rfl, hu⟩) hu'
        rw [List.length_cons, List.length_cons] at this
        omega
      rw [longest, hsome]

theorem longest_congr (h : ∀ u, u <+: s → accept u = accept' u) :
    longest accept s = longest accept' s := by
  induction s generalizing accept accept' with
  | nil => rw [longest, longest, h [] (List.prefix_refl [])]
  | cons c s ih =>
    have hrest := @ih (fun w => accept (c :: w)) (fun w => accept' (c :: w))
      fun u hu => h (c :: u) (List.cons_prefix_cons.mpr ⟨rfl, hu⟩)
    rw [longest, longest, hrest, h [] List.nil_prefix]

theorem leftmost_of_longest (h : longest accept s = some w) : leftmost accept s = some w := by
  cases s with
  | nil => exact h
  | cons c s => rw [leftmost, h]

theorem leftmost_cons_of_none {c : Char} (h : longest accept (c :: s) = none) :
    leftmost accept (c :: s) = leftmost accept s := by
  rw [leftmost, h]

/-- No word begins in `s`, and so the search goes on behind it. -/
theorem leftmost_append (t : Text) (h : ∀ u, u <:+ s → u ≠ [] → longest accept (u ++ t) = none) :
    leftmost accept (s ++ t) = leftmost accept t := by
  induction s with
  | nil => rfl
  | cons c s ih =>
    have hnone : longest accept (c :: (s ++ t)) = none :=
      h (c :: s) (List.suffix_refl _) (List.cons_ne_nil c s)
    rw [List.cons_append, leftmost_cons_of_none hnone,
      ih fun u hu => h u (hu.trans (List.suffix_cons c s))]

end Search

section Accepting
variable {letter : Char → Bool} {ps : List Piece} {w : Text}

attribute [local simp] acceptsRun accepts

theorem acceptsRun_iff {rest : Text → Bool} : acceptsRun letter rest w = true ↔
    ∃ run tail, w = run ++ tail ∧ run ≠ [] ∧ (∀ c ∈ run, letter c = true) ∧ rest tail = true := by
  induction w with
  | nil =>
    constructor
    · exact nofun
    · rintro ⟨run, tail, happ, hne, -, -⟩
      exact absurd (List.append_eq_nil_iff.mp happ.symm).1 hne
  | cons c s ih =>
    rw [acceptsRun, Bool.and_eq_true, Bool.or_eq_true, ih]
    constructor
    · rintro ⟨hc, hrest | ⟨run, tail, rfl, -, hrun, hrest⟩⟩
      · exact ⟨[c], s, rfl, List.cons_ne_nil c [], List.forall_mem_singleton.mpr hc, hrest⟩
      · exact ⟨c :: run, tail, rfl, List.cons_ne_nil c run, List.forall_mem_cons.mpr ⟨hc, hrun⟩, hrest⟩
    · rintro ⟨run, tail, happ, hne, hrun, hrest⟩
      obtain ⟨d, run, rfl⟩ := List.exists_cons_of_ne_nil hne
      obtain ⟨rfl, rfl⟩ := List.cons.inj happ
      refine ⟨hrun c List.mem_cons_self, ?_⟩
      by_cases hmore : run = []
      · subst hmore
        exact .inl hrest
      · exact .inr ⟨run, tail, rfl, hmore, fun d hd => hrun d (List.mem_cons_of_mem c hd), hrest⟩

theorem accepts_repeated : accepts (⟨letter, .repeated⟩ :: ps) w = true ↔
    ∃ run tail, w = run ++ tail ∧ run ≠ [] ∧ (∀ c ∈ run, letter c = true) ∧
      accepts ps tail = true := acceptsRun_iff

theorem accepts_once : accepts (⟨letter, .once⟩ :: ps) w = true ↔
    ∃ c tail, w = c :: tail ∧ letter c = true ∧ accepts ps tail = true := by
  cases w with
  | nil => exact ⟨nofun, fun ⟨c, tail, h, _⟩ => by cases h⟩
  | cons c s =>
    rw [accepts, Bool.and_eq_true]
    constructor
    · exact fun h => ⟨c, s, rfl, h⟩
    · rintro ⟨d, tail, heq, h⟩
      cases heq
      exact h

theorem accepts_maybe : accepts (⟨letter, .maybe⟩ :: ps) w = true ↔
    accepts ps w = true ∨ ∃ c tail, w = c :: tail ∧ letter c = true ∧ accepts ps tail = true := by
  cases w with
  | nil =>
    rw [accepts, Bool.or_false]
    constructor
    · exact .inl
    · rintro (h | ⟨c, tail, heq, -⟩)
      · exact h
      · cases heq
  | cons c s =>
    rw [accepts, Bool.or_eq_true, Bool.and_eq_true]
    refine or_congr Iff.rfl ⟨?_, ?_⟩
    · exact fun h => ⟨c, s, rfl, h⟩
    · rintro ⟨d, tail, heq, h⟩
      cases heq
      exact h

theorem accepts_nil : accepts [] w = true ↔ w = [] := List.isEmpty_iff

end Accepting

section Versions

def isDigit (c : Char) : Bool := '0' ≤ c && c ≤ '9'

def isMark (c : Char) : Char → Bool := fun d => d == c

/-- `v?[0-9]+\.[0-9]+\.[0-9]+` -/
def versionPattern : List Piece :=
  [⟨isMark 'v', .maybe⟩, ⟨isDigit, .repeated⟩, ⟨isMark '.', .once⟩, ⟨isDigit, .repeated⟩,
    ⟨isMark '.', .once⟩, ⟨isDigit, .repeated⟩]

def IsNumber (a : Text) : Prop := a ≠ [] ∧ ∀ c ∈ a, isDigit c = true

/-- Numbers with dots between them. -/
def dotted (as : List Text) : Text := ['.'].intercalate as

/-- What stands between the dots of a text. -/
def numbers (s : Text) : List Text := s.splitOn '.'

/-- The first three numbers in a row, none of them empty. -/
def firstTriple : List Text → Option Text
  | a :: b :: c :: as =>
    if a ≠ [] ∧ b ≠ [] ∧ c ≠ [] then some (dotted [a, b, c]) else firstTriple (b :: c :: as)
  | _ => none

variable {a b c s t w : Text} {as : List Text}

@[simp] theorem dotted_singleton (a : Text) : dotted [a] = a := List.intercalate_singleton

@[simp] theorem dotted_cons_cons (a b : Text) (as : List Text) :
    dotted (a :: b :: as) = a ++ '.' :: dotted (b :: as) := by
  rw [dotted, List.intercalate_cons_cons, List.append_assoc, List.singleton_append, ← dotted]

theorem accepts_version : accepts versionPattern w = true ↔
    ∃ v a b c, (v = [] ∨ v = ['v']) ∧ IsNumber a ∧ IsNumber b ∧ IsNumber c ∧
      w = v ++ dotted [a, b, c] := by
  have hnumbers : ∀ u, accepts versionPattern.tail u = true ↔
      ∃ a b c, IsNumber a ∧ IsNumber b ∧ IsNumber c ∧ u = dotted [a, b, c] := by
    intro u
    simp only [versionPattern, List.tail_cons, accepts_repeated, accepts_once, accepts_nil, isMark,
      beq_iff_eq, dotted_cons_cons, dotted_singleton]
    constructor
    · rintro ⟨a, _, rfl, ha, hda, _, _, rfl, rfl, b, _, rfl, hb, hdb, _, _, rfl, rfl, c, _, rfl, hc,
        hdc, rfl⟩
      exact ⟨a, b, c, ⟨ha, hda⟩, ⟨hb, hdb⟩, ⟨hc, hdc⟩, by rw [List.append_nil]⟩
    · rintro ⟨a, b, c, ⟨ha, hda⟩, ⟨hb, hdb⟩, ⟨hc, hdc⟩, rfl⟩
      exact ⟨a, _, rfl, ha, hda, _, _, rfl, rfl, b, _, rfl, hb, hdb, _, _, rfl, rfl, c, [],
        (List.append_nil c).symm, hc, hdc, rfl⟩
  have hsplit : versionPattern = ⟨isMark 'v', .maybe⟩ :: versionPattern.tail := rfl
  rw [hsplit, accepts_maybe, hnumbers]
  constructor
  · rintro (⟨a, b, c, ha, hb, hc, rfl⟩ | ⟨d, u, rfl, hd, hu⟩)
    · exact ⟨[], a, b, c, .inl rfl, ha, hb, hc, rfl⟩
    · obtain ⟨a, b, c, ha, hb, hc, rfl⟩ := (hnumbers u).mp hu
      exact ⟨['v'], a, b, c, .inr rfl, ha, hb, hc, by rw [beq_iff_eq.mp hd]; rfl⟩
  · rintro ⟨v, a, b, c, rfl | rfl, ha, hb, hc, rfl⟩
    · exact .inl ⟨a, b, c, ha, hb, hc, rfl⟩
    · exact .inr ⟨'v', _, rfl, rfl, (hnumbers _).mpr ⟨a, b, c, ha, hb, hc, rfl⟩⟩

/-- The digits in front of a dotted text are its first number. -/
theorem takeWhile_dotted (ha : ∀ c ∈ a, isDigit c = true) (as : List Text) :
    (dotted (a :: as)).takeWhile isDigit = a := by
  cases as with
  | nil =>
    rw [dotted_singleton]
    exact List.takeWhile_eq_self_iff.mpr ha
  | cons b as =>
    rw [dotted_cons_cons, List.takeWhile_append_of_pos ha, List.takeWhile_cons_of_neg (by decide),
      List.append_nil]

/-- A number and a dot behind it are the first number and its dot. -/
theorem dotted_split (ha : ∀ d ∈ a, isDigit d = true) (hb : ∀ d ∈ b, isDigit d = true)
    (h : dotted (a :: as) = b ++ '.' :: t) : a = b ∧ ∃ c cs, as = c :: cs ∧ dotted (c :: cs) = t := by
  have hfirst := takeWhile_dotted ha as
  rw [h, List.takeWhile_append_of_pos hb, List.takeWhile_cons_of_neg (by decide),
    List.append_nil] at hfirst
  refine ⟨hfirst.symm, ?_⟩
  cases as with
  | nil =>
    have hlen := congrArg List.length h
    rw [dotted_singleton, hfirst, List.length_append, List.length_cons] at hlen
    omega
  | cons c cs =>
    rw [dotted_cons_cons, hfirst, List.append_cancel_left_eq, List.cons.injEq] at h
    exact ⟨c, cs, rfl, h.2⟩

theorem mem_dotted (h : ∀ a ∈ as, ∀ c ∈ a, isDigit c = true) :
    ∀ c ∈ dotted as, isDigit c = true ∨ c = '.' := by
  induction as with
  | nil => exact fun c hc => absurd hc List.not_mem_nil
  | cons a as ih =>
    obtain ⟨ha, has⟩ := List.forall_mem_cons.mp h
    cases as with
    | nil =>
      rw [dotted_singleton]
      exact fun c hc => .inl (ha c hc)
    | cons b as =>
      intro c hc
      rw [dotted_cons_cons] at hc
      rcases List.mem_append.mp hc with hc | hc
      · exact .inl (ha c hc)
      · rcases List.mem_cons.mp hc with rfl | hc
        · exact .inr rfl
        · exact ih has c hc

theorem letter_notMem_dotted (h : ∀ a ∈ as, ∀ c ∈ a, isDigit c = true) : 'v' ∉ dotted as := by
  intro hmem
  rcases mem_dotted h 'v' hmem with hdigit | hdot
  · cases hdigit
  · cases hdot

/-- A version at the beginning of a dotted text takes its first three numbers, the last of them
perhaps in part. -/
theorem version_prefix (h : ∀ d ∈ a :: as, ∀ c ∈ d, isDigit c = true)
    (hpre : w <+: dotted (a :: as)) (hw : accepts versionPattern w = true) :
    ∃ b c cs part, as = b :: c :: cs ∧ a ≠ [] ∧ b ≠ [] ∧ c ≠ [] ∧ part <+: c ∧
      w = dotted [a, b, part] := by
  obtain ⟨v, a', b', c', hv, ⟨hane, ha'⟩, ⟨hbne, hb'⟩, ⟨hcne, hc'⟩, rfl⟩ := accepts_version.mp hw
  obtain ⟨x, hx⟩ := hpre
  obtain ⟨ha, has⟩ := List.forall_mem_cons.mp h
  rcases hv with rfl | rfl
  · have hfirst : dotted (a :: as) = a' ++ '.' :: (dotted [b', c'] ++ x) := by
      rw [← hx, List.nil_append, dotted_cons_cons, List.append_assoc, List.cons_append]
    obtain ⟨rfl, b, bs, rfl, hrest⟩ := dotted_split ha ha' hfirst
    obtain ⟨hb, hbs⟩ := List.forall_mem_cons.mp has
    have hsecond : dotted (b :: bs) = b' ++ '.' :: (c' ++ x) := by
      rw [hrest, dotted_cons_cons, dotted_singleton, List.append_assoc, List.cons_append]
    obtain ⟨rfl, c, cs, rfl, hthird⟩ := dotted_split hb hb' hsecond
    obtain ⟨hc, -⟩ := List.forall_mem_cons.mp hbs
    have hdigits := takeWhile_dotted hc cs
    rw [hthird, List.takeWhile_append_of_pos hc'] at hdigits
    have hpart : c' <+: c := ⟨_, hdigits⟩
    refine ⟨b, c, cs, c', rfl, hane, hbne, ?_, hpart, rfl⟩
    rintro rfl
    exact hcne (List.prefix_nil.mp hpart)
  · refine absurd ?_ (letter_notMem_dotted h)
    rw [← hx]
    exact List.mem_append_left _ (List.mem_append_left _ List.mem_cons_self)

theorem longest_triple {cs : List Text} (h : ∀ d ∈ a :: b :: c :: cs, ∀ e ∈ d, isDigit e = true)
    (ha : a ≠ []) (hb : b ≠ []) (hc : c ≠ []) :
    longest (accepts versionPattern) (dotted (a :: b :: c :: cs)) = some (dotted [a, b, c]) := by
  have hmem : ∀ d, d = a ∨ d = b ∨ d = c → ∀ e ∈ d, isDigit e = true := by
    rintro d (rfl | rfl | rfl)
    · exact h _ (by simp)
    · exact h _ (by simp)
    · exact h _ (by simp)
  refine longest_some ?_ ?_ ?_
  · exact accepts_version.mpr ⟨[], a, b, c, .inl rfl, ⟨ha, hmem a (by simp)⟩, ⟨hb, hmem b (by simp)⟩,
      ⟨hc, hmem c (by simp)⟩, rfl⟩
  · have hlast : c <+: dotted (c :: cs) := by
      cases cs with
      | nil => rw [dotted_singleton]
      | cons d cs =>
        rw [dotted_cons_cons]
        exact List.prefix_append c _
    simp only [dotted_cons_cons, dotted_singleton, List.prefix_append_right_inj,
      List.cons_prefix_cons, true_and]
    exact hlast
  · intro u hu haccept
    obtain ⟨b', c', cs', part, heq, -, -, -, hpart, rfl⟩ := version_prefix h hu haccept
    cases heq
    have := hpart.length_le
    simp only [dotted_cons_cons, dotted_singleton, List.length_append, List.length_cons]
    omega

theorem longest_none_of_gap (h : ∀ d ∈ a :: as, ∀ c ∈ d, isDigit c = true)
    (hgap : ∀ b c cs, as = b :: c :: cs → ¬ (a ≠ [] ∧ b ≠ [] ∧ c ≠ [])) :
    longest (accepts versionPattern) (dotted (a :: as)) = none := by
  refine longest_none fun u hu => Bool.eq_false_iff.mpr fun haccept => ?_
  obtain ⟨b, c, cs, part, rfl, ha, hb, hc, -, -⟩ := version_prefix h hu haccept
  exact hgap b c cs rfl ⟨ha, hb, hc⟩

/-- The search finds the first three numbers in a row. -/
theorem leftmost_dotted (h : ∀ a ∈ as, ∀ c ∈ a, isDigit c = true) :
    leftmost (accepts versionPattern) (dotted as) = firstTriple as := by
  induction as with
  | nil => rfl
  | cons a as ih =>
    obtain ⟨ha, has⟩ := List.forall_mem_cons.mp h
    have hsuffix : ∀ u, u <:+ a → ∀ d ∈ u :: as, ∀ c ∈ d, isDigit c = true := fun u hu =>
      List.forall_mem_cons.mpr ⟨fun c hc => ha c (hu.subset hc), has⟩
    cases as with
    | nil =>
      have hskip := @leftmost_append (accepts versionPattern) a [] fun u hu _ => by
        rw [List.append_nil, ← dotted_singleton u]
        exact longest_none_of_gap (hsuffix u hu) nofun
      rw [List.append_nil] at hskip
      rw [dotted_singleton, hskip]
      rfl
    | cons b as =>
      by_cases htriple : ∃ c cs, as = c :: cs ∧ a ≠ [] ∧ b ≠ [] ∧ c ≠ []
      · obtain ⟨c, cs, rfl, hane, hbne, hcne⟩ := htriple
        rw [leftmost_of_longest (longest_triple h hane hbne hcne), firstTriple,
          if_pos ⟨hane, hbne, hcne⟩]
      · have hgap : ∀ u, u <:+ a → ∀ b' c cs, b :: as = b' :: c :: cs →
            ¬ (u ≠ [] ∧ b' ≠ [] ∧ c ≠ []) := by
          rintro u hu b' c cs heq ⟨hune, hbne, hcne⟩
          cases heq
          refine htriple ⟨c, cs, rfl, ?_, hbne, hcne⟩
          rintro rfl
          exact hune (List.suffix_nil.mp hu)
        have hskip : leftmost (accepts versionPattern) (dotted (a :: b :: as)) =
            leftmost (accepts versionPattern) ('.' :: dotted (b :: as)) := by
          rw [dotted_cons_cons]
          refine leftmost_append _ fun u hu _ => ?_
          rw [← dotted_cons_cons]
          exact longest_none_of_gap (hsuffix u hu) (hgap u hu)
        have hdot : longest (accepts versionPattern) ('.' :: dotted (b :: as)) = none := by
          have hnil := longest_none_of_gap (hsuffix [] List.nil_suffix) (hgap [] List.nil_suffix)
          rwa [dotted_cons_cons, List.nil_append] at hnil
        have hstep : firstTriple (a :: b :: as) = firstTriple (b :: as) := by
          cases as with
          | nil => rfl
          | cons c cs =>
            rw [firstTriple, if_neg fun hall => htriple ⟨c, cs, rfl, hall⟩]
        rw [hskip, leftmost_cons_of_none hdot, ih has, hstep]

/-- A letter in front is taken along by a version that follows it. -/
theorem leftmost_letter (h : ∀ a ∈ as, ∀ c ∈ a, isDigit c = true) :
    leftmost (accepts versionPattern) ('v' :: dotted as) = (firstTriple as).map ('v' :: ·) ∨
      leftmost (accepts versionPattern) ('v' :: dotted as) = firstTriple as := by
  have hsame : longest (fun w => accepts versionPattern ('v' :: w)) (dotted as) =
      longest (accepts versionPattern) (dotted as) := by
    refine longest_congr fun u hu => ?_
    have hletter : 'v' ∉ u := fun hmem => letter_notMem_dotted h (hu.subset hmem)
    rw [Bool.eq_iff_iff, accepts_version, accepts_version]
    constructor
    · rintro ⟨v, a, b, c, rfl | rfl, ha, hb, hc, heq⟩
      · have hdigits : ∀ d ∈ [a, b, c], ∀ e ∈ d, isDigit e = true := by
          intro d hd
          simp only [List.mem_cons, List.not_mem_nil, or_false] at hd
          rcases hd with rfl | rfl | rfl
          · exact ha.2
          · exact hb.2
          · exact hc.2
        have hmem : 'v' ∈ dotted [a, b, c] := by
          rw [List.nil_append] at heq
          exact heq ▸ List.mem_cons_self
        exact absurd hmem (letter_notMem_dotted hdigits)
      · exact ⟨[], a, b, c, .inl rfl, ha, hb, hc, (List.cons.inj heq).2⟩
    · rintro ⟨v, a, b, c, rfl | rfl, ha, hb, hc, rfl⟩
      · exact ⟨['v'], a, b, c, .inr rfl, ha, hb, hc, rfl⟩
      · exact absurd List.mem_cons_self hletter
  have hempty : accepts versionPattern [] = false := rfl
  rw [leftmost, longest, hsame, hempty]
  cases hlongest : longest (accepts versionPattern) (dotted as) with
  | none => exact .inr (leftmost_dotted h)
  | some w =>
    rw [← leftmost_dotted h, leftmost_of_longest hlongest]
    exact .inl rfl

/-- Exactly three numbers. -/
def IsTriple (as : List Text) : Prop := as.length = 3 ∧ ∀ a ∈ as, a ≠ []

instance (as : List Text) : Decidable (IsTriple as) := inferInstanceAs (Decidable (_ ∧ _))

/-- Three numbers found are the whole text or shorter than it. -/
theorem firstTriple_length (h : firstTriple as = some t) :
    IsTriple as ∧ t = dotted as ∨ t.length < (dotted as).length := by
  induction as with
  | nil => cases h
  | cons a as ih =>
    cases as with
    | nil => cases h
    | cons b as =>
      cases as with
      | nil => cases h
      | cons c cs =>
        rw [firstTriple] at h
        split at h
        · rename_i hne
          cases h
          cases cs with
          | nil =>
            refine .inl ⟨⟨rfl, fun d hd => ?_⟩, rfl⟩
            simp only [List.mem_cons, List.not_mem_nil, or_false] at hd
            rcases hd with rfl | rfl | rfl
            · exact hne.1
            · exact hne.2.1
            · exact hne.2.2
          | cons d ds =>
            right
            simp only [dotted_cons_cons, dotted_singleton, List.length_append, List.length_cons]
            omega
        · right
          have hlen : t.length ≤ (dotted (b :: c :: cs)).length := by
            rcases ih h with ⟨-, rfl⟩ | hlt
            · exact Nat.le_refl _
            · exact hlt.le
          rw [dotted_cons_cons a, List.length_append, List.length_cons]
          omega

theorem firstTriple_dotted_iff : firstTriple as = some (dotted as) ↔ IsTriple as := by
  constructor
  · intro h
    rcases firstTriple_length h with ⟨htriple, -⟩ | hlt
    · exact htriple
    · omega
  · rintro ⟨hlength, hne⟩
    obtain ⟨a, b, c, rfl⟩ := List.length_eq_three.mp hlength
    rw [firstTriple, if_pos ⟨hne a (by simp), hne b (by simp), hne c (by simp)⟩]

theorem dotted_numbers (s : Text) : dotted (numbers s) = s := List.intercalate_splitOn '.'

/-- A text of digits and dots has only digits between its dots. -/
theorem numbers_digits (h : ∀ c ∈ s, isDigit c = true ∨ c = '.') :
    ∀ a ∈ numbers s, ∀ c ∈ a, isDigit c = true := by
  induction s with
  | nil => simp [numbers]
  | cons c s ih =>
    obtain ⟨hc, hs⟩ := List.forall_mem_cons.mp h
    have hrest := ih hs
    rw [numbers, List.splitOn_cons_eq_if_modifyHead, ← numbers]
    split
    · exact List.forall_mem_cons.mpr ⟨fun d hd => absurd hd List.not_mem_nil, hrest⟩
    · rename_i hdot
      have hdigit : isDigit c = true := hc.resolve_right fun heq => hdot (beq_iff_eq.mpr heq)
      obtain ⟨a, as, has⟩ := List.exists_cons_of_ne_nil (List.splitOn_ne_nil '.' s)
      rw [numbers, has] at hrest ⊢
      obtain ⟨ha, hlater⟩ := List.forall_mem_cons.mp hrest
      exact List.forall_mem_cons.mpr ⟨List.forall_mem_cons.mpr ⟨hdigit, ha⟩, hlater⟩

end Versions

end Leftmost
