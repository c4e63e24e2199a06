import Shellflow.Lib.UnitFile

/-! The words of a command line in a unit file: quotes, escapes and specifiers. A word that stands in
the line as it is meant has none of them. -/
namespace UnitFile

section Specifiers
variable (specifier : Char → Bool)

/-- A character of a word, or a specifier that is put in when the unit is loaded. -/
inductive Item where
  | char (c : Char)
  | specifier (c : Char)
deriving DecidableEq

/-- Behind a percent sign a letter that is no specifier stays with it. -/
def expand : Text → List Item
  | [] => []
  | [c] => [.char c]
  | c :: d :: s =>
    if c = '%' then
      if d = '%' then .char '%' :: expand s
      else if specifier d then .specifier d :: expand s
      else .char c :: .char d :: expand s
    else .char c :: expand (d :: s)

def literal (s : Text) : List Item := s.map .char

def hasSpecifier : Text → Bool
  | c :: d :: s =>
    if c = '%' then d == '%' || specifier d || hasSpecifier s else hasSpecifier (d :: s)
  | _ => false

theorem length_expand_le (s : Text) : (expand specifier s).length ≤ s.length := by
  induction s using expand.induct specifier with
  | case1 => exact Nat.le_refl 0
  | case2 c => exact Nat.le_refl 1
  | case3 s ih =>
    rw [expand, if_pos rfl, if_pos rfl, List.length_cons, List.length_cons, List.length_cons]
    omega
  | case4 d s hd hspec ih =>
    rw [expand, if_pos rfl, if_neg hd, if_pos hspec, List.length_cons, List.length_cons,
      List.length_cons]
    omega
  | case5 d s hd hspec ih =>
    rw [expand, if_pos rfl, if_neg hd, if_neg hspec]
    simp only [List.length_cons]
    omega
  | case6 c d s hc ih =>
    rw [expand, if_neg hc, List.length_cons, List.length_cons]
    omega

theorem expand_eq_literal {s : Text} :
    expand specifier s = literal s ↔ hasSpecifier specifier s = false := by
  induction s using expand.induct specifier with
  | case1 => exact iff_of_true rfl rfl
  | case2 c => exact iff_of_true rfl rfl
  | case3 s ih =>
    have hle := length_expand_le specifier s
    refine iff_of_false (fun h => ?_) (by simp [hasSpecifier])
    have hlen := congrArg List.length h
    rw [expand, if_pos rfl, if_pos rfl, literal, List.length_map] at hlen
    simp only [List.length_cons] at hlen
    omega
  | case4 d s hd hspec ih =>
    refine iff_of_false (fun h => ?_) (by simp [hasSpecifier, hspec])
    rw [expand, if_pos rfl, if_neg hd, if_pos hspec] at h
    cases h
  | case5 d s hd hspec ih =>
    rw [expand, if_pos rfl, if_neg hd, if_neg hspec, hasSpecifier, if_pos rfl,
      beq_false_of_ne hd, Bool.eq_false_iff.mpr hspec, Bool.false_or, Bool.false_or, ← ih]
    simp [literal]
  | case6 c d s hc ih =>
    rw [expand, if_neg hc, hasSpecifier, if_neg hc, ← ih]
    simp [literal]

theorem hasSpecifier_of_noPercent {s : Text} (h : '%' ∉ s) : hasSpecifier specifier s = false := by
  induction s with
  | nil => rfl
  | cons c s ih =>
    obtain ⟨hc, hs⟩ := not_or.mp (mt List.mem_cons.mpr h)
    cases s with
    | nil => rfl
    | cons d s => rw [hasSpecifier, if_neg fun heq => hc heq.symm, ih hs]

end Specifiers

section Escapes

def isQuote (c : Char) : Bool := c == '\'' || c == '"'

def letterEscape : Char → Option Char
  | 'a' => some '\x07'
  | 'b' => some '\x08'
  | 'f' => some '\x0c'
  | 'n' => some '\n'
  | 'r' => some '\r'
  | 't' => some '\t'
  | 'v' => some '\x0b'
  | 's' => some ' '
  | '\\' => some '\\'
  | '"' => some '"'
  | '\'' => some '\''
  | _ => none

def digit (base : Nat) (c : Char) : Option Nat :=
  let value :=
    if '0' ≤ c ∧ c ≤ '9' then c.toNat - '0'.toNat
    else if 'a' ≤ c ∧ c ≤ 'f' then c.toNat - 'a'.toNat + 10
    else if 'A' ≤ c ∧ c ≤ 'F' then c.toNat - 'A'.toNat + 10
    else base
  if value < base then some value else none

/-- The value of exactly `n` digits. -/
def readDigits (base : Nat) : Nat → Nat → Text → Option Nat
  | 0, value, _ => some value
  | _ + 1, _, [] => none
  | n + 1, value, c :: s => (digit base c).bind fun d => readDigits base n (value * base + d) s

/-- The code of a character, never zero. -/
def codeEscape (used limit : Nat) (code : Option Nat) : Option (Char × Nat) :=
  match code with
  | none => none
  | some n => if n = 0 ∨ limit < n then none else some (Char.ofNat n, used)

/-- The character that is meant behind a backslash, and how many are used up. -/
def unescape : Text → Option (Char × Nat)
  | [] => none
  | c :: s =>
    match letterEscape c with
    | some d => some (d, 1)
    | none =>
      if c = 'x' then codeEscape 3 255 (readDigits 16 2 0 s)
      else if c = 'u' then codeEscape 5 0xffff (readDigits 16 4 0 s)
      else if c = 'U' then codeEscape 9 0x10ffff (readDigits 16 8 0 s)
      else codeEscape 3 255 (readDigits 8 3 0 (c :: s))

/-- The text is over, or a blank comes next. -/
def endsHere (s : Text) : Bool := s.head?.all isBlank

attribute [local simp] readDigits unescape

theorem length_of_readDigits {base n value m : Nat} {s : Text}
    (h : readDigits base n value s = some m) : n ≤ s.length := by
  induction n generalizing value s with
  | zero => exact Nat.zero_le _
  | succ n ih =>
    cases s with
    | nil => cases h
    | cons c s =>
      rw [readDigits] at h
      obtain ⟨d, -, hrest⟩ := Option.bind_eq_some_iff.mp h
      have := ih hrest
      rw [List.length_cons]
      omega

theorem codeEscape_some {used limit n : Nat} {code : Option Nat} {d : Char}
    (h : codeEscape used limit code = some (d, n)) : n = used ∧ ∃ m, code = some m := by
  cases code with
  | none => cases h
  | some m =>
    rw [codeEscape] at h
    split at h
    · cases h
    · cases h
      exact ⟨rfl, m, rfl⟩

theorem unescape_used {s : Text} {d : Char} {n : Nat} (h : unescape s = some (d, n)) :
    0 < n ∧ n ≤ s.length := by
  cases s with
  | nil => cases h
  | cons c s =>
    rw [unescape] at h
    split at h
    · cases h
      rw [List.length_cons]
      omega
    · split at h
      · obtain ⟨rfl, m, hm⟩ := codeEscape_some h
        have := length_of_readDigits hm
        rw [List.length_cons]
        omega
      · split at h
        · obtain ⟨rfl, m, hm⟩ := codeEscape_some h
          have := length_of_readDigits hm
          rw [List.length_cons]
          omega
        · split at h
          · obtain ⟨rfl, m, hm⟩ := codeEscape_some h
            have := length_of_readDigits hm
            rw [List.length_cons]
            omega
          · obtain ⟨rfl, m, hm⟩ := codeEscape_some h
            exact ⟨by omega, length_of_readDigits hm⟩

theorem digit_blank {base : Nat} {c : Char} (h : isBlank c = true) : digit base c = none := by
  rw [isBlank, Bool.or_eq_true, beq_iff_eq, beq_iff_eq] at h
  rcases h with rfl | rfl
  · simp [digit]
  · simp [digit]

/-- What follows a blank does not matter. -/
theorem readDigits_append {base n value : Nat} {s t : Text} (ht : endsHere t = true) :
    readDigits base n value (s ++ t) = readDigits base n value s := by
  induction n generalizing value s with
  | zero => rfl
  | succ n ih =>
    cases s with
    | nil =>
      cases t with
      | nil => rfl
      | cons c t =>
        have hblank : isBlank c = true := by simpa [endsHere] using ht
        simp only [List.nil_append, readDigits, digit_blank hblank, Option.bind_none]
    | cons c s =>
      rw [List.cons_append, readDigits, readDigits]
      simp only [ih]

theorem unescape_append {s t : Text} (hs : s ≠ []) (ht : endsHere t = true) :
    unescape (s ++ t) = unescape s := by
  obtain ⟨c, s, rfl⟩ := List.exists_cons_of_ne_nil hs
  have hoctal : readDigits 8 3 0 (c :: (s ++ t)) = readDigits 8 3 0 (c :: s) :=
    readDigits_append (s := c :: s) ht
  rw [List.cons_append, unescape, unescape]
  simp only [readDigits_append ht, hoctal]

end Escapes

section Words

/-- The rest of a word and what follows it; `skip` characters were used up by an escape. A backslash
that begins no escape stays, and the character behind it is kept as it is. -/
def readWord : Text → Option Char → Nat → Option (Text × Text)
  | [], q, _ => if q.isNone then some ([], []) else none
  | _ :: s, q, skip + 1 => readWord s q skip
  | c :: s, q, 0 =>
    if c = '\\' then
      match unescape s with
      | some (d, n) => (readWord s q n).map fun r => (d :: r.1, r.2)
      | none => s.head?.bind fun d => (readWord s q 1).map fun r => (c :: d :: r.1, r.2)
    else if q.isSome then
      if q = some c then readWord s none 0 else (readWord s q 0).map fun r => (c :: r.1, r.2)
    else if isBlank c then some ([], c :: s)
    else if isQuote c then readWord s (some c) 0
    else (readWord s none 0).map fun r => (c :: r.1, r.2)

/-- No quote, no blank and no escape: the text is read as it stands. -/
def isPlain : Text → Nat → Bool
  | [], _ => true
  | _ :: s, skip + 1 => isPlain s skip
  | c :: s, 0 =>
    if c = '\\' then (unescape s).isNone && !s.isEmpty && isPlain s 1
    else !isBlank c && !isQuote c && isPlain s 0

variable {q : Option Char} {skip : Nat} {s w r : Text}

attribute [local simp] readWord isPlain

theorem length_readWord (hskip : skip ≤ s.length) (h : readWord s q skip = some (w, r)) :
    w.length + r.length + skip + q.toList.length ≤ s.length := by
  induction s generalizing q skip w with
  | nil =>
    cases q with
    | none =>
      cases h
      simpa using hskip
    | some quote => cases h
  | cons c s ih =>
    cases skip with
    | succ skip =>
      rw [readWord] at h
      have := ih (Nat.le_of_succ_le_succ hskip) h
      rw [List.length_cons]
      omega
    | zero =>
      have hkeep : ∀ {q' : Option Char} {x : Text}, q'.toList.length = q.toList.length →
          (readWord s q' 0).map (fun r => (c :: r.1, r.2)) = some (x, r) →
          x.length + r.length + 0 + q.toList.length ≤ (c :: s).length := by
        intro q' x hq hx
        obtain ⟨r', hr', heq⟩ := Option.map_eq_some_iff.mp hx
        cases heq
        have := ih (Nat.zero_le _) hr'
        rw [List.length_cons, List.length_cons]
        omega
      rw [readWord] at h
      by_cases hslash : c = '\\'
      · rw [if_pos hslash] at h
        cases hescape : unescape s with
        | some found =>
          obtain ⟨d, n⟩ := found
          obtain ⟨hpos, hused⟩ := unescape_used hescape
          rw [hescape] at h
          obtain ⟨r', hr', heq⟩ := Option.map_eq_some_iff.mp h
          cases heq
          have := ih hused hr'
          rw [List.length_cons, List.length_cons]
          omega
        | none =>
          rw [hescape] at h
          obtain ⟨d, hd, hrest⟩ := Option.bind_eq_some_iff.mp h
          obtain ⟨r', hr', heq⟩ := Option.map_eq_some_iff.mp hrest
          cases heq
          have hone : 1 ≤ s.length := by
            cases s with
            | nil => cases hd
            | cons d s => exact Nat.succ_pos _
          have := ih hone hr'
          rw [List.length_cons, List.length_cons, List.length_cons]
          omega
      · rw [if_neg hslash] at h
        cases q with
        | some quote =>
          rw [Option.isSome_some, if_pos rfl] at h
          by_cases hclose : some quote = some c
          · rw [if_pos hclose] at h
            have := ih (Nat.zero_le _) h
            rw [List.length_cons]
            simp only [Option.toList_some, Option.toList_none, List.length_cons, List.length_nil] at *
            omega
          · rw [if_neg hclose] at h
            exact hkeep rfl h
        | none =>
          rw [Option.isSome_none, if_neg Bool.false_ne_true] at h
          by_cases hblank : isBlank c = true
          · rw [if_pos hblank] at h
            cases h
            simp
          · rw [if_neg hblank] at h
            by_cases hquote : isQuote c = true
            · rw [if_pos hquote] at h
              have := ih (Nat.zero_le _) h
              rw [List.length_cons]
              simp only [Option.toList_some, Option.toList_none, List.length_cons, List.length_nil] at *
              omega
            · rw [if_neg hquote] at h
              exact hkeep rfl h

theorem endsHere_of_readWord (h : readWord s q skip = some (w, r)) : endsHere r = true := by
  induction s generalizing q skip w with
  | nil =>
    cases q with
    | none =>
      cases h
      rfl
    | some quote => cases h
  | cons c s ih =>
    cases skip with
    | succ skip => exact ih h
    | zero =>
      have hmap : ∀ {q' : Option Char} {n : Nat} {f : Text → Text} {x : Text},
          (readWord s q' n).map (fun r => (f r.1, r.2)) = some (x, r) → endsHere r = true := by
        intro q' n f x hx
        obtain ⟨r', hr', heq⟩ := Option.map_eq_some_iff.mp hx
        cases heq
        exact ih hr'
      rw [readWord] at h
      split at h
      · split at h
        · exact hmap h
        · obtain ⟨d, -, hrest⟩ := Option.bind_eq_some_iff.mp h
          exact hmap (f := fun t => c :: d :: t) hrest
      · split at h
        · split at h
          · exact ih h
          · exact hmap h
        · split at h
          · rename_i hblank
            cases h
            exact hblank
          · split at h
            · exact ih h
            · exact hmap h

/-- A word that is as long as its text is this text. -/
theorem plain_of_readWord (hskip : skip ≤ s.length) (h : readWord s none skip = some (w, r))
    (hlen : w.length + r.length + skip = s.length) :
    s.drop skip = w ++ r ∧ isPlain w 0 = true ∧ endsHere r = true := by
  induction s generalizing skip w with
  | nil =>
    cases h
    exact ⟨List.drop_nil, rfl, rfl⟩
  | cons c s ih =>
    rw [List.length_cons] at hlen
    cases skip with
    | succ skip =>
      rw [readWord] at h
      exact ih (Nat.le_of_succ_le_succ hskip) h (by omega)
    | zero =>
      rw [readWord] at h
      by_cases hslash : c = '\\'
      · rw [if_pos hslash] at h
        cases hescape : unescape s with
        | some found =>
          obtain ⟨d, n⟩ := found
          obtain ⟨hpos, hused⟩ := unescape_used hescape
          rw [hescape] at h
          obtain ⟨r', hr', heq⟩ := Option.map_eq_some_iff.mp h
          cases heq
          have := length_readWord hused hr'
          rw [List.length_cons] at hlen
          omega
        | none =>
          rw [hescape] at h
          obtain ⟨d, hd, hrest⟩ := Option.bind_eq_some_iff.mp h
          obtain ⟨r', hr', heq⟩ := Option.map_eq_some_iff.mp hrest
          cases heq
          obtain ⟨s', rfl⟩ := List.head?_eq_some_iff.mp hd
          simp only [List.length_cons] at hlen
          obtain ⟨hdrop, hplain, hends⟩ := ih (Nat.succ_le_succ (Nat.zero_le _)) hr'
            (by rw [List.length_cons]; omega)
          rw [List.drop_one, List.tail_cons] at hdrop
          have hagain : unescape (d :: r'.1) = none := by
            rw [hdrop, ← List.cons_append, unescape_append (List.cons_ne_nil _ _) hends] at hescape
            exact hescape
          refine ⟨by rw [List.drop_zero, hdrop]; rfl, ?_, hends⟩
          rw [isPlain, if_pos hslash, hagain, isPlain, hplain]
          rfl
      · rw [if_neg hslash, Option.isSome_none, if_neg Bool.false_ne_true] at h
        by_cases hblank : isBlank c = true
        · rw [if_pos hblank] at h
          cases h
          exact ⟨rfl, rfl, hblank⟩
        · rw [if_neg hblank] at h
          by_cases hquote : isQuote c = true
          · rw [if_pos hquote] at h
            have hless := length_readWord (Nat.zero_le _) h
            rw [Option.toList_some, List.length_singleton] at hless
            omega
          · rw [if_neg hquote] at h
            obtain ⟨r', hr', heq⟩ := Option.map_eq_some_iff.mp h
            cases heq
            rw [List.length_cons] at hlen
            obtain ⟨hdrop, hplain, hends⟩ := ih (Nat.zero_le _) hr' (by omega)
            rw [List.drop_zero] at hdrop
            refine ⟨by rw [List.drop_zero, hdrop]; rfl, ?_, hends⟩
            rw [isPlain, if_neg hslash, Bool.eq_false_iff.mpr hblank, Bool.eq_false_iff.mpr hquote,
              hplain]
            rfl

/-- And a text without anything special is read as one word. -/
theorem readWord_of_plain (hskip : skip ≤ w.length) (hplain : isPlain w skip = true)
    (hr : endsHere r = true) : readWord (w ++ r) none skip = some (w.drop skip, r) := by
  induction w generalizing skip with
  | nil =>
    obtain rfl : skip = 0 := Nat.le_zero.mp hskip
    cases r with
    | nil => rfl
    | cons c r =>
      have hblank : isBlank c = true := by simpa [endsHere] using hr
      have hslash : c ≠ '\\' := by
        rintro rfl
        cases hblank
      rw [List.nil_append, readWord, if_neg hslash, Option.isSome_none, if_neg Bool.false_ne_true,
        if_pos hblank]
      rfl
  | cons c w ih =>
    cases skip with
    | succ skip =>
      rw [isPlain] at hplain
      rw [List.cons_append, readWord, List.drop_succ_cons]
      exact ih (Nat.le_of_succ_le_succ hskip) hplain
    | zero =>
      rw [isPlain] at hplain
      rw [List.cons_append, readWord]
      by_cases hslash : c = '\\'
      · rw [if_pos hslash, Bool.and_eq_true, Bool.and_eq_true, Option.isNone_iff_eq_none,
          Bool.not_eq_true', List.isEmpty_eq_false_iff] at hplain
        obtain ⟨⟨hescape, hne⟩, hrest⟩ := hplain
        obtain ⟨d, w, rfl⟩ := List.exists_cons_of_ne_nil hne
        rw [if_pos hslash, unescape_append hne hr, hescape,
          ih (Nat.succ_le_succ (Nat.zero_le _)) hrest]
        rfl
      · rw [if_neg hslash, Bool.and_eq_true, Bool.and_eq_true, Bool.not_eq_true',
          Bool.not_eq_true'] at hplain
        obtain ⟨⟨hblank, hquote⟩, hrest⟩ := hplain
        rw [if_neg hslash, Option.isSome_none, if_neg Bool.false_ne_true, hblank,
          if_neg Bool.false_ne_true, hquote, if_neg Bool.false_ne_true,
          ih (Nat.zero_le _) hrest]
        rfl

/-- A plain text does not end with a backslash, so that its line is complete. -/
theorem getLast?_of_plain (hplain : isPlain s skip = true) (hskip : skip ≤ 1)
    (hhead : skip = 1 → s.head? ≠ some '\\') : s.getLast? ≠ some '\\' := by
  induction s generalizing skip with
  | nil => exact nofun
  | cons c s ih =>
    cases s with
    | nil =>
      intro hlast
      obtain rfl := Option.some.inj hlast
      cases skip with
      | zero => cases hplain
      | succ skip => exact hhead (by omega) rfl
    | cons d s =>
      rw [List.getLast?_cons_cons]
      cases skip with
      | succ skip =>
        rw [isPlain] at hplain
        exact ih hplain (by omega) fun h => by omega
      | zero =>
        rw [isPlain] at hplain
        by_cases hslash : c = '\\'
        · rw [if_pos hslash, Bool.and_eq_true, Bool.and_eq_true] at hplain
          refine ih hplain.2 (Nat.le_refl 1) fun _ hd => ?_
          cases hd
          cases hplain.1.1
        · rw [if_neg hslash, Bool.and_eq_true] at hplain
          exact ih hplain.2 (Nat.zero_le 1) nofun

theorem isContinued_of_getLast? (h : s.getLast? ≠ some '\\') : isContinued s = false := by
  rcases List.eq_nil_or_concat s with rfl | ⟨t, c, rfl⟩
  · rfl
  · have hc : c ≠ '\\' := by
      rintro rfl
      exact h (by simp)
    rw [isContinued, List.concat_eq_append, List.rtakeWhile_concat_neg]
    · rfl
    · simpa using hc

end Words

section Tokens
variable (specifier : Char → Bool)

inductive Token where
  | separator
  | word (items : List Item)
deriving DecidableEq

def Token.length : Token → Nat
  | separator => 1
  | word items => items.length

/-- A semicolon that stands alone separates commands, unless a backslash precedes it. -/
def readToken (s : Text) : Option (Token × Text) :=
  if s.head? = some ';' ∧ endsHere s.tail = true then some (.separator, s.tail)
  else if ['\\', ';'] <+: s ∧ endsHere (s.drop 2) = true then
    some (.word [.char ';'], s.drop 2)
  else (readWord s none 0).map fun r => (.word (expand specifier r.1), r.2)

/-- The tokens of a line; the number bounds them. -/
def readTokens : Nat → Text → Option (List Token)
  | 0, s => if (s.dropWhile isBlank).isEmpty then some [] else none
  | n + 1, s =>
    if (s.dropWhile isBlank).isEmpty then some []
    else
      (readToken specifier (s.dropWhile isBlank)).bind fun r =>
        (readTokens n r.2).map fun tokens => r.1 :: tokens

/-- A word that stands in a line as it is meant. -/
structure CleanWord (w : Text) : Prop where
  nonempty : w ≠ []
  plain : isPlain w 0 = true
  noSeparator : w ≠ [';']
  noEscaped : w ≠ ['\\', ';']
  noSpecifier : hasSpecifier specifier w = false

variable {specifier} {s w r : Text} {token : Token}

attribute [local simp] readTokens

theorem readToken_length (h : readToken specifier s = some (token, r)) :
    token.length + r.length ≤ s.length ∧ endsHere r = true := by
  unfold readToken at h
  by_cases hsep : s.head? = some ';' ∧ endsHere s.tail = true
  · rw [if_pos hsep] at h
    cases h
    obtain ⟨t, rfl⟩ := List.head?_eq_some_iff.mp hsep.1
    refine ⟨?_, hsep.2⟩
    rw [Token.length, List.tail_cons, List.length_cons]
    omega
  · rw [if_neg hsep] at h
    by_cases hescaped : ['\\', ';'] <+: s ∧ endsHere (s.drop 2) = true
    · rw [if_pos hescaped] at h
      cases h
      have := hescaped.1.length_le
      refine ⟨?_, hescaped.2⟩
      simp only [Token.length, List.length_drop, List.length_cons, List.length_nil] at this ⊢
      omega
    · rw [if_neg hescaped] at h
      obtain ⟨⟨w, r'⟩, hword, heq⟩ := Option.map_eq_some_iff.mp h
      cases heq
      have := length_readWord (Nat.zero_le _) hword
      have hexpand := length_expand_le specifier w
      refine ⟨?_, endsHere_of_readWord hword⟩
      show (expand specifier w).length + r'.length ≤ s.length
      omega

/-- A word read in full length is the text in front of what is left. -/
theorem readToken_full {items : List Item} (h : readToken specifier s = some (.word items, r))
    (hlen : items.length + r.length = s.length) (hs : endsHere s = false) :
    ∃ w, s = w ++ r ∧ items = expand specifier w ∧ w.length = items.length ∧ w ≠ [] ∧
      isPlain w 0 = true ∧ w ≠ [';'] ∧ w ≠ ['\\', ';'] := by
  unfold readToken at h
  by_cases hsep : s.head? = some ';' ∧ endsHere s.tail = true
  · rw [if_pos hsep] at h
    cases h
  · rw [if_neg hsep] at h
    by_cases hescaped : ['\\', ';'] <+: s ∧ endsHere (s.drop 2) = true
    · rw [if_pos hescaped] at h
      cases h
      have := hescaped.1.length_le
      simp only [List.length_drop, List.length_cons, List.length_nil] at this hlen
      omega
    · rw [if_neg hescaped] at h
      obtain ⟨⟨w, r'⟩, hword, heq⟩ := Option.map_eq_some_iff.mp h
      cases heq
      have hread := length_readWord (Nat.zero_le _) hword
      have hexpand := length_expand_le specifier w
      rw [Option.toList_none, List.length_nil] at hread
      have hboth : (expand specifier w).length + r'.length = s.length := hlen
      obtain ⟨hsplit, hplain, hends⟩ := plain_of_readWord (Nat.zero_le _) hword (by omega)
      rw [List.drop_zero] at hsplit
      have hwlen : w.length = (expand specifier w).length := by omega
      refine ⟨w, hsplit, rfl, hwlen, ?_, hplain, ?_, ?_⟩
      · rintro rfl
        rw [hsplit, List.nil_append, hends] at hs
        cases hs
      · rintro rfl
        exact hsep ⟨by rw [hsplit]; rfl, by rw [hsplit]; exact hends⟩
      · rintro rfl
        exact hescaped ⟨⟨r', hsplit.symm⟩, by rw [hsplit]; exact hends⟩

theorem isPlain_head {c : Char} (h : isPlain (c :: w) 0 = true) : isBlank c = false := by
  rw [isPlain] at h
  split at h
  · rename_i hslash
    rw [hslash]
    rfl
  · rw [Bool.and_eq_true, Bool.and_eq_true, Bool.not_eq_true'] at h
    exact h.1.1

theorem CleanWord.head (h : CleanWord specifier w) : endsHere (w ++ r) = false := by
  obtain ⟨c, w, rfl⟩ := List.exists_cons_of_ne_nil h.nonempty
  simpa [endsHere] using isPlain_head h.plain

theorem readToken_clean (h : CleanWord specifier w) (hr : endsHere r = true) :
    readToken specifier (w ++ r) = some (.word (literal w), r) := by
  have hword := readWord_of_plain (Nat.zero_le _) h.plain hr
  rw [List.drop_zero] at hword
  have hexpand := (expand_eq_literal specifier).mpr h.noSpecifier
  have hsep : ¬ ((w ++ r).head? = some ';' ∧ endsHere (w ++ r).tail = true) := by
    rintro ⟨hhead, htail⟩
    obtain ⟨c, w, rfl⟩ := List.exists_cons_of_ne_nil h.nonempty
    cases hhead
    cases w with
    | nil => exact h.noSeparator rfl
    | cons d w =>
      have hblank : isBlank d = true := by simpa [endsHere] using htail
      have hplain := h.plain
      rw [isPlain, if_neg (by decide), Bool.and_eq_true] at hplain
      rw [isPlain_head hplain.2] at hblank
      cases hblank
  have hescaped : ¬ (['\\', ';'] <+: w ++ r ∧ endsHere ((w ++ r).drop 2) = true) := by
    rintro ⟨hstart, htail⟩
    have hplain := h.plain
    obtain ⟨c, w, rfl⟩ := List.exists_cons_of_ne_nil h.nonempty
    obtain ⟨rfl, hsecond⟩ := List.cons_prefix_cons.mp hstart
    rw [isPlain, if_pos rfl, Bool.and_eq_true, Bool.and_eq_true, Bool.not_eq_true',
      List.isEmpty_eq_false_iff] at hplain
    obtain ⟨⟨-, hne⟩, hrest⟩ := hplain
    obtain ⟨d, w, rfl⟩ := List.exists_cons_of_ne_nil hne
    obtain ⟨rfl, -⟩ := List.cons_prefix_cons.mp hsecond
    cases w with
    | nil => exact h.noEscaped rfl
    | cons e w =>
      have hblank : isBlank e = true := by simpa [endsHere] using htail
      rw [isPlain] at hrest
      rw [isPlain_head hrest] at hblank
      cases hblank
  rw [readToken, if_neg hsep, if_neg hescaped, hword, Option.map_some, hexpand]

/-- The room that tokens take, with a blank between two of them. -/
def room (tokens : List Token) : Nat := (tokens.map fun token => token.length + 1).sum

theorem room_readTokens_le {n : Nat} {tokens : List Token}
    (h : readTokens specifier n s = some tokens) : room tokens ≤ (s.dropWhile isBlank).length + 1 := by
  induction n generalizing s tokens with
  | zero =>
    rw [readTokens] at h
    split at h
    · cases h
      exact Nat.zero_le _
    · cases h
  | succ n ih =>
    rw [readTokens] at h
    split at h
    · cases h
      exact Nat.zero_le _
    · obtain ⟨⟨token, r⟩, htoken, hrest⟩ := Option.bind_eq_some_iff.mp h
      obtain ⟨later, hlater, rfl⟩ := Option.map_eq_some_iff.mp hrest
      obtain ⟨hlen, hends⟩ := readToken_length htoken
      have hroom : room (token :: later) = token.length + 1 + room later := by
        rw [room, List.map_cons, List.sum_cons, ← room]
      have hbehind : room later ≤ r.length := by
        cases r with
        | nil =>
          have hnil : later = [] := by
            cases n with
            | zero =>
              cases hlater
              rfl
            | succ n =>
              cases hlater
              rfl
          rw [hnil]
          exact Nat.zero_le _
        | cons c r =>
          have hblank : isBlank c = true := by simpa [endsHere] using hends
          have hle := ih hlater
          have hsuffix := (List.dropWhile_suffix (l := r) isBlank).length_le
          rw [List.dropWhile_cons_of_pos hblank] at hle
          rw [List.length_cons]
          omega
      rw [hroom]
      omega

theorem readTokens_clean {n : Nat} (h : CleanWord specifier w) (hr : endsHere r = true) :
    readTokens specifier (n + 1) (w ++ r) =
      (readTokens specifier n r).map fun tokens => .word (literal w) :: tokens := by
  have hdrop : (w ++ r).dropWhile isBlank = w ++ r := by
    have hhead := h.head (r := r)
    cases hwr : w ++ r with
    | nil => rfl
    | cons c t =>
      rw [hwr] at hhead
      exact List.dropWhile_cons_of_neg (by simpa [endsHere] using hhead)
  have hne : (w ++ r).isEmpty = false := by
    rw [List.isEmpty_eq_false_iff]
    exact fun hnil => h.nonempty (List.append_eq_nil_iff.mp hnil).1
  rw [readTokens, hdrop, hne, if_neg Bool.false_ne_true, readToken_clean h hr, Option.bind_some]

theorem readTokens_blank (n : Nat) (s : Text) :
    readTokens specifier n (' ' :: s) = readTokens specifier n s := by
  have hdrop : (' ' :: s).dropWhile isBlank = s.dropWhile isBlank :=
    List.dropWhile_cons_of_pos rfl
  cases n with
  | zero => rw [readTokens, readTokens, hdrop]
  | succ n => rw [readTokens, readTokens, hdrop]

theorem endsHere_dropWhile {c : Char} {t : Text} (h : s.dropWhile isBlank = c :: t) :
    endsHere (c :: t) = false := by
  have hhead := List.head?_dropWhile_not isBlank s
  rw [h] at hhead
  simpa [endsHere] using hhead

/-- The first token of a line and the others. -/
theorem readTokens_cons {n : Nat} {token : Token} {later : List Token}
    (h : readTokens specifier (n + 1) s = some (token :: later)) :
    endsHere (s.dropWhile isBlank) = false ∧
      ∃ r, readToken specifier (s.dropWhile isBlank) = some (token, r) ∧
        readTokens specifier n r = some later := by
  rw [readTokens] at h
  split at h
  · cases h
  · rename_i hne
    obtain ⟨⟨found, r⟩, htoken, hrest⟩ := Option.bind_eq_some_iff.mp h
    obtain ⟨rest, hlater, heq⟩ := Option.map_eq_some_iff.mp hrest
    cases heq
    refine ⟨?_, r, htoken, hlater⟩
    cases hdrop : s.dropWhile isBlank with
    | nil =>
      rw [hdrop] at hne
      exact absurd rfl hne
    | cons c t => exact endsHere_dropWhile hdrop

theorem cleanWord_of_full {r : Text} (htoken : readToken specifier (w ++ r) =
    some (.word (literal w), r)) (hhead : endsHere (w ++ r) = false) : CleanWord specifier w := by
  have hlen : (literal w).length + r.length = (w ++ r).length := by
    rw [literal, List.length_map, List.length_append]
  obtain ⟨w', hsplit, hexpand, -, hne, hplain, hsep, hescaped⟩ := readToken_full htoken hlen hhead
  obtain rfl : w = w' := List.append_cancel_right hsplit
  exact ⟨hne, hplain, hsep, hescaped, (expand_eq_literal specifier).mp hexpand.symm⟩

/-- Two words, one blank between them, are read as these words exactly when both are clean. -/
theorem readTokens_pair_iff {n : Nat} {t u : Text} :
    readTokens specifier (n + 2) (t ++ ' ' :: u) = some [.word (literal t), .word (literal u)] ↔
      CleanWord specifier t ∧ CleanWord specifier u := by
  constructor
  · intro h
    obtain ⟨hhead, r, hfirst, hlater⟩ := readTokens_cons h
    obtain ⟨hhead', r', hsecond, -⟩ := readTokens_cons hlater
    have hlen := (readToken_length hfirst).1
    have hends := (readToken_length hfirst).2
    have hlen' := (readToken_length hsecond).1
    have hall := (List.dropWhile_suffix (l := t ++ ' ' :: u) isBlank).length_le
    have hrest := (List.dropWhile_suffix (l := r) isBlank).length_le
    simp only [Token.length, literal, List.length_map, List.length_append, List.length_cons] at hlen hlen' hall
    cases r with
    | nil => cases hhead'
    | cons b r =>
      have hblank : isBlank b = true := by simpa [endsHere] using hends
      have hskip := (List.dropWhile_suffix (l := r) isBlank).length_le
      rw [List.dropWhile_cons_of_pos hblank] at hhead' hsecond hlen'
      rw [List.length_cons] at hlen
      have hwhole : (t ++ ' ' :: u).dropWhile isBlank = t ++ ' ' :: u :=
        (List.dropWhile_suffix isBlank).eq_of_length (by
          rw [List.length_append, List.length_cons]
          omega)
      have hbehind : r.dropWhile isBlank = r :=
        (List.dropWhile_suffix isBlank).eq_of_length (by omega)
      have hnil : r'.length = 0 := by omega
      rw [hwhole] at hhead hfirst
      rw [hbehind, List.length_eq_zero_iff.mp hnil] at hsecond
      rw [hbehind] at hhead'
      have hfull : (literal t).length + (b :: r).length = (t ++ ' ' :: u).length := by
        rw [literal, List.length_map, List.length_append, List.length_cons, List.length_cons]
        rw [hbehind] at hlen'
        omega
      obtain ⟨w, hsplit, -, hw, -⟩ := readToken_full hfirst hfull hhead
      rw [literal, List.length_map] at hw
      obtain ⟨rfl, hr⟩ := List.append_inj hsplit hw.symm
      obtain ⟨rfl, rfl⟩ := List.cons.inj hr
      refine ⟨cleanWord_of_full hfirst hhead, cleanWord_of_full (r := []) ?_ ?_⟩
      · rwa [List.append_nil]
      · rwa [List.append_nil]
  · rintro ⟨ht, hu⟩
    have hlast := readTokens_clean (n := n) (r := []) hu rfl
    have hnil : readTokens specifier n [] = some [] := by cases n <;> rfl
    rw [List.append_nil, hnil] at hlast
    rw [readTokens_clean ht rfl, readTokens_blank, hlast]
    rfl

end Tokens

end UnitFile
