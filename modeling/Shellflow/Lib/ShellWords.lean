import Mathlib.Data.List.Basic

/-! How the shell reads the words of a simple command: quotes are removed, and a word with an
unquoted expansion or pattern is no literal word. -/
namespace ShellWords

/-- How the next character is quoted. -/
inductive Quoting
  | bare
  | single
  | double

/-- The grave accent of a command substitution. -/
def grave : Char := Char.ofNat 96

def isBlank (c : Char) : Bool := c ∈ [' ', '\t']

/-- A newline is an operator, too. -/
def isOperator (c : Char) : Bool := c ∈ ['\n', '|', '&', ';', '<', '>', '(', ')']

def endsWord (c : Char) : Bool := isBlank c || isOperator c

def isQuote (c : Char) : Bool := c ∈ ['\'', '"', '\\']

/-- Outside quotes these start an expansion or a pattern; an open bracket may. -/
def expands (c : Char) : Bool := c ∈ ['$', grave, '*', '?']

/-- Whether the bracket in front of the text opens an expression that is closed in this word and in
front of a slash. -/
def opensBracket (s : List Char) : Bool :=
  let word := s.takeWhile fun c => !endsWord c && c != '/'
  decide (']' ∈ (if word.head? = some '!' then word.drop 1 else word).drop 1)

/-- The rest of a word and what follows it; no answer for a word that is not literal or a quote
that is not closed. -/
def readWord : List Char → Quoting → Option (List Char × List Char)
  | [], .bare => some ([], [])
  | [], _ => none
  | c :: s, .bare =>
    if endsWord c then some ([], c :: s)
    else if c = '\'' then readWord s .single
    else if c = '"' then readWord s .double
    else if c = '\\' then
      match s with
      | [] => some (['\\'], [])
      | d :: s =>
        -- the line goes on
        if d = '\n' then readWord s .bare
        else (readWord s .bare).map fun r => (d :: r.1, r.2)
    else if expands c || (c == '[' && opensBracket s) then none
    else (readWord s .bare).map fun r => (c :: r.1, r.2)
  | c :: s, .single =>
    if c = '\'' then readWord s .bare
    else (readWord s .single).map fun r => (c :: r.1, r.2)
  | c :: s, .double =>
    if c = '"' then readWord s .bare
    else if c = '$' || c = grave then none
    else if c = '\\' && s.head?.any fun d => d ∈ ['$', grave, '"', '\\', '\n'] then
      match s with
      | [] => none
      | d :: s =>
        if d = '\n' then readWord s .double
        else (readWord s .double).map fun r => (d :: r.1, r.2)
    else (readWord s .double).map fun r => (c :: r.1, r.2)

/-- The text behind blanks and continued lines. -/
def skipBlanks : List Char → List Char
  | ' ' :: s => skipBlanks s
  | '\t' :: s => skipBlanks s
  | '\\' :: '\n' :: s => skipBlanks s
  | s => s

/-- The words up to the next operator, and what follows them; the number bounds the words. -/
def readWordsFrom : Nat → List Char → Option (List (List Char) × List Char)
  | 0, _ => none
  | n + 1, s =>
    match skipBlanks s with
    | [] => some ([], [])
    | c :: s =>
      if isOperator c then some ([], c :: s)
      else if c = '#' then some ([], s.dropWhile fun c => c != '\n')
      -- the directory of a user
      else if c = '~' then none
      else
        (readWord (c :: s) .bare).bind fun w =>
          (readWordsFrom n w.2).map fun ws => (w.1 :: ws.1, ws.2)

def readWords (s : List Char) : Option (List (List Char) × List Char) :=
  readWordsFrom (s.length + 1) s

/-- The simple commands of a text, in their order: a semicolon or a newline ends one, and a line may
have none. No answer where something else stands behind a command; the number bounds the parts. -/
def readCommandsFrom : Nat → List Char → Option (List (List (List Char)))
  | 0, _ => none
  | n + 1, s =>
    (readWords s).bind fun w =>
      match w.2 with
      | [] => some (if w.1 = [] then [] else [w.1])
      | c :: rest =>
        if c = '\n' then (readCommandsFrom n rest).map ((if w.1 = [] then [] else [w.1]) ++ ·)
        else if c = ';' && w.1 ≠ [] && rest.head? ≠ some ';' then
          (readCommandsFrom n rest).map (w.1 :: ·)
        else none

def readCommands (s : List Char) : Option (List (List (List Char))) :=
  readCommandsFrom (s.length + 1) s

/-- The text behind a reserved word. -/
def reserved (word : String) (s : List Char) : Option (List Char) :=
  (word.toList.isPrefixOf? (skipBlanks s)).filter fun rest => rest.head?.all endsWord

/-- The text behind a semicolon that stands alone. -/
def semicolon (s : List Char) : Option (List Char) :=
  match skipBlanks s with
  | ';' :: rest => if rest.head? = some ';' then none else some rest
  | _ => none

/-- A conditional of one command with one command in it, and what follows it. -/
structure Conditional where
  test : List (List Char)
  body : List (List Char)
  rest : List Char
deriving DecidableEq

def readConditional (s : List Char) : Option Conditional := do
  let s ← reserved "if" s
  let (test, s) ← readWords s
  let s ← semicolon s
  let s ← reserved "then" s
  let (body, s) ← readWords s
  let s ← semicolon s
  let s ← reserved "fi" s
  let s ← semicolon s
  some ⟨test, body, s⟩

/-- Text that is read as it is written, as a word or a part of one. -/
def isLiteral : List Char → Bool
  | [] => true
  | c :: s =>
    !endsWord c && !isQuote c && !expands c && !(c == '[' && opensBracket s) && isLiteral s

/-- What is written is read as the text, whatever ends the word. -/
def Reads (written text : List Char) : Prop :=
  ∀ x s, endsWord x = true → readWord (written ++ x :: s) .bare = some (text, x :: s)

section Words
variable {c x : Char} {s v q t r written text : List Char} {quoting : Quoting}

attribute [local simp] readWord skipBlanks readWordsFrom readCommandsFrom isLiteral

theorem readWord_end (hend : endsWord c = true) : readWord (c :: s) .bare = some ([], c :: s) := by
  rw [readWord.eq_def]
  exact if_pos hend

/-- A character that is no quote stands for itself, or the word is no literal one. -/
theorem readWord_other (hend : endsWord c = false) (hquote : isQuote c = false) :
    readWord (c :: s) .bare =
      if expands c || (c == '[' && opensBracket s) then none
      else (readWord s .bare).map fun w => (c :: w.1, w.2) := by
  simp only [isQuote, List.mem_cons, List.not_mem_nil, or_false, decide_eq_false_iff_not,
    not_or] at hquote
  rw [readWord.eq_def]
  simp [hend, hquote]

theorem readWord_single : readWord ('\'' :: s) .bare = readWord s .single := by
  rw [readWord.eq_def]
  rfl

theorem readWord_double : readWord ('"' :: s) .bare = readWord s .double := by
  rw [readWord.eq_def]
  rfl

theorem readWord_closes : readWord ('\'' :: s) .single = readWord s .bare := rfl

theorem readWord_inside (hc : c ≠ '\'') :
    readWord (c :: s) .single = (readWord s .single).map fun w => (c :: w.1, w.2) := if_neg hc

theorem readWord_escaped : readWord ('\\' :: c :: s) .bare =
    if c = '\n' then readWord s .bare
    else (readWord s .bare).map fun w => (c :: w.1, w.2) := rfl

theorem opensBracket_append (hx : endsWord x = true) :
    opensBracket (v ++ x :: s) = opensBracket v := by
  have hword : (v ++ x :: s).takeWhile (fun c => !endsWord c && c != '/') =
      v.takeWhile (fun c => !endsWord c && c != '/') := by
    induction v with
    | nil => simp [hx]
    | cons c v ih => simp [List.takeWhile_cons, ih]
  rw [opensBracket, opensBracket, hword]

theorem reads_of_isLiteral (h : isLiteral text = true) : Reads text text := by
  intro x s hx
  induction text with
  | nil => exact readWord_end hx
  | cons c text ih =>
    simp only [isLiteral, Bool.and_eq_true, Bool.not_eq_true'] at h
    obtain ⟨⟨⟨⟨hend, hquote⟩, hexpands⟩, hbracket⟩, htext⟩ := h
    rw [List.cons_append, readWord_other hend hquote, opensBracket_append hx, hexpands, hbracket,
      ih htext]
    rfl

/-- A character that is read as it is written, wherever it stands in a word. -/
def isPlainChar (c : Char) : Bool := !endsWord c && !isQuote c && !expands c && c != '['

/-- Plain characters in front of a word are read with it. -/
theorem Reads.append (hplain : ∀ c ∈ v, isPlainChar c = true) (h : Reads written text) :
    Reads (v ++ written) (v ++ text) := by
  intro x s hx
  induction v with
  | nil => exact h x s hx
  | cons c v ih =>
    obtain ⟨hc, hv⟩ := List.forall_mem_cons.mp hplain
    simp only [isPlainChar, Bool.and_eq_true, Bool.not_eq_true', bne_iff_ne] at hc
    obtain ⟨⟨⟨hend, hquote⟩, hexpands⟩, hbracket⟩ := hc
    rw [List.cons_append, List.cons_append, readWord_other hend hquote, hexpands, ih hv]
    simp [hbracket]

/-- A mark is written and not read: only quotes and continued lines go missing. -/
def isMark (c : Char) : Bool := isQuote c || c == '\n'

theorem not_isMark (hx : endsWord x = true) (hnl : x ≠ '\n') : isMark x = false := by
  simp only [endsWord, isBlank, isOperator, Bool.or_eq_true, decide_eq_true_eq, List.mem_cons,
    List.not_mem_nil, or_false] at hx
  rcases hx with (rfl | rfl) | rfl | rfl | rfl | rfl | rfl | rfl | rfl | rfl
  all_goals first | exact absurd rfl hnl | rfl

/-- One character was read and stands in the word. -/
theorem emits {w : Option (List Char × List Char)}
    (h : w.map (fun w => (c :: w.1, w.2)) = some (t, r)) : ∃ t', t = c :: t' ∧ w = some (t', r) := by
  obtain ⟨⟨t', r'⟩, hw, heq⟩ := Option.map_eq_some_iff.mp h
  cases heq
  exact ⟨t', rfl, hw⟩

/-- What reading one character can do: the word ends, a mark goes missing, the character or the
escaped one is read. -/
theorem readWord_cases (h : readWord (c :: s) quoting = some (t, r)) :
    t = [] ∨ (isMark c = true ∧ ∃ quoting, readWord s quoting = some (t, r)) ∨
    (∃ t' quoting, t = c :: t' ∧ readWord s quoting = some (t', r)) ∨
    (c = '\\' ∧ ∃ d s' quoting, s = d :: s' ∧ ((isMark d = true ∧ readWord s' quoting = some (t, r)) ∨
      ∃ t', t = d :: t' ∧ readWord s' quoting = some (t', r))) := by
  rw [readWord.eq_def] at h
  cases quoting with
  | bare =>
    dsimp only at h
    split at h
    · exact .inl (by cases h; rfl)
    split at h
    · next hc => exact .inr (.inl ⟨by rw [hc]; rfl, _, h⟩)
    split at h
    · next hc => exact .inr (.inl ⟨by rw [hc]; rfl, _, h⟩)
    split at h
    · next hc =>
      cases s with
      | nil =>
        cases h
        exact .inr (.inr (.inl ⟨[], .bare, by rw [hc], by rw [readWord]⟩))
      | cons d s =>
        dsimp only at h
        split at h
        · next hd => exact .inr (.inr (.inr ⟨hc, d, s, _, rfl, .inl ⟨by rw [hd]; rfl, h⟩⟩))
        · exact .inr (.inr (.inr ⟨hc, d, s, _, rfl, .inr (emits h)⟩))
    split at h
    · cases h
    · obtain ⟨t', ht, hw⟩ := emits h
      exact .inr (.inr (.inl ⟨t', _, ht, hw⟩))
  | single =>
    dsimp only at h
    split at h
    · next hc => exact .inr (.inl ⟨by rw [hc]; rfl, _, h⟩)
    · obtain ⟨t', ht, hw⟩ := emits h
      exact .inr (.inr (.inl ⟨t', _, ht, hw⟩))
  | double =>
    dsimp only at h
    split at h
    · next hc => exact .inr (.inl ⟨by rw [hc]; rfl, _, h⟩)
    split at h
    · cases h
    split at h
    · next hc =>
      rw [Bool.and_eq_true, decide_eq_true_eq] at hc
      cases s with
      | nil => cases h
      | cons d s =>
        dsimp only at h
        split at h
        · next hd => exact .inr (.inr (.inr ⟨hc.1, d, s, _, rfl, .inl ⟨by rw [hd]; rfl, h⟩⟩))
        · exact .inr (.inr (.inr ⟨hc.1, d, s, _, rfl, .inr (emits h)⟩))
    · obtain ⟨t', ht, hw⟩ := emits h
      exact .inr (.inr (.inl ⟨t', _, ht, hw⟩))

theorem readWord_short (hx : isMark x = false) (hq : q ≠ []) (hmarks : ∀ c ∈ q, isMark c = true)
    (h : readWord (x :: s) quoting = some (t, r)) : t ≠ q := by
  rintro rfl
  rcases readWord_cases h with ht | ⟨hmark, -⟩ | ⟨t', _, rfl, -⟩ | ⟨rfl, -⟩
  · exact hq ht
  · simp [hx] at hmark
  · simp [hmarks x] at hx
  · cases hx

/-- A mark that was not read is never caught up with: what is read stays behind what is written. -/
theorem readWord_lags (hx : isMark x = false) (n : Nat) (hn : v.length < n) (hq : q ≠ [])
    (hmarks : ∀ c ∈ q, isMark c = true) (h : readWord (v ++ x :: s) quoting = some (t, r)) :
    t ≠ q ++ v := by
  induction n generalizing v q quoting t with
  | zero => omega
  | succ n ih =>
    cases v with
    | nil => simpa using readWord_short hx hq hmarks h
    | cons c v =>
      rintro rfl
      obtain ⟨m, q, rfl⟩ := List.exists_cons_of_ne_nil hq
      have hm : isMark m = true := hmarks m List.mem_cons_self
      have hrest : ∀ d ∈ q, isMark d = true := fun d hd => hmarks d (List.mem_cons_of_mem m hd)
      rw [List.length_cons] at hn
      rcases readWord_cases h with ht | ⟨hc, _, hw⟩ | ⟨t', _, ht, hw⟩ | ⟨rfl, d, s', _, hs, hd⟩
      · cases ht
      · -- the mark goes to the end of the queue
        exact ih (v := v) (q := m :: (q ++ [c])) (by omega) (List.cons_ne_nil _ _)
          (by simpa [or_imp, forall_and, hm, hc] using hrest) hw (by simp)
      · -- the queue turns by one
        cases ht
        exact ih (v := v) (q := q ++ [c]) (by omega) (by simp)
          (by simpa [or_imp, forall_and, hm] using hrest) hw (by simp)
      · cases v with
        | nil =>
          cases hs
          rcases hd with ⟨hmark, -⟩ | ⟨t', ht, -⟩
          · simp [hx] at hmark
          · cases ht
            simp [hm] at hx
        | cons e v =>
          obtain ⟨rfl, rfl⟩ := List.cons.inj hs
          rw [List.length_cons] at hn
          have hslash : isMark '\\' = true := rfl
          rcases hd with ⟨hmark, hw⟩ | ⟨t', ht, hw⟩
          · exact ih (v := v) (q := m :: (q ++ ['\\', e])) (by omega) (List.cons_ne_nil _ _)
              (by simpa [or_imp, forall_and, hm, hslash, hmark] using hrest) hw (by simp)
          · cases ht
            exact ih (v := v) (q := q ++ ['\\', m]) (by omega) (by simp)
              (by simpa [or_imp, forall_and, hm, hslash] using hrest) hw (by simp)

/-- What is read as it is written is literal. -/
theorem isLiteral_of_readWord (hx : endsWord x = true) (hnl : x ≠ '\n')
    (h : readWord (text ++ x :: s) .bare = some (text, r)) : isLiteral text = true := by
  have hmark : isMark x = false := not_isMark hx hnl
  induction text generalizing r with
  | nil => rfl
  | cons c text ih =>
    rw [List.cons_append] at h
    have hend : endsWord c = false := by
      by_contra hc
      rw [readWord_end (by simpa using hc)] at h
      cases h
    have hquote : isQuote c = false := by
      by_contra hc
      simp only [isQuote, Bool.not_eq_false, decide_eq_true_eq, List.mem_cons, List.not_mem_nil,
        or_false] at hc
      rcases hc with rfl | rfl | rfl
      · rw [readWord_single] at h
        exact readWord_lags hmark _ (Nat.lt_succ_self _) (q := ['\'']) (by simp) (by simp; rfl) h rfl
      · rw [readWord_double] at h
        exact readWord_lags hmark _ (Nat.lt_succ_self _) (q := ['"']) (by simp) (by simp; rfl) h rfl
      · cases text with
        | nil =>
          rw [List.nil_append, readWord_escaped, if_neg hnl] at h
          obtain ⟨t', ht, -⟩ := emits h
          cases ht
          cases hmark
        | cons d text =>
          rw [List.cons_append, readWord_escaped] at h
          split at h
          · next hd =>
            subst hd
            exact readWord_lags hmark _ (Nat.lt_succ_self _) (q := ['\\', '\n']) (by simp)
              (by simp; exact ⟨rfl, rfl⟩) h rfl
          · obtain ⟨t', ht, hw⟩ := emits h
            cases ht
            exact readWord_lags hmark _ (Nat.lt_succ_self _) (q := ['\\']) (by simp) (by simp; rfl)
              hw rfl
    rw [readWord_other hend hquote, opensBracket_append hx] at h
    split at h
    · cases h
    · next hrest =>
      obtain ⟨t', ht, hw⟩ := emits h
      cases ht
      simpa [isLiteral, hend, hquote, ih hw, imp_iff_not_or] using hrest

/-- Whether a character is read as the start of a word, and not skipped or looked up. -/
def beginsWord (c : Char) : Bool := !endsWord c && c != '#' && c != '~' && c != '\\'

theorem skipBlanks_start (hstart : beginsWord c = true) : skipBlanks (c :: s) = c :: s := by
  rw [skipBlanks.eq_def]
  split
  · next hc =>
    obtain ⟨rfl, -⟩ := List.cons.inj hc
    cases hstart
  · next hc =>
    obtain ⟨rfl, -⟩ := List.cons.inj hc
    cases hstart
  · next hc =>
    obtain ⟨rfl, -⟩ := List.cons.inj hc
    cases hstart
  · rfl

/-- A word at the start. -/
theorem readWordsFrom_start (n : Nat) (hstart : beginsWord c = true) :
    readWordsFrom (n + 1) (c :: s) =
      (readWord (c :: s) .bare).bind fun w =>
        (readWordsFrom n w.2).map fun ws => (w.1 :: ws.1, ws.2) := by
  have hskip := skipBlanks_start (s := s) hstart
  simp only [beginsWord, endsWord, Bool.and_eq_true, Bool.not_eq_true', Bool.or_eq_false_iff,
    bne_iff_ne] at hstart
  rw [readWordsFrom, hskip]
  simp [hstart]

/-- A word behind one blank. -/
theorem readWordsFrom_word (n : Nat) (hstart : beginsWord c = true) :
    readWordsFrom (n + 1) (' ' :: c :: s) =
      (readWord (c :: s) .bare).bind fun w =>
        (readWordsFrom n w.2).map fun ws => (w.1 :: ws.1, ws.2) := by
  rw [← readWordsFrom_start n hstart, readWordsFrom, readWordsFrom, skipBlanks]

end Words

/-- A word as it is written and as it is meant. -/
structure Word where
  written : List Char
  meant : List Char

/-- Words behind one blank each, and what ends the command. -/
def simpleCommand (words : List Word) (s : List Char) : List Char :=
  words.flatMap (fun w => ' ' :: w.written) ++ ';' :: s

section Command
variable {w : Word} {words : List Word} {s rest : List Char} {n : Nat}

theorem simpleCommand_cons : simpleCommand (w :: words) s =
    ' ' :: (w.written ++ simpleCommand words s) := by
  simp [simpleCommand]

/-- What follows a word ends it. -/
theorem simpleCommand_ends (words : List Word) (s : List Char) :
    ∃ x s', simpleCommand words s = x :: s' ∧ endsWord x = true ∧ x ≠ '\n' := by
  cases words with
  | nil => exact ⟨';', s, rfl, rfl, by decide⟩
  | cons w words => exact ⟨' ', _, simpleCommand_cons, rfl, by decide⟩

theorem readWordsFrom_simpleCommand
    (hstart : ∀ w ∈ words, w.written.head?.any beginsWord = true)
    (hreads : ∀ w ∈ words, Reads w.written w.meant) (hn : words.length < n) :
    readWordsFrom n (simpleCommand words s) = some (words.map (·.meant), ';' :: s) := by
  induction words generalizing n with
  | nil =>
    cases n with
    | zero => omega
    | succ n => rfl
  | cons w words ih =>
    cases n with
    | zero => omega
    | succ n =>
      rw [List.length_cons] at hn
      obtain ⟨x, s', hs, hx, -⟩ := simpleCommand_ends words s
      obtain ⟨c, hc, hstarts⟩ := Option.any_eq_true _ _ |>.mp (hstart w List.mem_cons_self)
      obtain ⟨written, hwritten⟩ := List.head?_eq_some_iff.mp hc
      have hword := hreads w List.mem_cons_self x s' hx
      rw [← hs, hwritten, List.cons_append] at hword
      rw [simpleCommand_cons, hwritten, List.cons_append, readWordsFrom_word n hstarts, hword,
        Option.bind_some, ih (fun w hw => hstart w (List.mem_cons_of_mem _ hw))
          (fun w hw => hreads w (List.mem_cons_of_mem _ hw)) (by omega)]
      rfl

/-- Bare words that are read as they are written are literal. -/
theorem isLiteral_of_readWordsFrom
    (hstart : ∀ w ∈ words, w.written.head?.any beginsWord = true)
    (hreads : ∀ w ∈ words, Reads w.written w.meant ∨ w.written = w.meant)
    (h : readWordsFrom n (simpleCommand words s) = some (words.map (·.meant), rest)) :
    ∀ w ∈ words, w.written = w.meant → isLiteral w.meant = true := by
  induction words generalizing n with
  | nil => simp
  | cons w words ih =>
    cases n with
    | zero => cases h
    | succ n =>
      obtain ⟨x, s', hs, hx, hnl⟩ := simpleCommand_ends words s
      obtain ⟨c, hc, hstarts⟩ := Option.any_eq_true _ _ |>.mp (hstart w List.mem_cons_self)
      obtain ⟨written, hwritten⟩ := List.head?_eq_some_iff.mp hc
      rw [simpleCommand_cons, hwritten, List.cons_append, readWordsFrom_word n hstarts,
        ← List.cons_append, ← hwritten] at h
      obtain ⟨⟨t, r⟩, hword, h⟩ := Option.bind_eq_some_iff.mp h
      obtain ⟨⟨ts, r'⟩, hrest, h⟩ := Option.map_eq_some_iff.mp h
      cases h
      have hlit : w.written = w.meant → isLiteral w.meant = true := by
        intro hw
        rw [hw, hs] at hword
        exact isLiteral_of_readWord hx hnl hword
      have hread : Reads w.written w.meant := by
        rcases hreads w List.mem_cons_self with hread | hw
        · exact hread
        · rw [hw]
          exact reads_of_isLiteral (hlit hw)
      have hnext := hread x s' hx
      rw [← hs, hword] at hnext
      cases hnext
      intro v hv
      rcases List.mem_cons.mp hv with rfl | hv
      · exact hlit
      · exact ih (fun w hw => hstart w (List.mem_cons_of_mem _ hw))
          (fun w hw => hreads w (List.mem_cons_of_mem _ hw)) hrest v hv

theorem lt_length_simpleCommand : words.length < (simpleCommand words s).length + 1 := by
  induction words with
  | nil => simp
  | cons w words ih =>
    rw [simpleCommand_cons]
    simp only [List.length_cons, List.length_append]
    omega

theorem readWords_simpleCommand
    (hstart : ∀ w ∈ words, w.written.head?.any beginsWord = true)
    (hreads : ∀ w ∈ words, Reads w.written w.meant) :
    readWords (simpleCommand words s) = some (words.map (·.meant), ';' :: s) :=
  readWordsFrom_simpleCommand hstart hreads lt_length_simpleCommand

end Command

/-- A conditional as it is written. -/
def conditionalText (test body : List Word) (s : List Char) : List Char :=
  "if".toList ++ simpleCommand test
    (" then".toList ++ simpleCommand body (" fi;".toList ++ s))

section Conditional
variable {test body : List Word} {s : List Char}

theorem reserved_simpleCommand (words : List Word) :
    reserved "if" ("if".toList ++ simpleCommand words s) = some (simpleCommand words s) ∧
    reserved "then" (" then".toList ++ simpleCommand words s) = some (simpleCommand words s) := by
  obtain ⟨x, s', hs, hx, -⟩ := simpleCommand_ends words s
  rw [hs]
  constructor
  · simp [reserved, skipBlanks, List.isPrefixOf?, hx]
  · simp [reserved, skipBlanks, List.isPrefixOf?, hx]

/-- A conditional is read as it is meant exactly when the bare words in it are literal. -/
theorem readConditional_iff (test body : List Word) (hs : s.head? ≠ some ';')
    (htest : ∀ w ∈ test, w.written.head?.any beginsWord = true)
    (htestReads : ∀ w ∈ test, Reads w.written w.meant)
    (hbody : ∀ w ∈ body, w.written.head?.any beginsWord = true)
    (hbodyReads : ∀ w ∈ body, Reads w.written w.meant ∨ w.written = w.meant) :
    readConditional (conditionalText test body s) =
        some ⟨test.map (·.meant), body.map (·.meant), s⟩ ↔
      ∀ w ∈ body, w.written = w.meant → isLiteral w.meant = true := by
  have hthen : semicolon (';' :: (" then".toList ++ simpleCommand body (" fi;".toList ++ s))) =
      some (" then".toList ++ simpleCommand body (" fi;".toList ++ s)) := by
    simp [semicolon, skipBlanks]
  have hfi : semicolon (';' :: (" fi;".toList ++ s)) = some (" fi;".toList ++ s) := by
    simp [semicolon, skipBlanks]
  have hend : reserved "fi" (" fi;".toList ++ s) = some (';' :: s) := by
    simp [reserved, skipBlanks, List.isPrefixOf?, endsWord, isOperator]
  have hrest : semicolon (';' :: s) = some s := by
    simp [semicolon, skipBlanks, hs]
  rw [readConditional, conditionalText, (reserved_simpleCommand test).1]
  simp only [Option.bind_eq_bind, Option.bind_some, readWords_simpleCommand htest htestReads, hthen,
    (reserved_simpleCommand body).2]
  constructor
  · intro h
    obtain ⟨⟨words, rest⟩, hwords, h⟩ := Option.bind_eq_some_iff.mp h
    obtain ⟨_, -, h⟩ := Option.bind_eq_some_iff.mp h
    obtain ⟨_, -, h⟩ := Option.bind_eq_some_iff.mp h
    obtain ⟨_, -, h⟩ := Option.bind_eq_some_iff.mp h
    have hbodyWords : words = body.map (·.meant) := congrArg Conditional.body (Option.some.inj h)
    rw [hbodyWords] at hwords
    exact isLiteral_of_readWordsFrom hbody hbodyReads hwords
  · intro h
    have hreads : ∀ w ∈ body, Reads w.written w.meant := by
      intro w hw
      rcases hbodyReads w hw with hread | heq
      · exact hread
      · rw [heq]
        exact reads_of_isLiteral (h w hw heq)
    simp only [readWords_simpleCommand hbody hreads, Option.bind_some, hfi, hend, hrest]

end Conditional

end ShellWords
