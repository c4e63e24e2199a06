import Shellflow.Dsl.Heredoc
import Shellflow.Lib.BoundedLoop
import Shellflow.Lib.BufRead
import Shellflow.Lib.Slice

/-! The here-document scanner as the source has it: indices into the bytes of the line, and loops with
a bound on their rounds. -/
namespace Shellflow.ByteScan
open BoundedLoop Bytes

/-- The byte of an ASCII character. -/
def ascii (c : Char) : UInt8 := UInt8.ofNat c.toNat

def isTagEnd (byte : UInt8) : Bool :=
  byte ∈ [' ', '\t', '\n', ';', '&', '|', '(', ')', '<', '>'].map ascii

def startsWord (byte : UInt8) : Bool := isTagEnd byte || byte == ascii '='

def isQuote (byte : UInt8) : Bool := byte == ascii '\'' || byte == ascii '"'

def isExpansion (byte : UInt8) : Bool := byte == ascii '$' || byte == ascii graveAccent

section Loops
variable (bytes : List UInt8)

/-- A round of the search for a closing quote: what is found, and what the end of the line gives. -/
def quoteRound {β : Type} (quote : UInt8) (escapes : Bool) (found : Nat → β) (missing : β)
    (start : Nat) : Round Nat β :=
  match bytes[start]? with
  | none => .stop missing
  | some byte =>
    if escapes && byte == ascii '\\' then .next (min (start + 2) bytes.length)
    else if byte = quote then .stop (found start)
    else .next (start + 1)

/-- The index just past the closing quote, or the end of the line. -/
def quoteEnd (start : Nat) (quote : UInt8) (escapes : Bool) : Nat :=
  bounded (quoteRound bytes quote escapes (fun close => close + 1) bytes.length)
    (fun _ => bytes.length) (bytes.length + 1) start

/-- The index of the closing quote. -/
def closingQuote (start : Nat) (quote : UInt8) (escapes : Bool) : Option Nat :=
  bounded (quoteRound bytes quote escapes some none) (fun _ => none) (bytes.length + 1) start

def blankRound (start : Nat) : Round Nat Nat :=
  match bytes[start]? with
  | none => .stop start
  | some byte => if byte = ascii ' ' ∨ byte = ascii '\t' then .next (start + 1) else .stop start

/-- A bare delimiter as far as it is read. -/
structure Word where
  raw : List UInt8
  i : Nat
  literal : Bool

def wordRound (w : Word) : Round Word Word :=
  match bytes[w.i]? with
  | none => .stop w
  | some byte =>
    if isTagEnd byte then .stop w
    else if byte = ascii '\\' then
      match bytes[w.i + 1]? with
      | some escaped => .next { w with raw := w.raw ++ [escaped], i := w.i + 2 }
      | none => .stop w
    else .next ⟨w.raw ++ [byte], w.i + 1, w.literal && !isExpansion byte⟩

/-- The line is text, and so is every delimiter cut out of it: no byte is replaced. -/
def fromUtf8Lossy (raw : List UInt8) : List Char := (BufRead.decode raw).1

/-- The delimiter, the index just past it, and whether the shell leaves it alone. -/
def readTag (start : Nat) : List Char × Nat × Bool :=
  match (bytes[start]?).filter isQuote with
  | some quote =>
    let (body, next) :=
      match closingQuote bytes (start + 1) quote (quote == ascii '"') with
      | some close => (Slice.slice (start + 1) close bytes, close + 1)
      | none => (bytes.drop (start + 1), bytes.length)
    let text := fromUtf8Lossy body
    (text, next, quote == ascii '\'' || !text.any Shellflow.isExpansion)
  | none =>
    let w := bounded (wordRound bytes) id (bytes.length + 1) ⟨[], start, true⟩
    (fromUtf8Lossy w.raw, w.i, w.literal)

/-- The here-document that starts just past its operator, and the index just past its delimiter. -/
def readHeredoc (start : Nat) : Option (Heredoc × Nat) :=
  let stripTabs := bytes[start]? == some (ascii '-')
  let start := if stripTabs then start + 1 else start
  let start := bounded (blankRound bytes) id (bytes.length + 1) start
  let (tag, next, literal) := readTag bytes start
  if !literal || tag.isEmpty then none else some (⟨tag, stripTabs⟩, next)

structure Scan where
  i : Nat
  wordStart : Bool
  openers : List Heredoc

def scanRound (s : Scan) : Round Scan (List Heredoc) :=
  match bytes[s.i]? with
  | none => .stop s.openers
  | some byte =>
    if byte = ascii '\\' then .next ⟨min (s.i + 2) bytes.length, false, s.openers⟩
    else if isQuote byte then
      .next ⟨quoteEnd bytes (s.i + 1) byte (byte == ascii '"'), false, s.openers⟩
    else if byte = ascii '#' ∧ s.wordStart then .stop s.openers
    else if byte = ascii '<' ∧ bytes[s.i + 1]? = some (ascii '<') then
      if bytes[s.i + 2]? = some (ascii '<') then .next ⟨s.i + 3, true, s.openers⟩
      else
        match readHeredoc bytes (s.i + 2) with
        | some (heredoc, next) => .next ⟨next, true, s.openers ++ [heredoc]⟩
        | none => .next ⟨s.i + 2, true, s.openers⟩
    else .next ⟨s.i + 1, startsWord byte, s.openers⟩

end Loops

def scanOpeners (line : List Char) : List Heredoc :=
  let bytes := encode line
  bounded (scanRound bytes) Scan.openers (bytes.length + 1) ⟨0, true, []⟩

section Finish
variable {bytes : List UInt8} {quote : UInt8} {escapes : Bool} {start i : Nat} {byte : UInt8}

theorem lt_of_getElem? (h : bytes[i]? = some byte) : i < bytes.length :=
  (List.getElem?_eq_some_iff.mp h).1

theorem advances_quoteRound {β : Type} (found : Nat → β) (missing : β) :
    Advances (quoteRound bytes quote escapes found missing) id bytes.length := by
  intro s s' h
  rw [quoteRound] at h
  cases hbyte : bytes[s]? with
  | none =>
    rw [hbyte] at h
    cases h
  | some byte =>
    have hlt := lt_of_getElem? hbyte
    rw [hbyte] at h
    dsimp only at h
    split at h
    · cases h
      exact ⟨lt_min (by omega : s < s + 2) hlt, min_le_right _ _⟩
    · split at h
      · cases h
      · cases h
        exact ⟨Nat.lt_succ_self s, hlt⟩

theorem advances_blankRound : Advances (blankRound bytes) id bytes.length := by
  intro s s' h
  rw [blankRound] at h
  cases hbyte : bytes[s]? with
  | none =>
    rw [hbyte] at h
    cases h
  | some byte =>
    have hlt := lt_of_getElem? hbyte
    rw [hbyte] at h
    dsimp only at h
    split at h
    · cases h
      exact ⟨Nat.lt_succ_self s, hlt⟩
    · cases h

theorem advances_wordRound : Advances (wordRound bytes) Word.i bytes.length := by
  intro w w' h
  rw [wordRound] at h
  cases hbyte : bytes[w.i]? with
  | none =>
    rw [hbyte] at h
    cases h
  | some byte =>
    have hlt := lt_of_getElem? hbyte
    rw [hbyte] at h
    dsimp only at h
    split at h
    · cases h
    · split at h
      · cases hescaped : bytes[w.i + 1]? with
        | none =>
          rw [hescaped] at h
          cases h
        | some escaped =>
          have hlt' := lt_of_getElem? hescaped
          rw [hescaped] at h
          cases h
          exact ⟨Nat.lt_add_of_pos_right (by decide), hlt'⟩
      · cases h
        exact ⟨Nat.lt_succ_self w.i, hlt⟩

/-- A quote is searched to a byte of the line, or to the end. -/
theorem quoteRound_stop {β : Type} {found : Nat → β} {missing value : β}
    (h : quoteRound bytes quote escapes found missing i = .stop value) :
    value = missing ∨ (i < bytes.length ∧ value = found i) := by
  rw [quoteRound] at h
  cases hbyte : bytes[i]? with
  | none =>
    rw [hbyte] at h
    cases h
    exact .inl rfl
  | some byte =>
    rw [hbyte] at h
    dsimp only at h
    split at h
    · cases h
    · split at h
      · cases h
        exact .inr ⟨lt_of_getElem? hbyte, rfl⟩
      · cases h

theorem quoteEnd_within (h : start ≤ bytes.length) :
    start ≤ quoteEnd bytes start quote escapes ∧
      quoteEnd bytes start quote escapes ≤ bytes.length := by
  rw [quoteEnd]
  apply bounded_within (fun e => start ≤ e ∧ e ≤ bytes.length) (advances_quoteRound _ _) h ?_
    (Nat.lt_succ_self _)
  intro s value hle _ hround
  dsimp only [id] at hle
  rcases quoteRound_stop hround with rfl | ⟨hlt, rfl⟩
  · exact ⟨h, Nat.le_refl _⟩
  · exact ⟨by omega, hlt⟩

theorem closingQuote_within (h : start ≤ bytes.length) :
    ∀ close, closingQuote bytes start quote escapes = some close →
      start ≤ close ∧ close < bytes.length := by
  rw [closingQuote]
  apply bounded_within (fun r => ∀ close, r = some close → start ≤ close ∧ close < bytes.length)
    (advances_quoteRound _ _) h ?_ (Nat.lt_succ_self _)
  intro s value hle _ hround close hclose
  rcases quoteRound_stop hround with rfl | ⟨hlt, rfl⟩
  · cases hclose
  · cases hclose
    exact ⟨hle, hlt⟩

theorem wordRound_stop {w w' : Word} (h : wordRound bytes w = .stop w') : w' = w := by
  rw [wordRound] at h
  split at h
  · cases h
    rfl
  · split at h
    · cases h
      rfl
    · split at h
      · split at h
        · cases h
        · cases h
          rfl
      · cases h

theorem blankRound_stop {e : Nat} (h : blankRound bytes i = .stop e) : e = i := by
  rw [blankRound] at h
  split at h
  · cases h
    rfl
  · split at h
    · cases h
    · cases h
      rfl

theorem word_within {w : Word} (h : w.i ≤ bytes.length) :
    w.i ≤ (bounded (wordRound bytes) id (bytes.length + 1) w).i ∧
      (bounded (wordRound bytes) id (bytes.length + 1) w).i ≤ bytes.length :=
  bounded_self_within advances_wordRound (fun _ _ => wordRound_stop) h (Nat.lt_succ_self _)

theorem blank_within (h : start ≤ bytes.length) :
    start ≤ bounded (blankRound bytes) id (bytes.length + 1) start ∧
      bounded (blankRound bytes) id (bytes.length + 1) start ≤ bytes.length :=
  bounded_self_within advances_blankRound (fun _ _ => blankRound_stop) h (Nat.lt_succ_self _)

/-- The delimiter ends where it starts or later, and within the line. -/
theorem readTag_within (h : start ≤ bytes.length) :
    start ≤ (readTag bytes start).2.1 ∧ (readTag bytes start).2.1 ≤ bytes.length := by
  rw [readTag]
  cases hquote : (bytes[start]?).filter isQuote with
  | none => exact word_within (w := ⟨[], start, true⟩) h
  | some quote =>
    have hlt := lt_of_getElem? (Option.filter_eq_some_iff.mp hquote).1
    dsimp only
    cases hclose : closingQuote bytes (start + 1) quote (quote == ascii '"') with
    | none => exact ⟨h, Nat.le_refl _⟩
    | some close =>
      obtain ⟨hle, hend⟩ := closingQuote_within hlt close hclose
      exact ⟨(Nat.le_succ start).trans (hle.trans (Nat.le_succ close)), hend⟩

theorem readHeredoc_within {heredoc : Heredoc} {next : Nat} (h : start ≤ bytes.length)
    (hread : readHeredoc bytes start = some (heredoc, next)) :
    start ≤ next ∧ next ≤ bytes.length := by
  rw [readHeredoc] at hread
  obtain ⟨begins, hbegins, hle, hlen⟩ : ∃ begins,
      (if (bytes[start]? == some (ascii '-')) = true then start + 1 else start) = begins ∧
        start ≤ begins ∧ begins ≤ bytes.length := by
    refine ⟨_, rfl, ?_⟩
    split
    next hdash =>
      exact ⟨Nat.le_succ start, lt_of_getElem? (eq_of_beq hdash)⟩
    next => exact ⟨Nat.le_refl start, h⟩
  dsimp only at hread
  rw [hbegins] at hread
  obtain ⟨hblank, hend⟩ := blank_within hlen
  obtain ⟨htag, hline⟩ := readTag_within hend
  split at hread
  · cases hread
  · cases hread
    exact ⟨hle.trans (hblank.trans htag), hline⟩

theorem advances_scanRound : Advances (scanRound bytes) Scan.i bytes.length := by
  intro s s' h
  rw [scanRound] at h
  cases hbyte : bytes[s.i]? with
  | none =>
    rw [hbyte] at h
    cases h
  | some byte =>
    have hlt := lt_of_getElem? hbyte
    rw [hbyte] at h
    dsimp only at h
    split at h
    · cases h
      exact ⟨lt_min (by omega : s.i < s.i + 2) hlt, min_le_right _ _⟩
    · split at h
      · cases h
        exact quoteEnd_within hlt
      · split at h
        · cases h
        · split at h
          next hopens =>
            have hnext := lt_of_getElem? hopens.2
            split at h
            next hthird =>
              cases h
              exact ⟨by dsimp only; omega, lt_of_getElem? hthird⟩
            next =>
              cases hread : readHeredoc bytes (s.i + 2) with
              | none =>
                rw [hread] at h
                cases h
                exact ⟨by dsimp only; omega, hnext⟩
              | some found =>
                obtain ⟨hle, hlen⟩ : s.i + 2 ≤ found.2 ∧ found.2 ≤ bytes.length :=
                  readHeredoc_within hnext hread
                rw [hread] at h
                cases h
                exact ⟨by dsimp only; omega, hlen⟩
          next =>
            cases h
            exact ⟨Nat.lt_succ_self s.i, hlt⟩

/-- A round stops at the end of the line, or at a comment. -/
theorem scanRound_stop {s : Scan} {openers : List Heredoc} (h : scanRound bytes s = .stop openers) :
    bytes.length ≤ s.i ∨ (bytes[s.i]? = some (ascii '#') ∧ s.wordStart = true) := by
  rw [scanRound] at h
  cases hbyte : bytes[s.i]? with
  | none => exact .inl (List.getElem?_eq_none_iff.mp hbyte)
  | some byte =>
    rw [hbyte] at h
    dsimp only at h
    split at h
    · cases h
    · split at h
      · cases h
      · split at h
        next hcomment => exact .inr ⟨congrArg some hcomment.1, hcomment.2⟩
        next =>
          split at h
          · split at h
            · cases h
            · split at h
              · cases h
              · cases h
          · cases h

end Finish

/-- Every loop of the scanner advances, stays within the line and is ended by one of its rounds; with
more rounds the same openers are found. -/
theorem scan_finishes (line : List Char) :
    Ends (scanRound (encode line)) Scan.i (encode line).length ∧
    (∀ quote escapes, Ends (quoteRound (encode line) quote escapes (fun close => close + 1)
      (encode line).length) id (encode line).length) ∧
    (∀ quote escapes, Ends (quoteRound (encode line) quote escapes some none) id
      (encode line).length) ∧
    Ends (blankRound (encode line)) id (encode line).length ∧
    Ends (wordRound (encode line)) Word.i (encode line).length ∧
    (∀ s openers, scanRound (encode line) s = .stop openers → (encode line).length ≤ s.i ∨
      ((encode line)[s.i]? = some (ascii '#') ∧ s.wordStart = true)) ∧
    ∀ rounds, (encode line).length < rounds →
      loop (scanRound (encode line)) rounds ⟨0, true, []⟩ = .stopped (scanOpeners line) := by
  refine ⟨ends_of_advances advances_scanRound,
    fun quote escapes => ends_of_advances (advances_quoteRound _ _),
    fun quote escapes => ends_of_advances (advances_quoteRound _ _),
    ends_of_advances advances_blankRound, ends_of_advances advances_wordRound,
    fun s openers => scanRound_stop, fun rounds hrounds => ?_⟩
  obtain ⟨openers, hloop⟩ := finishes_of_advances (@advances_scanRound (encode line))
    ⟨0, true, []⟩
  rw [hloop rounds hrounds, scanOpeners, bounded, hloop _ (Nat.lt_succ_self _)]

end Shellflow.ByteScan
