import Shellflow.Audit.Scan

/-! The detectors look at the first candidate of their kind on a line: a live one behind a harmless
one is only reported when another detector meets something. Assignments are looked for everywhere. -/
namespace Shellflow.Audit
open ServiceCheck

section Candidates
variable (m : CharData) (line : String)

/-- A run of token characters, long enough to be a token. -/
def TokenRun (after : Text) : Prop := 8 ≤ byteLen (after.takeWhile (isTokenChar m))

/-- A known marker, anywhere, with a run behind it. -/
def LiveToken : Prop :=
  ∃ token ∈ tokenPrefixes, ∃ before after,
    line.toList = before ++ token.toList ++ after ∧ TokenRun m after

/-- A user, a live password and an at-sign. -/
def LiveCredentials (after : Text) : Prop :=
  ∃ user pass rest, after = user ++ ':' :: pass ++ '@' :: rest ∧
    ':' ∉ user ∧ '@' ∉ user ∧ '@' ∉ pass ∧ user ≠ [] ∧ pass ≠ [] ∧
      isDocPassword (cleanPassword pass) = false

def LiveUrl : Prop :=
  ∃ before after, line.toList = before ++ "://".toList ++ after ∧ LiveCredentials after

/-- A flag, outside of quotes, whose name is the one of a secret. -/
structure SecretFlag (flag : Nat × Text) (key : String) : Prop where
  dash : flag.2.head? = some '-'
  noValue : '=' ∉ flag.2
  unquoted : inQuoted (quotedSpans line) flag.1 = false
  word : secretWord m (flag.2.dropWhile fun c => c == '-') = some key

/-- A word outside of quotes that is no flag. -/
def Bare (word : Nat × Text) : Prop :=
  word.2.head? ≠ some '-' ∧ inQuoted (quotedSpans line) word.1 = false

def bareValue (word : Nat × Text) : Text := (word.2.dropWhile isQuote).rdropWhile isQuote

/-- The word opens a quoted string with this value. -/
def Quotes (word : Nat × Text) (value : Text) : Prop :=
  ∃ quote before after, isQuote quote = true ∧
    line.toList = before ++ quote :: value ++ quote :: after ∧ byteLen before = word.1 ∧
      (word.1, word.1 + 1 + byteLen value + 1) ∈ quotedSpans line

/-- A flag and, in the word behind it, a live value. -/
def LiveFlag : Prop :=
  ∃ before flag word after key value, wordIndices line = before ++ flag :: word :: after ∧
    SecretFlag m line flag key ∧
    (Bare line word ∧ value = bareValue word ∨ Quotes line word value) ∧
    (liveValue m key (String.ofList value)).isSome

/-- What the scan is to report, wherever on the line it stands. -/
def Live : Prop := LiveToken m line ∨ LiveUrl line ∨ LiveFlag m line

end Candidates

section Met
variable (m : CharData) (line : String)

/-- The first occurrence of a marker has a run behind it. -/
def MeetsToken : Prop :=
  ∃ token ∈ tokenPrefixes, ∃ before after,
    Str.splitOnceChars token.toList line.toList = some (before, after) ∧ TokenRun m after

/-- What stands in the line at the byte behind the first occurrence in a copy of it. -/
def Behind (copy pat : String) (after : Text) : Prop :=
  ∃ before rest front, Str.splitOnceChars pat.toList copy.toList = some (before, rest) ∧
    line.toList = front ++ after ∧ byteLen front = byteLen before + lenBytes pat

/-- That byte is one between two characters of the line. -/
def SliceableAt (copy pat : String) : Prop :=
  ∀ before rest, Str.splitOnceChars pat.toList copy.toList = some (before, rest) →
    ∃ after, Behind line copy pat after

/-- The line at the first scheme of its lower-case copy. -/
def BehindScheme (after : Text) : Prop := Behind line (m.lower line) "://" after

def Sliceable : Prop := SliceableAt line (m.lower line) "://"

def MeetsUrl : Prop := ∃ after, BehindScheme m line after ∧ LiveCredentials after

/-- An equals sign between two texts, outside of quotes, gives a secret a live value. -/
def LiveAssignment (quoted : List (Nat × Nat)) (before after : Text) : Prop :=
  inQuoted quoted (byteLen before) = false ∧ ∃ key, secretWord m (keyTokenBefore before) = some key ∧
    (liveValue m key (String.ofList (valueAfterEq after))).isSome

/-- Some assignment, wherever it stands, is a live one. -/
def MeetsAssignment : Prop :=
  ∃ before after, line.toList = before ++ '=' :: after ∧
    LiveAssignment m (quotedSpans line) before after

/-- The first flag that has a bare word behind it has a live one. -/
def MeetsFlag : Prop :=
  ∃ before flag word after key, wordIndices line = before ++ flag :: word :: after ∧
    SecretFlag m line flag key ∧ Bare line word ∧
    (liveValue m key (String.ofList (bareValue word))).isSome ∧
    ∀ before' flag' word' after' key', wordIndices line = before' ++ flag' :: word' :: after' →
      SecretFlag m line flag' key' → Bare line word' → before.length ≤ before'.length

/-- The text of a key block. -/
def HasPem : Prop := Str.contains line "-----BEGIN" = true ∧ Str.contains line "PRIVATE KEY" = true

/-- One of the detectors meets what it looks for at the place where it looks. -/
def Met : Prop :=
  MeetsUrl m line ∨ MeetsToken m line ∨ HasPem line ∨ MeetsAssignment m line ∨ MeetsFlag m line

end Met

section Detectors
variable {m : CharData} {line : String}

theorem tokenShape_isSome {token : String} : (tokenShape m line token).isSome ↔
    ∃ before after, Str.splitOnceChars token.toList line.toList = some (before, after) ∧
      TokenRun m after := by
  rw [tokenShape]
  cases h : Str.splitOnceChars token.toList line.toList with
  | none => exact iff_of_false Bool.false_ne_true fun ⟨_, _, hsplit, _⟩ => by cases hsplit
  | some p =>
    obtain ⟨before, after⟩ := p
    constructor
    · intro hsome
      by_cases hrun : TokenRun m after
      · exact ⟨before, after, rfl, hrun⟩
      · have hnone := hsome.symm.trans (congrArg Option.isSome (if_neg hrun))
        cases hnone
    · rintro ⟨_, _, ⟨⟩, hrun⟩
      exact congrArg Option.isSome (if_pos hrun)

theorem findSome_tokenShape_isSome :
    (tokenPrefixes.findSome? (tokenShape m line)).isSome ↔ MeetsToken m line := by
  rw [List.findSome?_isSome_iff, MeetsToken]
  exact exists_congr fun token => and_congr_right fun _ => tokenShape_isSome

theorem pemBlock_isSome : (pemBlock line).isSome ↔ HasPem line := by
  rw [pemBlock, HasPem]
  split
  next h => exact iff_of_true rfl (Bool.and_eq_true_iff.mp h)
  next h => exact iff_of_false Bool.false_ne_true fun hpem => h (Bool.and_eq_true_iff.mpr hpem)

/-- The text up to the first at-sign, at its first colon. -/
theorem credentialIn_isSome {after : Text} :
    (credentialIn after).isSome ↔ LiveCredentials after := by
  rw [credentialIn]
  constructor
  · intro hsome
    cases hat : Str.splitOnceChars ['@'] after with
    | none =>
      rw [hat] at hsome
      cases hsome
    | some p =>
      obtain ⟨creds, rest⟩ := p
      obtain ⟨rfl, hcreds⟩ := Str.splitOnceChars_singleton_iff.mp hat
      rw [hat] at hsome
      cases hcolon : Str.splitOnceChars [':'] creds with
      | none =>
        simp only [hcolon] at hsome
        cases hsome
      | some q =>
        obtain ⟨user, pass⟩ := q
        obtain ⟨rfl, huser⟩ := Str.splitOnceChars_singleton_iff.mp hcolon
        simp only [hcolon] at hsome
        split at hsome
        next => cases hsome
        next hne =>
          split at hsome
          next => cases hsome
          next hlive =>
            rw [Bool.or_eq_true, decide_eq_true_iff, decide_eq_true_iff, not_or] at hne
            rw [List.mem_append, List.mem_cons, not_or, not_or] at hcreds
            exact ⟨user, pass, rest, rfl, huser, hcreds.1, hcreds.2.2, hne.1, hne.2,
              Bool.eq_false_of_not_eq_true hlive⟩
  · rintro ⟨user, pass, rest, rfl, huser, hat, hpass, huser_ne, hpass_ne, hlive⟩
    have hcreds : '@' ∉ user ++ ':' :: pass := by
      rw [List.mem_append, List.mem_cons, not_or, not_or]
      exact ⟨hat, by decide, hpass⟩
    rw [Str.splitOnceChars_of_notMem rest hcreds]
    simp only [Str.splitOnceChars_of_notMem pass huser, huser_ne, hpass_ne, hlive, decide_false,
      Bool.or_false, Bool.false_eq_true, if_false, Option.isSome_some]

/-- The slice behind the first scheme decides. -/
theorem urlCredential_eq {after : Text} (h : BehindScheme m line after) :
    urlCredential line (m.lower line) = some (credentialIn after) := by
  obtain ⟨before, rest, front, hsplit, hline, hlen⟩ := h
  rw [urlCredential, findBytes_eq, hsplit]
  exact congrArg (Option.map credentialIn) (dropBytes_eq_some.mpr ⟨front, hline, hlen⟩)

theorem urlCredential_of_none
    (h : Str.splitOnceChars "://".toList (m.lower line).toList = none) :
    urlCredential line (m.lower line) = some none := by
  rw [urlCredential, findBytes_eq, h]
  rfl

theorem urlCredential_isSome :
    (urlCredential line (m.lower line)).isSome ↔ Sliceable m line := by
  constructor
  · intro hsome before rest hsplit
    rw [urlCredential, findBytes_eq, hsplit] at hsome
    obtain ⟨after, hafter⟩ := Option.isSome_iff_exists.mp ((Option.isSome_map ..).symm.trans hsome)
    obtain ⟨front, hline, hlen⟩ := dropBytes_eq_some.mp hafter
    exact ⟨after, before, rest, front, hsplit, hline, hlen⟩
  · intro hslice
    cases hsplit : Str.splitOnceChars "://".toList (m.lower line).toList with
    | none => exact congrArg Option.isSome (urlCredential_of_none hsplit)
    | some p =>
      obtain ⟨after, hafter⟩ := hslice p.1 p.2 hsplit
      exact congrArg Option.isSome (urlCredential_eq hafter)

theorem urlCredential_reports (hslice : Sliceable m line) :
    ∃ url, urlCredential line (m.lower line) = some url ∧ (url.isSome ↔ MeetsUrl m line) := by
  cases hsplit : Str.splitOnceChars "://".toList (m.lower line).toList with
  | none =>
    refine ⟨none, urlCredential_of_none hsplit, iff_of_false Bool.false_ne_true ?_⟩
    rintro ⟨after, ⟨before, rest, front, hsome, -⟩, -⟩
    rw [hsplit] at hsome
    cases hsome
  | some p =>
    obtain ⟨after, hafter⟩ := hslice p.1 p.2 hsplit
    refine ⟨_, urlCredential_eq hafter, credentialIn_isSome.trans ?_⟩
    constructor
    · exact fun hlive => ⟨after, hafter, hlive⟩
    · rintro ⟨after', hafter', hlive⟩
      have heq := (urlCredential_eq hafter).symm.trans (urlCredential_eq hafter')
      rw [← credentialIn_isSome] at hlive ⊢
      rw [Option.some.inj heq]
      exact hlive

/-- One character: an equals sign there, or something behind it. -/
theorem assignmentFrom_cons_isSome {quoted : List (Nat × Nat)} {before s : Text} {c : Char} :
    (assignmentFrom m quoted before (c :: s)).isSome ↔
      c = '=' ∧ LiveAssignment m quoted before s ∨
        (assignmentFrom m quoted (before ++ [c]) s).isSome := by
  rw [assignmentFrom]
  split
  next hskip =>
    refine (or_iff_right ?_).symm
    rintro ⟨rfl, hquoted, -⟩
    rw [hquoted] at hskip
    cases hskip
  next hsign =>
    rw [Bool.or_eq_true, not_or, bne_iff_ne, not_not, Bool.not_eq_true] at hsign
    cases hkey : secretWord m (keyTokenBefore before) with
    | none =>
      refine (or_iff_right ?_).symm
      rintro ⟨-, -, key, hsome, -⟩
      rw [hkey] at hsome
      cases hsome
    | some key =>
      dsimp only
      cases hlive : liveValue m key (String.ofList (valueAfterEq s)) with
      | none =>
        refine (or_iff_right ?_).symm
        rintro ⟨-, -, key', hsome, hvalue⟩
        cases hkey.symm.trans hsome
        rw [hlive] at hvalue
        cases hvalue
      | some message =>
        have hvalue : (liveValue m key (String.ofList (valueAfterEq s))).isSome := by
          rw [hlive]
          rfl
        exact iff_of_true rfl (.inl ⟨hsign.1, hsign.2, key, hkey, hvalue⟩)

/-- Every equals sign of a text that stands behind `before`. -/
theorem assignmentFrom_isSome {quoted : List (Nat × Nat)} {before s : Text} :
    (assignmentFrom m quoted before s).isSome ↔ ∃ u after, s = u ++ '=' :: after ∧
      LiveAssignment m quoted (before ++ u) after := by
  induction s generalizing before with
  | nil =>
    refine iff_of_false Bool.false_ne_true ?_
    rintro ⟨u, after, heq, -⟩
    cases u <;> cases heq
  | cons c s ih =>
    rw [assignmentFrom_cons_isSome, ih]
    constructor
    · rintro (⟨rfl, hlive⟩ | ⟨u, after, rfl, hlive⟩)
      · exact ⟨[], s, rfl, by rwa [List.append_nil]⟩
      · exact ⟨c :: u, after, rfl, by rwa [List.append_assoc] at hlive⟩
    · rintro ⟨u, after, heq, hlive⟩
      cases u with
      | nil =>
        obtain ⟨rfl, rfl⟩ := List.cons.inj heq
        rw [List.append_nil] at hlive
        exact .inl ⟨rfl, hlive⟩
      | cons d u =>
        obtain ⟨rfl, rfl⟩ := List.cons.inj heq
        exact .inr ⟨u, after, rfl, by rwa [List.append_assoc]⟩

theorem assignmentFrom_reports :
    (assignmentFrom m (quotedSpans line) [] line.toList).isSome ↔ MeetsAssignment m line :=
  assignmentFrom_isSome

/-- A flag and the word behind it, when both stand outside of quotes. -/
theorem flagAndWord_eq_some {flag word : Nat × Text} {found : String × String} :
    flagAndWord m (quotedSpans line) flag word = some found ↔
      SecretFlag m line flag found.1 ∧ Bare line word ∧
        found.2 = String.ofList (bareValue word) := by
  rw [flagAndWord]
  constructor
  · intro h
    split at h
    next hflag =>
      rw [Bool.and_eq_true, Bool.and_eq_true, beq_iff_eq, Bool.not_eq_true', Bool.not_eq_true',
        List.contains_eq_mem, decide_eq_false_iff_not] at hflag
      split at h
      next => cases h
      next key hkey =>
        split at h
        next hword =>
          rw [Bool.and_eq_true, bne_iff_ne, Bool.not_eq_true'] at hword
          cases h
          exact ⟨⟨hflag.1.1, hflag.1.2, hflag.2, hkey⟩, hword, rfl⟩
        next => cases h
    next => cases h
  · rintro ⟨hflag, ⟨hword, hunquoted⟩, hvalue⟩
    have hdash : (flag.2.head? == some '-') = true := beq_iff_eq.mpr hflag.dash
    have hno : flag.2.contains '=' = false := by
      rw [List.contains_eq_mem, decide_eq_false_iff_not]
      exact hflag.noValue
    have hother : (word.2.head? != some '-') = true := bne_iff_ne.mpr hword
    rw [hdash, hno, hflag.unquoted, hflag.word]
    simp only [hother, hunquoted, Bool.not_false, Bool.and_self, if_true]
    rw [bareValue] at hvalue
    rw [← hvalue]

/-- The first two neighbours of a list for which a test gives a result. -/
def FirstNeighbours {α β : Type} (test : α → α → Option β) (l : List α) (found : β) : Prop :=
  ∃ before a b after, l = before ++ a :: b :: after ∧ test a b = some found ∧
    ∀ before' a' b' after', l = before' ++ a' :: b' :: after' → (test a' b').isSome →
      before.length ≤ before'.length

theorem not_firstNeighbours_short {α β : Type} {test : α → α → Option β} {l : List α} {found : β}
    (hl : l.length ≤ 1) : ¬ FirstNeighbours test l found := by
  rintro ⟨before, a, b, after, rfl, -⟩
  rw [List.length_append, List.length_cons, List.length_cons] at hl
  omega

theorem firstNeighbours_here {α β : Type} {test : α → α → Option β} {a b : α} {l : List α}
    {found found' : β} (h : test a b = some found') :
    FirstNeighbours test (a :: b :: l) found ↔ found' = found := by
  constructor
  · rintro ⟨before, x, y, after, heq, htest, hfirst⟩
    have hzero := hfirst [] a b l rfl (by rw [h]; rfl)
    obtain rfl := List.eq_nil_of_length_eq_zero (Nat.le_zero.mp hzero)
    obtain ⟨rfl, htail⟩ := List.cons.inj heq
    obtain ⟨rfl, -⟩ := List.cons.inj htail
    exact Option.some.inj (h.symm.trans htest)
  · rintro rfl
    exact ⟨[], a, b, l, rfl, h, fun _ _ _ _ _ _ => Nat.zero_le _⟩

theorem firstNeighbours_later {α β : Type} {test : α → α → Option β} {a b : α} {l : List α}
    {found : β} (h : test a b = none) :
    FirstNeighbours test (a :: b :: l) found ↔ FirstNeighbours test (b :: l) found := by
  constructor
  · rintro ⟨before, x, y, after, heq, htest, hfirst⟩
    cases before with
    | nil =>
      obtain ⟨rfl, htail⟩ := List.cons.inj heq
      obtain ⟨rfl, -⟩ := List.cons.inj htail
      rw [h] at htest
      cases htest
    | cons d before =>
      obtain ⟨rfl, htail⟩ := List.cons.inj heq
      refine ⟨before, x, y, after, htail, htest, fun before' x' y' after' heq' htest' => ?_⟩
      exact Nat.le_of_succ_le_succ
        (hfirst (a :: before') x' y' after' (congrArg (List.cons a) heq') htest')
  · rintro ⟨before, x, y, after, heq, htest, hfirst⟩
    refine ⟨a :: before, x, y, after, congrArg (List.cons a) heq, htest, ?_⟩
    intro before' x' y' after' heq' htest'
    cases before' with
    | nil =>
      obtain ⟨rfl, htail⟩ := List.cons.inj heq'
      obtain ⟨rfl, -⟩ := List.cons.inj htail
      rw [h] at htest'
      cases htest'
    | cons d before' =>
      obtain ⟨-, htail⟩ := List.cons.inj heq'
      exact Nat.succ_le_succ (hfirst before' x' y' after' htail htest')

theorem flagValueFrom_eq_some {quoted : List (Nat × Nat)} {previous : Option (Nat × Text)}
    {words : List (Nat × Text)} {found : String × String} :
    flagValueFrom m quoted previous words = some found ↔
      FirstNeighbours (flagAndWord m quoted) (previous.toList ++ words) found := by
  induction words generalizing previous with
  | nil =>
    refine iff_of_false (fun h => by cases h) (not_firstNeighbours_short ?_)
    cases previous with
    | none => exact Nat.zero_le 1
    | some flag => exact Nat.le_refl 1
  | cons word words ih =>
    rw [flagValueFrom]
    cases previous with
    | none => exact ih
    | some flag =>
      cases htest : flagAndWord m quoted flag word with
      | none =>
        rw [Option.bind_some, htest]
        exact ih.trans (firstNeighbours_later htest).symm
      | some found' =>
        rw [Option.bind_some, htest]
        exact Option.some_inj.trans (firstNeighbours_here htest).symm

theorem flagValue_reports :
    ((flagValue m line (quotedSpans line)).bind fun found => liveValue m found.1 found.2).isSome ↔
      MeetsFlag m line := by
  rw [Option.isSome_bind, Option.any_eq_true]
  constructor
  · rintro ⟨found, hfound, hlive⟩
    obtain ⟨before, flag, word, after, heq, htest, hfirst⟩ := flagValueFrom_eq_some.mp hfound
    obtain ⟨hflag, hbare, hvalue⟩ := flagAndWord_eq_some.mp htest
    refine ⟨before, flag, word, after, found.1, heq, hflag, hbare, hvalue ▸ hlive, ?_⟩
    intro before' flag' word' after' key' heq' hflag' hbare'
    exact hfirst before' flag' word' after' heq' (Option.isSome_iff_exists.mpr
      ⟨(key', String.ofList (bareValue word')), flagAndWord_eq_some.mpr ⟨hflag', hbare', rfl⟩⟩)
  · rintro ⟨before, flag, word, after, key, heq, hflag, hbare, hlive, hfirst⟩
    refine ⟨(key, String.ofList (bareValue word)), flagValueFrom_eq_some.mpr
      ⟨before, flag, word, after, heq, flagAndWord_eq_some.mpr ⟨hflag, hbare, rfl⟩, ?_⟩, hlive⟩
    intro before' flag' word' after' heq' hsome
    obtain ⟨found, hfound⟩ := Option.isSome_iff_exists.mp hsome
    obtain ⟨hflag', hbare', -⟩ := flagAndWord_eq_some.mp hfound
    exact hfirst before' flag' word' after' found.1 heq' hflag' hbare'

theorem assignmentSecret_reports :
    (assignmentSecret m line).isSome ↔ MeetsAssignment m line ∨ MeetsFlag m line := by
  rw [assignmentSecret, ← flagValue_reports, ← assignmentFrom_reports]
  cases assignmentFrom m (quotedSpans line) [] line.toList with
  | none => exact (or_iff_right Bool.false_ne_true).symm
  | some message => exact iff_of_true rfl (.inl rfl)

/-- A line is reported if it can be sliced and one of the detectors meets something. -/
theorem scanLine_reports :
    (∃ message, scanLine m line = some (some message)) ↔ Sliceable m line ∧ Met m line := by
  by_cases hslice : Sliceable m line
  · obtain ⟨url, hurl, hmeets⟩ := urlCredential_reports hslice
    rw [scanLine, hurl, and_iff_right hslice, Met, ← hmeets]
    cases url with
    | some message => exact iff_of_true ⟨message, rfl⟩ (.inl rfl)
    | none =>
      rw [or_iff_right (show ¬ (none : Option String).isSome from Bool.false_ne_true),
        ← findSome_tokenShape_isSome, ← pemBlock_isSome, ← assignmentSecret_reports]
      simp only [Option.some_inj, ← Option.isSome_iff_exists, Option.isSome_or, Bool.or_eq_true,
        or_assoc]
  · refine iff_of_false ?_ fun h => hslice h.1
    rintro ⟨message, hscan⟩
    have hsome := mt urlCredential_isSome.mp hslice
    rw [Option.not_isSome_iff_eq_none] at hsome
    rw [scanLine, hsome] at hscan
    cases hscan

theorem scanLine_isSome : (scanLine m line).isSome ↔ Sliceable m line := by
  rw [← urlCredential_isSome, scanLine]
  cases urlCredential line (m.lower line) with
  | none => exact Iff.rfl
  | some url => cases url <;> exact Iff.rfl

end Detectors

section Files
variable {m : CharData}

/-- A line that the scan looks at and reports. -/
def Hits (m : CharData) (line : String) : Prop :=
  isComment line = false ∧ ∃ message, scanLine m line = some (some message)

theorem scanLines_isSome {n : Nat} {lines : List String} : (scanLines m n lines).isSome ↔
    ∀ line ∈ lines, isComment line = false → Sliceable m line := by
  induction lines generalizing n with
  | nil => exact iff_of_true rfl fun line h => by cases h
  | cons line lines ih =>
    rw [List.forall_mem_cons, ← ih (n := n + 1), scanLines]
    cases hcomment : isComment line with
    | true => exact (and_iff_right fun h => by cases h).symm
    | false =>
      rw [if_neg Bool.false_ne_true, ← scanLine_isSome, forall_prop_of_true rfl]
      cases scanLine m line with
      | none => exact iff_of_false Bool.false_ne_true fun h => Bool.false_ne_true h.1
      | some message =>
        rw [Option.isSome_map]
        exact (and_iff_right rfl).symm

/-- The findings have the numbers of the lines that are reported. -/
theorem scanLines_lines {n : Nat} {lines : List String} {found : List Finding}
    (h : scanLines m n lines = some found) (k : Nat) :
    (∃ finding ∈ found, finding.line = k) ↔
      ∃ i line, k = n + i + 1 ∧ lines[i]? = some line ∧ Hits m line := by
  induction lines generalizing n found with
  | nil =>
    cases h
    refine iff_of_false (fun ⟨_, hmem, _⟩ => by cases hmem) ?_
    rintro ⟨i, line, -, hline, -⟩
    rw [List.getElem?_nil] at hline
    cases hline
  | cons line lines ih =>
    have hsplit : (∃ i l, k = n + i + 1 ∧ (line :: lines)[i]? = some l ∧ Hits m l) ↔
        (k = n + 1 ∧ Hits m line) ∨
          ∃ i l, k = n + 1 + i + 1 ∧ lines[i]? = some l ∧ Hits m l := by
      constructor
      · rintro ⟨i, l, hk, hl, hits⟩
        cases i with
        | zero =>
          cases hl
          exact .inl ⟨hk, hits⟩
        | succ i => exact .inr ⟨i, l, by omega, hl, hits⟩
      · rintro (⟨hk, hits⟩ | ⟨i, l, hk, hl, hits⟩)
        · exact ⟨0, line, hk, rfl, hits⟩
        · exact ⟨i + 1, l, by omega, hl, hits⟩
    rw [hsplit]
    rw [scanLines] at h
    cases hcomment : isComment line with
    | true =>
      rw [hcomment, if_pos rfl] at h
      rw [ih h, Hits, hcomment]
      exact (or_iff_right fun hits => Bool.false_ne_true hits.2.1.symm).symm
    | false =>
      rw [hcomment, if_neg Bool.false_ne_true] at h
      cases hscan : scanLine m line with
      | none =>
        rw [hscan] at h
        cases h
      | some message =>
        rw [hscan] at h
        obtain ⟨rest, hrest, rfl⟩ := Option.map_eq_some_iff.mp h
        rw [← ih hrest, Hits, hcomment, hscan]
        cases message with
        | none =>
          refine (or_iff_right ?_).symm
          rintro ⟨-, -, message, hmessage⟩
          cases hmessage
        | some message =>
          simp only [Option.map_some, Option.toList_some, List.singleton_append,
            List.exists_mem_cons_iff, Option.some.injEq, exists_eq', and_true]
          exact or_congr_left eq_comm

/-- The scan ends, and one of its findings names the line. -/
def Reported (m : CharData) (content : String) (n : Nat) : Prop :=
  ∃ found, scanFile m content = some found ∧ ∃ finding ∈ found, finding.line = n

theorem reported_iff {content : String} {i : Nat} : Reported m content (i + 1) ↔
    (∀ line ∈ Str.lines content, isComment line = false → Sliceable m line) ∧
      ∃ line, (Str.lines content)[i]? = some line ∧ isComment line = false ∧ Met m line := by
  constructor
  · rintro ⟨found, hfound, hreported⟩
    have hslice : ∀ line ∈ Str.lines content, isComment line = false → Sliceable m line :=
      scanLines_isSome.mp (Option.isSome_of_eq_some hfound)
    obtain ⟨j, line, hj, hline, hcomment, hscan⟩ := (scanLines_lines hfound (i + 1)).mp hreported
    obtain rfl : j = i := by omega
    exact ⟨hslice, line, hline, hcomment, (scanLine_reports.mp hscan).2⟩
  · rintro ⟨hslice, line, hline, hcomment, hmet⟩
    obtain ⟨found, hfound⟩ := Option.isSome_iff_exists.mp (scanLines_isSome (n := 0).mpr hslice)
    have hscan : ∃ message, scanLine m line = some (some message) :=
      scanLine_reports.mpr ⟨hslice line (List.mem_of_getElem? hline) hcomment, hmet⟩
    exact ⟨found, hfound, (scanLines_lines hfound (i + 1)).mpr
      ⟨i, line, by omega, hline, hcomment, hscan⟩⟩

end Files

section Leaks
variable (m : CaseMapping) (line : String)

/-- A run that is long enough to be a value, without a reference. -/
def LeakRun (after : Text) : Prop :=
  let value := String.ofList (after.takeWhile fun c => !Str.isWhitespace c)
  12 ≤ lenBytes value ∧ Str.contains value "$\x7b" = false

/-- A credential key in whatever case, anywhere, with such a run behind it. -/
def LiveLeak : Prop :=
  ∃ before key after, line.toList = before ++ key ++ after ∧
    Str.toAsciiUppercase (String.ofList key) ∈ leakKeys ∧ LeakRun after

/-- The slice at the first occurrence of some key shows a leak, and no slice before it fails. -/
def MeetsLeak (keys : List String) : Prop :=
  ∃ front key rest after, keys = front ++ key :: rest ∧
    (∀ other ∈ front, SliceableAt line (m.upper line) other) ∧
    Behind line (m.upper line) key after ∧ LeakRun after

variable {m line}

theorem behind_unique {copy pat : String} {after after' : Text} (h : Behind line copy pat after)
    (h' : Behind line copy pat after') : after = after' := by
  obtain ⟨before, rest, front, hsplit, hline, hlen⟩ := h
  obtain ⟨before', rest', front', hsplit', hline', hlen'⟩ := h'
  cases hsplit.symm.trans hsplit'
  have hdrop := dropBytes_eq_some.mpr ⟨front, hline, hlen⟩
  have hdrop' := dropBytes_eq_some.mpr ⟨front', hline', hlen'⟩
  exact Option.some.inj (hdrop.symm.trans hdrop')

theorem meetsLeak_cons {key : String} {keys : List String} : MeetsLeak m line (key :: keys) ↔
    (∃ after, Behind line (m.upper line) key after ∧ LeakRun after) ∨
      SliceableAt line (m.upper line) key ∧ MeetsLeak m line keys := by
  constructor
  · rintro ⟨front, k, rest, after, heq, hslice, hbehind, hrun⟩
    cases front with
    | nil =>
      cases heq
      exact .inl ⟨after, hbehind, hrun⟩
    | cons k' front =>
      obtain ⟨rfl, rfl⟩ := List.cons.inj heq
      rw [List.forall_mem_cons] at hslice
      exact .inr ⟨hslice.1, front, k, rest, after, rfl, hslice.2, hbehind, hrun⟩
  · rintro (⟨after, hbehind, hrun⟩ | ⟨hkey, front, k, rest, after, rfl, hslice, hbehind, hrun⟩)
    · exact ⟨[], key, keys, after, rfl, fun _ h => absurd h List.not_mem_nil, hbehind, hrun⟩
    · exact ⟨key :: front, k, rest, after, rfl, List.forall_mem_cons.mpr ⟨hkey, hslice⟩, hbehind,
        hrun⟩

/-- A key that does not occur in the copy, or is not sliced, decides nothing. -/
theorem not_behind_of_none {copy pat : String} {after : Text}
    (h : Str.splitOnceChars pat.toList copy.toList = none) : ¬ Behind line copy pat after := by
  rintro ⟨before, rest, front, hsplit, -⟩
  rw [h] at hsplit
  cases hsplit

theorem leakUnder_reports {keys : List String} :
    leakUnder m line keys = some true ↔ MeetsLeak m line keys := by
  induction keys with
  | nil =>
    refine iff_of_false (fun h => by cases h) ?_
    rintro ⟨front, key, rest, after, heq, -⟩
    cases front <;> cases heq
  | cons key keys ih =>
    rw [meetsLeak_cons, leakUnder, findBytes_eq]
    cases hsplit : Str.splitOnceChars key.toList (m.upper line).toList with
    | none =>
      have hslice : SliceableAt line (m.upper line) key := fun before rest h => by
        rw [hsplit] at h
        cases h
      rw [and_iff_right hslice, or_iff_right fun ⟨_, h, _⟩ => not_behind_of_none hsplit h]
      exact ih
    | some p =>
      dsimp only [Option.map_some]
      cases hdrop : dropBytes line.toList (byteLen p.1 + lenBytes key) with
      | none =>
        have hnot : ∀ after, ¬ Behind line (m.upper line) key after := by
          rintro after ⟨before, rest, front, hsplit', hline, hlen⟩
          cases hsplit.symm.trans hsplit'
          rw [dropBytes_eq_some.mpr ⟨front, hline, hlen⟩] at hdrop
          cases hdrop
        refine iff_of_false (fun h => by cases h) ?_
        rintro (⟨after, hbehind, -⟩ | ⟨hslice, -⟩)
        · exact hnot after hbehind
        · obtain ⟨after, hbehind⟩ := hslice p.1 p.2 hsplit
          exact hnot after hbehind
      | some after =>
        obtain ⟨front, hline, hlen⟩ := dropBytes_eq_some.mp hdrop
        have hbehind : Behind line (m.upper line) key after :=
          ⟨p.1, p.2, front, hsplit, hline, hlen⟩
        have hslice : SliceableAt line (m.upper line) key := fun _ _ _ => ⟨after, hbehind⟩
        have hhere : (∃ after', Behind line (m.upper line) key after' ∧ LeakRun after') ↔
            LeakRun after :=
          ⟨fun ⟨_, h, hrun⟩ => behind_unique hbehind h ▸ hrun, fun hrun => ⟨after, hbehind, hrun⟩⟩
        rw [hhere, and_iff_right hslice, ← ih, LeakRun]
        dsimp only
        split
        next hrun =>
          rw [Bool.and_eq_true, decide_eq_true_iff, Bool.not_eq_true'] at hrun
          exact iff_of_true rfl (.inl hrun)
        next hrun =>
          rw [Bool.and_eq_true, decide_eq_true_iff, Bool.not_eq_true'] at hrun
          exact (or_iff_right hrun).symm

theorem looksLikeLeak_reports :
    looksLikeLeak m line = some true ↔ MeetsLeak m line leakKeys := leakUnder_reports

end Leaks

/-- The case mappings and the letters of ASCII. -/
def asciiData : CharData where
  lower := Str.toAsciiLowercase
  upper := Str.toAsciiUppercase
  lower_ascii := fun _ _ => rfl
  upper_ascii := fun _ _ => rfl
  isAlphanumeric := Char.isAlphanum
  alphanumeric_ascii := fun _ _ => rfl

/-- A word that holds the marker of a token, and a token. -/
def deskLine : String := "desk-top sk-abcdefgh12345678"

end Shellflow.Audit
