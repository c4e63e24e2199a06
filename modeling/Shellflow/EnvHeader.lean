import Shellflow.Lib.ShellWords
import Shellflow.Text

/-! Quoted text as a shell reads it, and the header that exports the environment of a block. -/
namespace Shellflow
open ShellWords

/-- The characters that the parser lets through in names. -/
def nameChar (c : Char) : Bool :=
  isAsciiAlphanumeric c || c == '-' || c == '_' || c == '.' || c == '@' || c == ':'

theorem bare_of_nameChar {c : Char} (h : nameChar c = true) :
    endsWord c = false ∧ isQuote c = false ∧ expands c = false ∧ (c == '[') = false := by
  refine ⟨?_, ?_, ?_, ?_⟩
  · by_contra hc
    simp only [endsWord, isBlank, isOperator, Bool.not_eq_false, Bool.or_eq_true, decide_eq_true_eq,
      List.mem_cons, List.not_mem_nil, or_false] at hc
    rcases hc with (rfl | rfl) | rfl | rfl | rfl | rfl | rfl | rfl | rfl | rfl
    all_goals exact absurd h (by decide)
  · by_contra hc
    simp only [isQuote, Bool.not_eq_false, decide_eq_true_eq, List.mem_cons, List.not_mem_nil,
      or_false] at hc
    rcases hc with rfl | rfl | rfl
    all_goals exact absurd h (by decide)
  · by_contra hc
    simp only [expands, Bool.not_eq_false, decide_eq_true_eq, List.mem_cons, List.not_mem_nil,
      or_false] at hc
    rcases hc with rfl | rfl | rfl | rfl
    all_goals exact absurd h (by decide)
  · by_contra hc
    rw [Bool.not_eq_false, beq_iff_eq] at hc
    subst hc
    exact absurd h (by decide)

theorem readWord_quoted (s : List Char) (x : Char) (rest : List Char) (hx : endsWord x = true) :
    readWord (shellQuoteSingleChars s ++ x :: rest) .single = some (s, x :: rest) := by
  induction s with
  | nil => rw [shellQuoteSingleChars, List.singleton_append, readWord_closes, readWord_end hx]
  | cons c s ih =>
    rw [shellQuoteSingleChars]
    split
    · next hc =>
      rw [List.append_assoc, List.cons_append, readWord_closes]
      simp [readWord_escaped, readWord_single, ih, hc]
    · next hc => rw [List.cons_append, readWord_inside hc, ih]; rfl

/-- A quoted text is read as the text. -/
theorem reads_shellQuoteSingle (arg : String) : Reads (shellQuoteSingle arg).toList arg.toList := by
  intro x rest hx
  rw [shellQuoteSingle, String.toList_ofList, List.cons_append, readWord_single, readWord_quoted _ _ _ hx]

inductive RenderEnvError where
  | invalidKey (name : String)
deriving DecidableEq, Repr

def RenderEnvError.message : RenderEnvError → String
  | .invalidKey name => s!"environment variable name `{name}` is not a valid shell identifier"

/-- The line that exports one variable. -/
def envLine (key value : String) : List Char :=
  "export".toList ++ ' ' ::
    (key.toList ++ ['='] ++ (shellQuoteSingle value).toList ++ [';', '\n'])

def renderEnvFrom (out : List Char) : List (String × String) → Except RenderEnvError String
  | [] => .ok (String.ofList out)
  | (key, value) :: entries =>
    if !isValidVarName key then .error (.invalidKey key)
    else renderEnvFrom (out ++ envLine key value) entries

def renderEnv (entries : List (String × String)) : Except RenderEnvError String :=
  renderEnvFrom [] entries

/-- The words of the command that exports one variable. -/
def exportWords (entry : String × String) : List (List Char) :=
  ["export".toList, entry.1.toList ++ ['='] ++ entry.2.toList]

theorem renderEnvFrom_eq (out : List Char) (entries : List (String × String)) :
    renderEnvFrom out entries =
      match entries.find? fun e => !isValidVarName e.1 with
      | some e => .error (.invalidKey e.1)
      | none => .ok (String.ofList (out ++ entries.flatMap fun e => envLine e.1 e.2)) := by
  induction entries generalizing out with
  | nil => simp [renderEnvFrom]
  | cons e entries ih =>
    obtain ⟨key, value⟩ := e
    rw [renderEnvFrom, List.find?_cons]
    cases isValidVarName key with
    | false => rfl
    | true => simp [ih, List.append_assoc]

theorem nameChar_of_varName {name : String} (h : isValidVarName name = true) :
    ∀ c ∈ name.toList, nameChar c = true := by
  intro c hc
  have hvar := varChar_of_isValidVarName h c hc
  rw [Bool.or_eq_true] at hvar
  cases hvar with
  | inl hletter => simp [nameChar, hletter]
  | inr hunder => simp [nameChar, hunder]

theorem isPlainChar_of_nameChar {c : Char} (h : nameChar c = true) : isPlainChar c = true := by
  obtain ⟨hend, hquote, hexpands, hbracket⟩ := bare_of_nameChar h
  rw [beq_eq_false_iff_ne] at hbracket
  simp [isPlainChar, hend, hquote, hexpands, hbracket]

theorem beginsWord_of_nameChar {c : Char} (h : nameChar c = true) : beginsWord c = true := by
  have hother : c ≠ '#' ∧ c ≠ '~' ∧ c ≠ '\\' := by
    refine ⟨?_, ?_, ?_⟩ <;> (rintro rfl; exact absurd h (by decide))
  simp [beginsWord, (bare_of_nameChar h).1, hother]

theorem readWordsFrom_export (n : Nat) (rest : List Char) :
    readWordsFrom (n + 1) ("export".toList ++ ' ' :: rest) =
      (readWordsFrom n (' ' :: rest)).map fun ws => ("export".toList :: ws.1, ws.2) := by
  have hword : readWord ("export".toList ++ ' ' :: rest) .bare =
      some ("export".toList, ' ' :: rest) := reads_of_isLiteral rfl ' ' rest rfl
  have hletter : "export".toList = 'e' :: "xport".toList := rfl
  rw [hletter, List.cons_append] at hword ⊢
  rw [readWordsFrom_start n rfl, hword]
  rfl

theorem length_envLine (key value : String) : 3 ≤ (envLine key value).length := by
  have hline : ∀ word text : List Char, 3 ≤ (word ++ ' ' :: (text ++ [';', '\n'])).length := by
    intro word text
    simp only [List.length_append, List.length_cons, List.length_nil]
    omega
  exact hline _ _

/-- The line is read as two words and the end of its command. -/
theorem readWords_envLine {key : String} (hkey : isValidVarName key = true) (value : String)
    (rest : List Char) :
    readWords (envLine key value ++ rest) = some (exportWords (key, value), ';' :: '\n' :: rest) := by
  obtain ⟨first, more, hfirst⟩ : ∃ first more, key.toList = first :: more :=
    List.exists_cons_of_ne_nil (isWord_of_isValidVarName hkey).1
  have hnames := nameChar_of_varName hkey
  have hassign : Reads (key.toList ++ ['='] ++ (shellQuoteSingle value).toList)
      (key.toList ++ ['='] ++ value.toList) := by
    refine (reads_shellQuoteSingle value).append fun c hc => ?_
    cases List.mem_append.mp hc with
    | inl hname => exact isPlainChar_of_nameChar (hnames c hname)
    | inr heq => exact List.mem_singleton.mp heq ▸ rfl
  have hstart : beginsWord first = true :=
    beginsWord_of_nameChar (hnames first (hfirst ▸ List.mem_cons_self))
  have htext : envLine key value ++ rest = "export".toList ++ ' ' ::
      (key.toList ++ ['='] ++ (shellQuoteSingle value).toList ++ ';' :: '\n' :: rest) :=
    (List.append_assoc _ _ _).trans
      (congrArg ("export".toList ++ ' ' :: ·) (List.append_assoc _ _ _))
  have hsecond : ∀ n, readWordsFrom (n + 2) (' ' ::
      (key.toList ++ ['='] ++ (shellQuoteSingle value).toList ++ ';' :: '\n' :: rest)) =
        some ([key.toList ++ ['='] ++ value.toList], ';' :: '\n' :: rest) := by
    intro n
    have hword := hassign ';' ('\n' :: rest) rfl
    rw [hfirst] at hword ⊢
    simp only [List.cons_append] at hword ⊢
    rw [readWordsFrom_word (n + 1) hstart, hword]
    rfl
  obtain ⟨n, hn⟩ : ∃ n, (envLine key value ++ rest).length + 1 = n + 3 := by
    refine ⟨(envLine key value ++ rest).length - 2, ?_⟩
    have := length_envLine key value
    rw [List.length_append]
    omega
  rw [readWords, hn, htext, readWordsFrom_export, hsecond n]
  rfl

theorem readCommandsFrom_newline (n : Nat) (rest : List Char) :
    readCommandsFrom (n + 1) ('\n' :: rest) = readCommandsFrom n rest := by
  have hwords : readWords ('\n' :: rest) = some ([], '\n' :: rest) := rfl
  rw [readCommandsFrom, hwords, Option.bind_some]
  simp

/-- One line is one command. -/
theorem readCommandsFrom_envLine {key : String} (hkey : isValidVarName key = true) (value : String)
    (n : Nat) (rest : List Char) :
    readCommandsFrom (n + 2) (envLine key value ++ rest) =
      (readCommandsFrom n rest).map (exportWords (key, value) :: ·) := by
  rw [readCommandsFrom, readWords_envLine hkey, Option.bind_some]
  dsimp only
  rw [if_neg (by decide), if_pos (by simp [exportWords]), readCommandsFrom_newline]

theorem readCommandsFrom_envLines {entries : List (String × String)}
    (hkeys : ∀ e ∈ entries, isValidVarName e.1 = true) (n : Nat) (rest : List Char) :
    readCommandsFrom (n + 2 * entries.length) ((entries.flatMap fun e => envLine e.1 e.2) ++ rest) =
      (readCommandsFrom n rest).map (entries.map exportWords ++ ·) := by
  induction entries with
  | nil => simp
  | cons e entries ih =>
    obtain ⟨hkey, hkeys⟩ := List.forall_mem_cons.mp hkeys
    have hfuel : n + 2 * (e :: entries).length = n + 2 * entries.length + 2 := by
      rw [List.length_cons]
      omega
    rw [List.flatMap_cons, List.append_assoc, hfuel, readCommandsFrom_envLine hkey, ih hkeys,
      Option.map_map]
    rfl

theorem length_envLines (entries : List (String × String)) :
    2 * entries.length ≤ (entries.flatMap fun e => envLine e.1 e.2).length := by
  induction entries with
  | nil => exact Nat.le_refl 0
  | cons e entries ih =>
    have hline := length_envLine e.1 e.2
    rw [List.flatMap_cons, List.length_append, List.length_cons]
    omega

/-- The header is refused for a key that is no variable name; else a shell reads one export of each
pair from it, with its value, and no other command. -/
theorem renderEnv_exact (entries : List (String × String)) :
    ((∃ text, renderEnv entries = .ok text) ↔ ∀ e ∈ entries, isValidVarName e.1 = true) ∧
      match renderEnv entries with
      | .ok text => readCommands text.toList = some (entries.map exportWords)
      | .error e => ∃ entry ∈ entries, isValidVarName entry.1 = false ∧ e = .invalidKey entry.1 := by
  rw [renderEnv, renderEnvFrom_eq]
  cases hfind : entries.find? fun e => !isValidVarName e.1 with
  | some e =>
    have hmem := List.mem_of_find?_eq_some hfind
    have hbad : isValidVarName e.1 = false := by simpa using List.find?_some hfind
    refine ⟨⟨fun ⟨text, h⟩ => ?_, fun hall => ?_⟩, e, hmem, hbad, rfl⟩
    · cases h
    · rw [hall e hmem] at hbad
      cases hbad
  | none =>
    have hall : ∀ e ∈ entries, isValidVarName e.1 = true := by simpa using hfind
    refine ⟨⟨fun _ => hall, fun _ => ⟨_, rfl⟩⟩, ?_⟩
    dsimp only
    have hlength := length_envLines entries
    obtain ⟨n, hn⟩ : ∃ n, (entries.flatMap fun e => envLine e.1 e.2).length + 1 =
        n + 1 + 2 * entries.length :=
      ⟨(entries.flatMap fun e => envLine e.1 e.2).length - 2 * entries.length, by omega⟩
    have hread := readCommandsFrom_envLines hall (n + 1) []
    rw [List.append_nil] at hread
    rw [String.toList_ofList, List.nil_append, readCommands, hn, hread]
    simp [readCommandsFrom, readWords, readWordsFrom, skipBlanks]

end Shellflow
