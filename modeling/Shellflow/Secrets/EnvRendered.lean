import Shellflow.Secrets.EnvFile

/-! Environment files that are written out again: the styles in which a value can stand, and what
the reader makes of them. -/
namespace Shellflow.EnvRendered

inductive Quoting where
  | single
  | double
  | bare
deriving DecidableEq, Repr

/-- The value stands in a pair of equal quotes itself. -/
def Wrapped (value : String) : Prop :=
  ∃ quote body, (quote = '"' ∨ quote = '\'') ∧ value.toList = quote :: (body ++ [quote])

namespace Quoting

def render (quoting : Quoting) (value : String) : String :=
  match quoting with
  | single => "'" ++ value ++ "'"
  | double => "\"" ++ value ++ "\""
  | bare => value

/-- Which values a style can carry. -/
def Admits (quoting : Quoting) (value : String) : Prop :=
  match quoting with
  | single => '\'' ∉ value.toList
  | double => True
  | bare => Str.trim value = value ∧ ¬ Wrapped value

end Quoting

/-- A line of a file: an assignment, or a blank or comment line. -/
inductive Line where
  | assign (key value : String) (quoting : Quoting)
  | skipped (text : String)
deriving DecidableEq, Repr

namespace Line

def text : Line → String
  | assign key value quoting => key ++ ("=" ++ quoting.render value)
  | skipped text => text

def pair : Line → Option (String × String)
  | assign key value _ => some (key, value)
  | skipped _ => none

def WellFormed : Line → Prop
  | assign key value quoting =>
    isValidVarName key = true ∧ '\n' ∉ value.toList ∧ quoting.Admits value
  | skipped text =>
    '\n' ∉ text.toList ∧ (Str.trim text = "" ∨ Str.startsWith (Str.trim text) "#" = true)

end Line

def fileText (lines : List Line) : String := String.join (lines.map fun line => line.text ++ "\n")

/-- The assignments of a file in order. -/
def assignments (lines : List Line) : List (String × String) := lines.filterMap Line.pair

section Lines
variable {idx : Nat} {key value raw : String}

theorem trimChars_dropCr (l : List Char) : Str.trimChars (Str.dropCr l) = Str.trimChars l := by
  rw [Str.dropCr]
  split
  next hcr =>
    have hl := List.dropLast_append_getLast? _ hcr
    conv_rhs => rw [← hl, Str.trimChars_concat _ rfl]
  next => rfl

theorem trim_stripSuffix (raw : String) :
    Str.trim ((Str.stripSuffix raw "\r").getD raw) = Str.trim raw := by
  cases hraw : Str.stripSuffix raw "\r" with
  | none => rfl
  | some rest =>
    have hreturn : (rest ++ "\r").toList = rest.toList ++ ['\r'] := String.toList_append
    rw [Str.stripSuffix_eq_some hraw, Option.getD_some, Str.trim, Str.trim, hreturn,
      Str.trimChars_concat _ rfl]

/-- Only the text between its surrounding whitespace decides what a line is. -/
theorem parseEnvLine_congr {raw' : String} (h : Str.trim raw = Str.trim raw') :
    parseEnvLine idx raw = parseEnvLine idx raw' := by
  rw [parseEnvLine, parseEnvLine]
  dsimp only
  rw [trim_stripSuffix, trim_stripSuffix, h]

theorem parseEnvLine_skipped (h : Str.trim raw = "" ∨ Str.startsWith (Str.trim raw) "#" = true) :
    parseEnvLine idx raw = .ok none := by
  rw [parseEnvLine]
  dsimp only
  rw [trim_stripSuffix, if_pos h]

theorem toList_assign (key quoted : String) :
    (key ++ ("=" ++ quoted)).toList = key.toList ++ '=' :: quoted.toList := by
  rw [String.toList_append, String.toList_append]
  rfl

theorem notMem_key (hkey : isValidVarName key = true) {c : Char}
    (hc : (isAsciiAlphanumeric c || c == '_') = false) : c ∉ key.toList := by
  intro hmem
  rw [varChar_of_isValidVarName hkey c hmem] at hc
  cases hc

/-- An assignment without whitespace behind it is read as its key and what its quotes hold. -/
theorem parseEnvLine_assign {quoted : String} (hkey : isValidVarName key = true)
    (hend : Str.trimEndChars (key.toList ++ '=' :: quoted.toList) =
      key.toList ++ '=' :: quoted.toList) :
    parseEnvLine idx (key ++ ("=" ++ quoted)) = .ok (some (key, stripSurroundingQuotes quoted)) := by
  obtain ⟨hne, hword⟩ := isWord_of_isValidVarName hkey
  obtain ⟨first, rest, hfirst⟩ := List.exists_cons_of_ne_nil hne
  have hvar := varChar_of_isValidVarName hkey first (hfirst ▸ List.mem_cons_self)
  have htrim : Str.trim (key ++ ("=" ++ quoted)) = key ++ ("=" ++ quoted) := by
    have hstart : Str.trimStartChars (key.toList ++ '=' :: quoted.toList) =
        key.toList ++ '=' :: quoted.toList := by
      rw [hfirst, List.cons_append]
      exact List.dropWhile_cons_of_neg (by rw [isWhitespace_of_varChar hvar]; exact Bool.false_ne_true)
    rw [Str.trim, toList_assign, Str.trimChars_eq_self_iff.mpr ⟨hstart, hend⟩, ← toList_assign,
      String.ofList_toList]
  have hempty : ¬ (key ++ ("=" ++ quoted) = "" ∨ Str.startsWith (key ++ ("=" ++ quoted)) "#" = true) := by
    rintro (hempty | hcomment)
    · have hlist := congrArg String.toList hempty
      rw [toList_assign, hfirst] at hlist
      cases hlist
    · rw [Str.startsWith, toList_assign, hfirst] at hcomment
      have hhash : first = '#' := (beq_iff_eq.mp (Bool.and_eq_true_iff.mp hcomment).1).symm
      rw [hhash] at hvar
      cases hvar
  have hexport : Str.stripPrefix (key ++ ("=" ++ quoted)) "export " = none := by
    refine Str.stripPrefix_eq_none fun hpre => ?_
    have hsplit : (key ++ ("=" ++ quoted)).toList = (key.toList ++ ['=']) ++ quoted.toList := by
      rw [toList_assign, List.append_assoc, List.singleton_append]
    rw [hsplit] at hpre
    cases List.prefix_or_prefix_of_prefix hpre (List.prefix_append _ _) with
    | inl hblank =>
      cases List.mem_append.mp (hblank.subset (show ' ' ∈ "export ".toList by decide)) with
      | inl hmem => exact notMem_key hkey rfl hmem
      | inr hmem => exact absurd hmem (by decide)
    | inr hequals =>
      exact absurd (hequals.subset (List.mem_append_right _ (List.mem_singleton_self _))) (by decide)
  have hsplit : Str.splitOnce (key ++ ("=" ++ quoted)) "=" = some (key, quoted) := by
    rw [Str.splitOnce, toList_assign]
    change (Str.splitOnceChars ['='] _).map _ = _
    rw [Str.splitOnceChars_of_notMem _ (notMem_key hkey rfl), Option.map_some, String.ofList_toList,
      String.ofList_toList]
  have hname : Str.trim key = key := by
    rw [Str.trim, Str.trimChars_eq_self hword, String.ofList_toList]
  rw [parseEnvLine]
  dsimp only
  rw [trim_stripSuffix, htrim, if_neg hempty, hexport, Option.getD_none, htrim, hsplit]
  dsimp only
  rw [hname, if_pos hkey]

theorem trimChars_quoted {quote : Char} (hquote : Str.isWhitespace quote = false) (l : List Char) :
    Str.trimChars (quote :: (l ++ [quote])) = quote :: (l ++ [quote]) := by
  have hne : ¬ Str.isWhitespace quote = true := by rw [hquote]; exact Bool.false_ne_true
  refine Str.trimChars_eq_self_iff.mpr ⟨List.dropWhile_cons_of_neg hne, ?_⟩
  rw [← List.cons_append]
  exact List.rdropWhile_concat_neg _ _ _ hne

theorem stripQuoteChars_quoted {quote : Char} (hquote : quote = '"' ∨ quote = '\'') (l : List Char) :
    stripQuoteChars (quote :: (l ++ [quote])) = l := by
  cases l with
  | nil => exact if_pos ⟨rfl, hquote⟩
  | cons c l =>
    have hlast : quote = (c :: (l ++ [quote])).getLast (List.cons_ne_nil _ _) := by
      rw [List.getLast_cons (List.append_ne_nil_of_right_ne_nil _ (List.cons_ne_nil _ _)),
        List.getLast_append_singleton]
    rw [List.cons_append, stripQuoteChars, if_pos ⟨hlast, hquote⟩, ← List.cons_append,
      List.dropLast_concat]

theorem stripQuoteChars_bare (hvalue : ¬ Wrapped value) :
    stripQuoteChars value.toList = value.toList := by
  unfold stripQuoteChars
  split
  next first second rest hlist =>
    refine if_neg fun hwrapped => hvalue ?_
    refine ⟨first, (second :: rest).dropLast, hwrapped.2, ?_⟩
    have hlast := List.dropLast_append_getLast (List.cons_ne_nil second rest)
    rw [← hwrapped.1] at hlast
    rw [hlist, hlast]
  next => rfl

/-- Every style gives the value back, and no whitespace follows it. -/
theorem quoted_read {quoting : Quoting} (h : quoting.Admits value) :
    stripSurroundingQuotes (quoting.render value) = value ∧
      Str.trimEndChars (key.toList ++ '=' :: (quoting.render value).toList) =
        key.toList ++ '=' :: (quoting.render value).toList := by
  have hquoted : ∀ quote : Char, (quote = '"' ∨ quote = '\'') → ∀ quoted : String,
      quoted.toList = quote :: (value.toList ++ [quote]) →
      stripSurroundingQuotes quoted = value ∧
        Str.trimEndChars (key.toList ++ '=' :: quoted.toList) = key.toList ++ '=' :: quoted.toList := by
    intro quote hquote quoted hlist
    have hblank : Str.isWhitespace quote = false := by rcases hquote with rfl | rfl <;> rfl
    have htrim := trimChars_quoted hblank value.toList
    rw [stripSurroundingQuotes, hlist, htrim, stripQuoteChars_quoted hquote, String.ofList_toList,
      ← List.singleton_append, ← List.append_assoc]
    exact ⟨rfl, Str.trimEndChars_append (List.cons_ne_nil _ _) (Str.trimChars_eq_self_iff.mp htrim).2⟩
  cases quoting with
  | single =>
    refine hquoted '\'' (.inr rfl) _ ?_
    rw [Quoting.render, String.toList_append, String.toList_append]
    rfl
  | double =>
    refine hquoted '"' (.inl rfl) _ ?_
    rw [Quoting.render, String.toList_append, String.toList_append]
    rfl
  | bare =>
    have htrim : Str.trimChars value.toList = value.toList := by
      have hlist := congrArg String.toList h.1
      rwa [Str.trim, String.toList_ofList] at hlist
    rw [Quoting.render, stripSurroundingQuotes, htrim, stripQuoteChars_bare h.2, String.ofList_toList]
    refine ⟨rfl, ?_⟩
    rw [← List.singleton_append, ← List.append_assoc]
    by_cases hempty : value.toList = []
    · rw [hempty, List.append_nil]
      exact List.rdropWhile_concat_neg _ _ _ (by decide)
    · exact Str.trimEndChars_append hempty (Str.trimChars_eq_self_iff.mp htrim).2

/-- A line is read as the pair it was written for. -/
theorem parseEnvLine_text {line : Line} (h : line.WellFormed) :
    parseEnvLine idx line.text = .ok line.pair := by
  cases line with
  | assign key value quoting =>
    obtain ⟨hkey, -, hadmits⟩ := h
    obtain ⟨hvalue, hend⟩ := quoted_read hadmits
    rw [Line.text, parseEnvLine_assign hkey hend, hvalue]
    rfl
  | skipped text => exact parseEnvLine_skipped h.2

end Lines

section Files
variable {lines : List Line}

theorem newline_notMem_text {line : Line} (h : line.WellFormed) : '\n' ∉ line.text.toList := by
  cases line with
  | skipped text => exact h.1
  | assign key value quoting =>
    obtain ⟨hkey, hvalue, -⟩ := h
    rw [Line.text, toList_assign]
    intro hmem
    rcases List.mem_append.mp hmem with hmem | hmem
    · exact notMem_key hkey rfl hmem
    · cases quoting <;> simp [Quoting.render, hvalue] at hmem

theorem toList_fileText (lines : List Line) : (fileText lines).toList =
    ((lines.map fun line => line.text.toList).flatMap fun line => line ++ ['\n']) := by
  rw [fileText, String.toList_join, List.flatMap_map, List.flatMap_map]
  simp only [String.toList_append]
  rfl

/-- The lines of a file are read for themselves, whatever their numbers are. -/
theorem foldlM_addEnvLine (h : ∀ line ∈ lines, line.WellFormed) (k : Nat)
    (out : List (String × String)) :
    ((lines.map fun line => String.ofList (Str.dropCr line.text.toList)).zipIdx k).foldlM addEnvLine
      out = .ok ((assignments lines).foldl Assoc.overwrite out) := by
  induction lines generalizing k out with
  | nil => rfl
  | cons line lines ih =>
    obtain ⟨hline, h⟩ := List.forall_mem_cons.mp h
    have htrim : Str.trim (String.ofList (Str.dropCr line.text.toList)) = Str.trim line.text := by
      rw [Str.trim, Str.trim, String.toList_ofList, trimChars_dropCr]
    have hstep : addEnvLine out (String.ofList (Str.dropCr line.text.toList), k) =
        .ok (addEnvPair out line.pair) := by
      rw [addEnvLine, parseEnvLine_congr htrim, parseEnvLine_text hline]
      rfl
    rw [List.map_cons, List.zipIdx_cons, List.foldlM_cons, hstep]
    refine (ih h (k + 1) (addEnvPair out line.pair)).trans ?_
    cases line <;> rfl

theorem head?_trimChars {c : Char} (l : List Char) (hc : Str.isWhitespace c = false) :
    (Str.trimChars (c :: l)).head? = some c := by
  have hne : ¬ Str.isWhitespace c = true := by rw [hc]; exact Bool.false_ne_true
  rw [Str.trimChars, Str.trimStartChars, List.dropWhile_cons_of_neg hne]
  have hpre : Str.trimEndChars (c :: l) <+: c :: l := List.rdropWhile_prefix _ _
  cases htrim : Str.trimEndChars (c :: l) with
  | nil => exact absurd (List.rdropWhile_eq_nil_iff.mp htrim c List.mem_cons_self) hne
  | cons d r =>
    rw [htrim, List.cons_prefix_cons] at hpre
    rw [hpre.1, List.head?_cons]

/-- A byte order mark is no part of a name, no whitespace and no comment sign. -/
theorem mark_not_prefix {line : Line} (h : line.WellFormed) {mark : Char}
    (hvar : (isAsciiAlphanumeric mark || mark == '_') = false)
    (hblank : Str.isWhitespace mark = false) (hcomment : mark ≠ '#') (l : List Char) :
    line.text.toList ≠ mark :: l := by
  intro hlist
  cases line with
  | assign key value quoting =>
    obtain ⟨first, rest, hfirst⟩ := List.exists_cons_of_ne_nil (isWord_of_isValidVarName h.1).1
    rw [Line.text, toList_assign, hfirst, List.cons_append] at hlist
    exact notMem_key h.1 hvar (hfirst ▸ (List.cons.inj hlist).1 ▸ List.mem_cons_self)
  | skipped text =>
    have hhead := head?_trimChars l hblank
    rw [← hlist] at hhead
    cases h.2 with
    | inl hempty =>
      have hnil := congrArg String.toList hempty
      rw [Str.trim, String.toList_ofList] at hnil
      rw [Line.text, hnil] at hhead
      cases hhead
    | inr hhash =>
      rw [Str.startsWith, Str.trim, List.isPrefixOf_iff_prefix] at hhash
      obtain ⟨rest, hrest⟩ := hhash
      rw [Line.text, ← String.toList_ofList (l := Str.trimChars text.toList), ← hrest] at hhead
      exact hcomment (Option.some_inj.mp hhead).symm

/-- No file begins with a byte order mark. -/
theorem stripPrefix_fileText (h : ∀ line ∈ lines, line.WellFormed) :
    Str.stripPrefix (fileText lines) "\uFEFF" = none := by
  refine Str.stripPrefix_eq_none fun hpre => ?_
  have hmark : "\uFEFF".toList = ['\uFEFF'] := rfl
  rw [toList_fileText, hmark] at hpre
  cases lines with
  | nil => cases List.prefix_nil.mp hpre
  | cons line lines =>
    rw [List.map_cons, List.flatMap_cons, List.append_assoc, List.singleton_append] at hpre
    cases htext : line.text.toList with
    | nil =>
      rw [htext, List.nil_append, List.cons_prefix_cons] at hpre
      exact absurd hpre.1 (by decide)
    | cons c l =>
      rw [htext, List.cons_append, List.cons_prefix_cons] at hpre
      rw [← hpre.1] at htext
      exact mark_not_prefix (h line List.mem_cons_self) rfl rfl (by decide) l htext

theorem parseEnvFile_fileText (h : ∀ line ∈ lines, line.WellFormed) :
    parseEnvFile (fileText lines) = .ok ((assignments lines).foldl Assoc.overwrite []) := by
  have hlines : Str.lines (fileText lines) =
      lines.map fun line => String.ofList (Str.dropCr line.text.toList) := by
    have hread := Str.linesChars_unlines (l := lines.map fun line => line.text.toList) (fun l hl => by
      obtain ⟨line, hline, rfl⟩ := List.mem_map.mp hl
      exact newline_notMem_text (h line hline)) []
    rw [List.append_nil, ← toList_fileText] at hread
    rw [Str.lines, hread, Str.linesChars, Str.linesFrom, if_pos rfl, List.append_nil, List.map_map,
      List.map_map]
    rfl
  rw [parseEnvFile, stripPrefix_fileText h, Option.getD_none, hlines, foldlM_addEnvLine h]

end Files

section Accepted
variable {content : String} {pairs : List (String × String)}

theorem mem_trim {s : String} {c : Char} (h : c ∈ (Str.trim s).toList) : c ∈ s.toList := by
  rw [Str.trim, String.toList_ofList] at h
  exact (List.dropWhile_suffix _).subset ((List.rdropWhile_prefix _ _).subset h)

theorem mem_stripSurroundingQuotes {s : String} {c : Char}
    (h : c ∈ (stripSurroundingQuotes s).toList) : c ∈ s.toList := by
  rw [stripSurroundingQuotes, String.toList_ofList] at h
  have htrim : c ∈ Str.trimChars s.toList := by
    unfold stripQuoteChars at h
    split at h
    next first second rest hlist =>
      split at h
      · rw [hlist]
        exact .tail _ ((List.dropLast_prefix _).subset h)
      · exact h
    next => exact h
  exact mem_trim (by rw [Str.trim, String.toList_ofList]; exact htrim)

/-- A value is a part of its line. -/
theorem mem_value {idx : Nat} {raw : String} {pair : String × String} {c : Char}
    (h : parseEnvLine idx raw = .ok (some pair)) (hc : c ∈ pair.2.toList) : c ∈ raw.toList := by
  unfold parseEnvLine at h
  dsimp only at h
  rw [trim_stripSuffix] at h
  split at h
  · cases h
  · split at h
    · cases h
    · next key value hsplit =>
      split at h
      · cases h
        have hassign : c ∈ (Str.trim ((Str.stripPrefix (Str.trim raw) "export ").getD
            (Str.trim raw))).toList := by
          rw [Str.splitOnce_eq_some hsplit, String.toList_append, String.toList_append]
          exact List.mem_append_right _ (List.mem_append_right _ (mem_stripSurroundingQuotes hc))
        have hline := mem_trim hassign
        cases hexport : Str.stripPrefix (Str.trim raw) "export " with
        | none =>
          rw [hexport] at hline
          exact mem_trim hline
        | some rest =>
          rw [hexport] at hline
          refine mem_trim ?_
          rw [Str.stripPrefix_eq_some hexport, String.toList_append]
          exact List.mem_append_right _ hline
      · cases h

/-- The values of an accepted file stay on their lines. -/
theorem parseEnvFile_values (h : parseEnvFile content = .ok pairs) :
    ∀ p ∈ pairs, '\n' ∉ p.2.toList := by
  refine @Fallible.foldlM_trace _ _ _ addEnvLine
    (fun seen out => (∀ l ∈ seen, '\n' ∉ l.1.toList) → ∀ p ∈ out, '\n' ∉ p.2.toList)
    (fun seen out l out' hout hstep hseen p hp => ?_) _ [] _ _
    (fun _ p hp => absurd hp List.not_mem_nil) h (fun l hl => ?_)
  · obtain ⟨hfront, hlast⟩ := List.forall_mem_append.mp hseen
    obtain ⟨found, hl, rfl⟩ := Fallible.map_eq_ok.mp hstep
    cases found with
    | none => exact hout hfront p hp
    | some pair =>
      cases Assoc.value_mem_overwrite hp with
      | inl hvalue =>
        rw [hvalue]
        exact fun hmem => hlast l (List.mem_singleton_self l) (mem_value hl hmem)
      | inr hold => exact hout hfront p hold
  · obtain ⟨line, hline, htext⟩ := List.mem_map.mp (List.fst_mem_of_mem_zipIdx hl)
    rw [← htext, String.toList_ofList]
    exact Str.notMem_of_mem_linesFrom List.not_mem_nil hline

end Accepted

/-- A file of assignments in any style, between blank and comment lines, gives every key once, where
it first stands, with the value of its last line; and what was accepted can be written in double
quotes, and in whatever style it is written it is accepted as the same pairs. -/
theorem parseEnvFile_exact :
    (∀ lines : List Line, (∀ line ∈ lines, line.WellFormed) →
      ∃ pairs, parseEnvFile (fileText lines) = .ok pairs ∧
        Assoc.keys pairs = (Assoc.keys (assignments lines)).eraseDups ∧
        (Assoc.keys pairs).Nodup ∧
        ∀ key, pairs.lookup key = Assoc.last? key (assignments lines)) ∧
      ∀ content pairs, parseEnvFile content = .ok pairs →
        (∀ p ∈ pairs, (Line.assign p.1 p.2 .double).WellFormed) ∧
          ∀ lines : List Line, (∀ line ∈ lines, line.WellFormed) → assignments lines = pairs →
            parseEnvFile (fileText lines) = .ok pairs := by
  refine ⟨fun lines h => ?_, fun content pairs h => ⟨fun p hp => ?_, fun lines hlines hpairs => ?_⟩⟩
  · have hread := parseEnvFile_fileText h
    refine ⟨_, hread, Assoc.keys_foldl_overwrite _, parseEnvFile_nodup hread, fun key => ?_⟩
    rw [Assoc.lookup_foldl_overwrite, List.lookup_nil, Option.or_none]
  · exact ⟨parseEnvFile_keys h p hp, parseEnvFile_values h p hp, trivial⟩
  · rw [parseEnvFile_fileText hlines, hpairs,
      Assoc.foldl_overwrite_of_nodup (parseEnvFile_nodup h)]

end Shellflow.EnvRendered
