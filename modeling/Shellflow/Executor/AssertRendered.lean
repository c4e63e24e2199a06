import Shellflow.CredEnv.Template
import Shellflow.Executor.PortVerdict
import Shellflow.Lib.Bytes
import Shellflow.Lib.Ere

/-! `@assert_rendered`: the command searches a file on the target for placeholders with a regular
expression of its own, and the renderer scans the text for them byte by byte. -/
namespace Shellflow
open Shell

section Command

/-- The pattern as the command carries it. -/
def renderedPattern : String := "\\$\\\x7b[A-Z_][A-Z0-9_]*\\\x7d"

/-- The command of a `Rendered` check. -/
def renderedCommandText (path : String) : String :=
  "if sudo test -f " ++ shellQuoteSingle path ++ " && ! sudo grep -qE '" ++ renderedPattern ++
    "' " ++ shellQuoteSingle path ++ " 2>/dev/null; then echo " ++ shellQuoteSingle path ++
    "' is fully rendered'; else echo " ++ shellQuoteSingle path ++
    "' is missing or still carries unexpanded placeholders'; false; fi"

def testFile (path : String) : Cmd :=
  .simple [litWord "sudo", litWord "test", litWord "-f", .joined (quotedText path)]

def grepFile (pattern path : String) : Cmd :=
  .simple [litWord "sudo", litWord "grep", litWord "-qE", .joined [.single pattern],
    .joined (quotedText path)]

/-- A message behind a quoted value. -/
def echoQuoted (value text : String) : Cmd :=
  .simple [litWord "echo", .joined (quotedText value ++ [.single text])]

def renderedCommand (path : String) : Cmd :=
  .cond (.and (testFile path) (.not (.redirect (grepFile renderedPattern path) [.errNull])))
    (echoQuoted path " is fully rendered")
    (.seq (echoQuoted path " is missing or still carries unexpanded placeholders")
      (litWords ["false"]))

theorem render_renderedCommand (path : String) :
    (renderedCommand path).render = renderedCommandText path := by
  unfold renderedCommand renderedCommandText
  apply String.toList_inj.mp
  simp [testFile, grepFile, echoQuoted, litWords, litWord, Cmd.render, Word.render, renderSegs,
    Seg.render, renderWords, renderRedirs, Redir.render, renderSegs_append, render_quotedText]

end Command

section Language

/-- The first bracket list: a start of a name that is no lower-case letter. -/
def upperStart : Ere.Atom := .bracket [(0x41, 0x5a), (0x5f, 0x5f)]

def upperRest : Ere.Atom := .bracket [(0x41, 0x5a), (0x30, 0x39), (0x5f, 0x5f)]

/-- The pattern as the regular expression it is read as. -/
def renderedItems : List Ere.Item :=
  [⟨.byte 0x24, false⟩, ⟨.byte 0x7b, false⟩, ⟨upperStart, false⟩, ⟨upperRest, true⟩,
    ⟨.byte 0x7d, false⟩]

theorem parse_renderedPattern : Ere.parse renderedPattern = some renderedItems := by
  decide +kernel

def isLowerByte (b : UInt8) : Bool := 0x61 ≤ b && b ≤ 0x7a

def hasLower (key : Raw) : Bool := key.any isLowerByte

theorem upperStart_accepts (b : UInt8) :
    upperStart.accepts b = (isNameStart b && !isLowerByte b) := by
  rw [Bool.eq_iff_iff]
  simp only [upperStart, Ere.Atom.accepts, List.any_cons, List.any_nil, isNameStart, isLowerByte,
    Bool.or_eq_true, Bool.and_eq_true, Bool.not_eq_true', Bool.and_eq_false_iff,
    decide_eq_true_eq, decide_eq_false_iff_not, beq_iff_eq, UInt8.le_iff_toNat_le,
    ← UInt8.toNat_inj, UInt8.reduceToNat, Bool.false_eq_true, or_false]
  omega

theorem upperRest_accepts (b : UInt8) :
    upperRest.accepts b = (isNameByte b && !isLowerByte b) := by
  rw [Bool.eq_iff_iff]
  simp only [upperRest, Ere.Atom.accepts, List.any_cons, List.any_nil, isNameByte, isNameStart,
    isLowerByte, Bool.or_eq_true, Bool.and_eq_true, Bool.not_eq_true', Bool.and_eq_false_iff,
    decide_eq_true_eq, decide_eq_false_iff_not, beq_iff_eq, UInt8.le_iff_toNat_le,
    ← UInt8.toNat_inj, UInt8.reduceToNat, Bool.false_eq_true, or_false]
  omega

theorem isVarName_upper (b : UInt8) (run : Raw) :
    isVarName (b :: run) = true ∧ hasLower (b :: run) = false ↔
      upperStart.accepts b = true ∧ ∀ c ∈ run, upperRest.accepts c = true := by
  have hstart : isNameStart b = true → isNameByte b = true := fun h => by rw [isNameByte, h]; rfl
  simp only [upperStart_accepts, upperRest_accepts, isVarName, hasLower, List.head?_cons,
    Option.any_some, List.all_cons, List.any_cons, Bool.and_eq_true, Bool.or_eq_false_iff,
    Bool.not_eq_true', List.all_eq_true, List.any_eq_false, Bool.not_eq_true, forall_and]
  tauto

/-- The pattern finds the placeholders that the scanner finds, but for names in lower case. -/
theorem mem_language_rendered {w : Raw} :
    w ∈ Ere.language renderedItems ↔
      ∃ key, isVarName key = true ∧ hasLower key = false ∧ w = placeholder key := by
  simp only [renderedItems, Ere.mem_language_letter, Ere.mem_language_star, Ere.mem_language_nil]
  constructor
  · rintro ⟨dollar, _, hdollar, ⟨brace, _, hbrace, ⟨b, _, hb, ⟨run, _, hrun, ⟨close, _, hclose,
      rfl, rfl⟩, rfl⟩, rfl⟩, rfl⟩, rfl⟩
    obtain ⟨hname, hlower⟩ := (isVarName_upper b run).mpr ⟨hb, hrun⟩
    rw [eq_of_beq hdollar, eq_of_beq hbrace, eq_of_beq hclose]
    exact ⟨b :: run, hname, hlower, rfl⟩
  · rintro ⟨key, hname, hlower, rfl⟩
    cases key with
    | nil => cases hname
    | cons b run =>
      obtain ⟨hb, hrun⟩ := (isVarName_upper b run).mp ⟨hname, hlower⟩
      exact ⟨0x24, _, rfl, ⟨0x7b, _, rfl, ⟨b, _, hb, ⟨run, _, hrun, ⟨0x7d, _, rfl, rfl, rfl⟩,
        rfl⟩, rfl⟩, rfl⟩, rfl⟩

/-- The search of the command, for any file. -/
theorem grep_rendered (content : Raw) :
    Ere.grep renderedItems content = true ↔
      ∃ key, isVarName key = true ∧ hasLower key = false ∧ placeholder key <:+: content := by
  have hwords : ∀ w ∈ Ere.language renderedItems, w ≠ [] ∧ Ere.newline ∉ w := by
    intro w hw
    obtain ⟨key, hname, -, rfl⟩ := mem_language_rendered.mp hw
    exact ⟨placeholder_ne_nil key, notMem_placeholder hname (by decide) (by decide)⟩
  rw [Ere.grep_iff hwords]
  constructor
  · rintro ⟨w, hw, hinfix⟩
    obtain ⟨key, hname, hlower, rfl⟩ := mem_language_rendered.mp hw
    exact ⟨key, hname, hlower, hinfix⟩
  · rintro ⟨key, hname, hlower, hinfix⟩
    exact ⟨placeholder key, mem_language_rendered.mpr ⟨key, hname, hlower, rfl⟩, hinfix⟩

end Language

section Verdict
variable {W : Type*} {tools : Tools W} {files : W → String → Option Raw} {i : String}
  {s : Shell.State W}

/-- The two programs of the check: `test -f` looks for a file and `grep -qE` searches its lines. -/
structure FileTools (tools : Tools W) (files : W → String → Option Raw) : Prop where
  found : ∀ path content input w, files w path = some content →
    (tools ["sudo", "test", "-f", path] input w).status = 0
  steady : ∀ path input w, files (tools ["sudo", "test", "-f", path] input w).world = files w
  /-- An operand that starts with a slash is no option. -/
  search : ∀ pattern items path content input w, Ere.parse pattern = some items →
    Str.startsWith path "/" = true → files w path = some content →
    (tools ["sudo", "grep", "-qE", pattern, path] input w).status =
      statusOf (Ere.grep items content)

theorem testFile_ends (h : FileTools tools files) (hs : NoFuns s) {path : String} {content : Raw}
    (hfile : files s.world path = some content) :
    Ends tools (testFile path) i s fun o => o.flow = .next ∧ o.state.status = 0 ∧
      NoFuns o.state ∧ files o.state.world = files s.world := by
  have hwords : expandWords (eval tools 0) i
      [litWord "sudo", litWord "test", litWord "-f", .joined (quotedText path)] s =
      some ⟨["sudo", "test", "-f", path], s.world, [], none⟩ := by
    simp only [expandWords, expandText_quotedText]
    simp [litWord, expandText, expandSegs, expandSeg, Expansion.join, Word.fields,
      Shell.State.setWorld]
  have hrun : runSimple tools (eval tools 0) ["sudo", "test", "-f", path] i s =
      some (runTool tools ["sudo", "test", "-f", path] i s) :=
    runSimple_plain (by decide) (hs "sudo")
  exact Ends.plain hwords hrun ⟨rfl, h.found path content i _ hfile, hs, h.steady path i _⟩

theorem grepFile_ends (h : FileTools tools files) (hs : NoFuns s) {pattern path : String}
    {items : List Ere.Item} {content : Raw} (hpattern : Ere.parse pattern = some items)
    (hpath : Str.startsWith path "/" = true) (hfile : files s.world path = some content) :
    Ends tools (grepFile pattern path) i s fun o => o.flow = .next ∧ NoFuns o.state ∧
      o.state.status = statusOf (Ere.grep items content) := by
  have hwords : expandWords (eval tools 0) i [litWord "sudo", litWord "grep", litWord "-qE",
        .joined [.single pattern], .joined (quotedText path)] s =
      some ⟨["sudo", "grep", "-qE", pattern, path], s.world, [], none⟩ := by
    simp only [expandWords, expandText_quotedText]
    simp [litWord, expandText, expandSegs, expandSeg, Expansion.join, Word.fields,
      Shell.State.setWorld]
  have hrun : runSimple tools (eval tools 0) ["sudo", "grep", "-qE", pattern, path] i s =
      some (runTool tools ["sudo", "grep", "-qE", pattern, path] i s) :=
    runSimple_plain (by decide) (hs "sudo")
  exact Ends.plain hwords hrun ⟨rfl, hs, h.search pattern items path content i _ hpattern hpath hfile⟩

theorem echoQuoted_ends (hs : NoFuns s) (value text : String) :
    Ends tools (echoQuoted value text) i s fun o => o.flow = .next ∧ NoFuns o.state ∧
      o.state.status = 0 := by
  have hwords : expandWords (eval tools 0) i
      [litWord "echo", .joined (quotedText value ++ [.single text])] s =
      some ⟨["echo", value ++ text], s.world, [], none⟩ := by
    simp only [expandWords, expandText, expandSegs_quotedText]
    simp [litWord, expandSegs, expandSeg, Expansion.join, Word.fields, Shell.State.setWorld]
  have hrun : runSimple tools (eval tools 0) ["echo", value ++ text] i s =
      some (runPlain tools "echo" [value ++ text] i s) := runSimple_plain (by decide) (hs "echo")
  exact Ends.plain hwords hrun ⟨rfl, hs, rfl⟩

/-- The verdict of the command is the verdict of its search, turned around. -/
theorem renderedCommand_ends (h : FileTools tools files) (hs : NoFuns s) {path : String}
    {content : Raw} (hpath : Str.startsWith path "/" = true)
    (hfile : files s.world path = some content) :
    Ends tools (renderedCommand path) i s fun o =>
      o.state.status = statusOf (!Ere.grep renderedItems content) := by
  have hsearch : Ends tools (.and (testFile path)
      (.not (.redirect (grepFile renderedPattern path) [.errNull]))) i s fun o =>
        o.flow = .next ∧ NoFuns o.state ∧
          o.state.status = statusOf (!Ere.grep renderedItems content) := by
    refine Ends.and_true ((testFile_ends h hs hfile).weaken fun o ho => ?_)
    obtain ⟨hflow, hzero, hs', hfiles⟩ := ho
    rw [← hfiles] at hfile
    refine ⟨hflow, hzero, Ends.not (Ends.redirect ?_)⟩
    refine (grepFile_ends h hs' parse_renderedPattern hpath hfile).weaken fun r hr => ?_
    obtain ⟨hflow', hs'', hstatus⟩ := hr
    refine ⟨hflow', hflow', hs'', ?_⟩
    cases hgrep : Ere.grep renderedItems content <;> simp [Shell.State.setStatus, hstatus, hgrep, statusOf]
  refine Ends.cond (hsearch.weaken fun o ho => ?_)
  obtain ⟨hflow, hs', hstatus⟩ := ho
  refine ⟨hflow, ?_⟩
  cases hgrep : Ere.grep renderedItems content with
  | false =>
    rw [hgrep] at hstatus
    have hzero : o.state.status = 0 := hstatus
    rw [if_pos hzero]
    exact (echoQuoted_ends hs' _ _).weaken fun r hr => hr.2.2
  | true =>
    rw [hgrep] at hstatus
    have hne : o.state.status ≠ 0 := by rw [hstatus]; decide
    rw [if_neg hne]
    refine Ends.seq ((echoQuoted_ends hs' _ _).weaken fun r hr => ⟨hr.1, ?_⟩)
    have hfalse : runSimple tools (eval tools 0) ["false"] i r.state =
        some (finish r.state 1 []) := runSimple_plain (by decide) (hr.2.1 "false")
    refine (litWords_ends hfalse).weaken fun q hq => ?_
    subst hq
    rfl

/-- A placeholder of the text whose name has, or has not, a lower-case letter. -/
def HasPlaceholder (lower : Bool) (content : Raw) : Prop :=
  ∃ key, isVarName key = true ∧ hasLower key = lower ∧ placeholder key <:+: content

theorem templateKeys_eq_nil_iff (content : Raw) :
    templateKeys content = [] ↔ ∀ lower, ¬HasPlaceholder lower content := by
  rw [List.eq_nil_iff_forall_not_mem]
  constructor
  · rintro h lower ⟨key, hname, -, hinfix⟩
    exact h key (mem_templateKeys.mpr (mem_refs.mpr ⟨hname, hinfix⟩))
  · intro h key hkey
    obtain ⟨hname, hinfix⟩ := mem_refs.mp (mem_templateKeys.mp hkey)
    exact h (hasLower key) ⟨key, hname, rfl, hinfix⟩

/-- The section of a `Rendered` check reports what the search of the file finds. -/
theorem renderedCommand_reports (h : FileTools tools files) (b : Batch) (idx : Nat) (hs : NoFuns s)
    (path : String) {content : Raw} (hpath : Str.startsWith path "/" = true)
    (hfile : files s.world path = some content) :
    Reports tools b (checkId idx) (renderedCommand path) i s
      (statusOf (!Ere.grep renderedItems content) : Nat) := by
  refine reports_of_ends b (newline_notMem_checkId idx) ?_ hs
    (renderedCommand_ends h hs hpath hfile)
  cases Ere.grep renderedItems content <;> decide

theorem renderedCommand_passes (h : FileTools tools files) (b : Batch) (idx : Nat) (hs : NoFuns s)
    {path : String} {content : Raw} (hpath : Str.startsWith path "/" = true)
    (hfile : files s.world path = some content) :
    Reports tools b (checkId idx) (renderedCommand path) i s 0 ↔ ¬HasPlaceholder false content := by
  have hreport := renderedCommand_reports (i := i) h b idx hs path hpath hfile
  rw [HasPlaceholder, ← grep_rendered content, Bool.not_eq_true]
  cases hgrep : Ere.grep renderedItems content with
  | false =>
    rw [hgrep] at hreport
    simp only [iff_true]
    exact hreport
  | true =>
    rw [hgrep] at hreport
    refine ⟨fun hzero => absurd (hzero.unique hreport) (by decide), fun h => by cases h⟩

/-- The check agrees with the scanner unless the only placeholders left have names with
lower-case letters. -/
theorem assertRendered_agrees_iff (h : FileTools tools files) (b : Batch) (idx : Nat)
    (hs : NoFuns s) (path : String) (content : Raw) (hpath : Str.startsWith path "/" = true)
    (hfile : files s.world path = some content) :
    (∃ rc, Reports tools b (checkId idx) (renderedCommand path) i s rc) ∧
      ((Reports tools b (checkId idx) (renderedCommand path) i s 0 ↔ templateKeys content = []) ↔
        (HasPlaceholder true content → HasPlaceholder false content)) := by
  refine ⟨⟨_, renderedCommand_reports h b idx hs path hpath hfile⟩, ?_⟩
  rw [renderedCommand_passes h b idx hs hpath hfile, templateKeys_eq_nil_iff, Bool.forall_bool]
  tauto

section Example

/-- A target with files and nothing else. -/
def fileTools : Tools (String → Option Raw) := fun argv _ files =>
  match argv with
  | ["sudo", "test", "-f", path] => ⟨files, [], statusOf (files path).isSome⟩
  | ["sudo", "grep", "-qE", pattern, path] =>
    match Ere.parse pattern, files path with
    | some items, some content => ⟨files, [], statusOf (Ere.grep items content)⟩
    | _, _ => ⟨files, [], 2⟩
  | _ => ⟨files, [], 127⟩

theorem fileTools_spec : FileTools fileTools id where
  found := fun path content _ files hfile => by
    simp only [id] at hfile
    simp [fileTools, hfile, statusOf]
  steady := fun _ _ _ => rfl
  search := fun pattern items path content _ files hparse _ hfile => by
    simp only [id] at hfile
    simp [fileTools, hparse, hfile]

/-- A file with one placeholder left. -/
def oneFile (key : String) : String → Option Raw :=
  fun _ => some (placeholder (Bytes.encode key.toList))

end Example

theorem assertRendered_agrees_upper :
    (∃ rc, Reports fileTools (Batch.new 7 9) (checkId 0) (renderedCommand "/run/app.conf") ""
        (startShell (oneFile "PASS")) rc) ∧
      ((Reports fileTools (Batch.new 7 9) (checkId 0) (renderedCommand "/run/app.conf") ""
          (startShell (oneFile "PASS")) 0 ↔
        templateKeys (placeholder (Bytes.encode "PASS".toList)) = []) ↔
        (HasPlaceholder true (placeholder (Bytes.encode "PASS".toList)) →
          HasPlaceholder false (placeholder (Bytes.encode "PASS".toList)))) :=
  assertRendered_agrees_iff fileTools_spec (Batch.new 7 9) 0 (fun _ => rfl) "/run/app.conf"
    (placeholder (Bytes.encode "PASS".toList)) (by decide) rfl

/-- A placeholder in lower case is left, and the check passes. -/
theorem assertRendered_passes_a_placeholder :
    ¬ (Reports fileTools (Batch.new 7 9) (checkId 0) (renderedCommand "/run/app.conf") ""
        (startShell (oneFile "pass")) 0 ↔
      templateKeys (placeholder (Bytes.encode "pass".toList)) = []) := by
  intro h
  have hreport := renderedCommand_reports (i := "") fileTools_spec (Batch.new 7 9) 0
    (s := startShell (oneFile "pass")) (fun _ => rfl) "/run/app.conf" (by decide) rfl
  have hgrep : Ere.grep renderedItems (placeholder (Bytes.encode "pass".toList)) = false := by
    decide +kernel
  rw [hgrep] at hreport
  have hkeys := h.mp hreport
  revert hkeys
  decide +kernel

end Verdict

end Shellflow
