import Shellflow.Text
import Shellflow.Lib.ShellRules

/-! One round trip, many queries: the framed script of a batch, and what one section of it
reports for the command it wraps. -/
namespace Shellflow
open Shell

/-- The text of `:x`. -/
def hex (n : Nat) : String := String.ofList (Nat.toDigits 16 n)

theorem isAsciiHexdigit_of_mem_toDigits {n : Nat} {c : Char} (h : c ∈ Nat.toDigits 16 n) :
    isAsciiHexdigit c = true := by
  induction n using Nat.strong_induction_on with
  | _ n ih =>
    have hdigit : ∀ d < 16, isAsciiHexdigit (Nat.digitChar d) = true := by decide
    rw [Nat.toDigits_eq_if (by decide)] at h
    split at h
    · next hn =>
      rw [List.mem_singleton] at h
      exact h ▸ hdigit n hn
    · next hn =>
      rw [List.mem_append, List.mem_singleton] at h
      cases h with
      | inl h => exact ih (n / 16) (by omega) h
      | inr h => exact h ▸ hdigit (n % 16) (by omega)

/-- A framed batch; the token in its markers is hexadecimal. -/
structure Batch where
  script : String
  nonce : String
  count : Nat
  nonce_hex : ∀ c ∈ nonce.toList, isAsciiHexdigit c = true

namespace Batch

/-- The token names the process and the time. -/
def new (pid nanos : Nat) : Batch where
  script := "set +e\n"
  nonce := hex pid ++ hex nanos
  count := 0
  nonce_hex := by
    intro c hc
    rw [String.toList_append, List.mem_append, hex, hex, String.toList_ofList,
      String.toList_ofList] at hc
    cases hc with
    | inl h => exact isAsciiHexdigit_of_mem_toDigits h
    | inr h => exact isAsciiHexdigit_of_mem_toDigits h

def beg (b : Batch) (id : String) : String := "__SFW_" ++ (b.nonce ++ ("_B_" ++ id))

def fin (b : Batch) (id : String) : String := "__SFW_" ++ (b.nonce ++ ("_E_" ++ id))

/-- The line that runs one query, with its stdin closed and its two streams merged. -/
def sectionLine (b : Batch) (id cmd : String) : String :=
  "out=$(\x7b " ++ cmd ++ "; \x7d </dev/null 2>&1); rc=$?; printf '%s %s\\n' '" ++ b.beg id ++
    "' \"$rc\"; printf '%s\\n' \"$out\"; printf '%s\\n' '" ++ b.fin id ++ "'\n"

def «section» (b : Batch) (id cmd : String) : Batch :=
  { b with script := b.script ++ b.sectionLine id cmd, count := b.count + 1 }

/-- A begin marker: the id and the status it reports. -/
def matchBegin (b : Batch) (line : String) : Option (String × Int) :=
  (Str.stripPrefix line ("__SFW_" ++ (b.nonce ++ "_B_"))).bind fun rest =>
    (Str.rsplitOnceChar rest ' ').bind fun p => (Str.parseI32 p.2).map fun rc => (p.1, rc)

end Batch

section Section

def litWord (text : String) : Word := .joined [.lit text]

def quotedVar (name : String) : Word := .joined [.double [.var name]]

/-- The word that `quote` writes for a text. -/
def quotedText (value : String) : List Seg := quoteSegs [] value.toList

theorem render_quoteSegs (cur s : List Char) :
    renderSegs (quoteSegs cur s) =
      "'" ++ (String.ofList cur ++ String.ofList (shellQuoteSingleChars s)) := by
  induction s generalizing cur with
  | nil => simp [quoteSegs, shellQuoteSingleChars, renderSegs, Seg.render]
  | cons c s ih =>
    rw [quoteSegs, shellQuoteSingleChars]
    split
    · apply String.toList_inj.mp
      simp [renderSegs, Seg.render, ih]
    · rw [ih]
      apply String.toList_inj.mp
      simp

theorem render_quotedText (value : String) :
    renderSegs (quotedText value) = shellQuoteSingle value := by
  rw [quotedText, render_quoteSegs]
  apply String.toList_inj.mp
  simp [shellQuoteSingle]

theorem renderSegs_append (a b : List Seg) : renderSegs (a ++ b) = renderSegs a ++ renderSegs b := by
  induction a with
  | nil => simp [renderSegs]
  | cons g a ih => simp [renderSegs, ih, String.append_assoc]

/-- A part that runs no command, in front of other parts of its word. -/
theorem expandSegs_plain {W : Type*} {ev : Eval W} {i : String} {g : Seg} {st : Shell.State W}
    {text : String} (h : expandSeg ev i g st = some ⟨text, st.world, [], none⟩) (segs : List Seg) :
    expandSegs ev i (g :: segs) st =
      (expandSegs ev i segs st).map fun e => { e with text := text ++ e.text } := by
  rw [expandSegs, h, Option.bind_some, State.setWorld_self]
  congr 1
  funext e
  simp [Expansion.join]

theorem expandSegs_quoteSegs {W : Type*} (ev : Eval W) (i : String) (cur s : List Char)
    (segs : List Seg) (st : Shell.State W) :
    expandSegs ev i (quoteSegs cur s ++ segs) st =
      (expandSegs ev i segs st).map fun e => { e with text := String.ofList (cur ++ s) ++ e.text } := by
  induction s generalizing cur with
  | nil => rw [quoteSegs, List.singleton_append, expandSegs_plain rfl, List.append_nil]
  | cons c s ih =>
    rw [quoteSegs]
    split
    · next hc =>
      subst hc
      rw [List.cons_append, List.cons_append, expandSegs_plain rfl, expandSegs_plain rfl, ih,
        Option.map_map, Option.map_map]
      congr 1
      funext e
      have htext : String.ofList cur ++ (String.singleton '\'' ++
          (String.ofList ([] ++ s) ++ e.text)) = String.ofList (cur ++ '\'' :: s) ++ e.text := by
        apply String.toList_inj.mp
        simp
      dsimp only [Function.comp_apply]
      rw [htext]
    · rw [ih, List.append_assoc, List.singleton_append]

/-- A quoted text is itself, in front of other parts of its word. -/
theorem expandSegs_quotedText {W : Type*} (ev : Eval W) (i value : String) (segs : List Seg)
    (st : Shell.State W) :
    expandSegs ev i (quotedText value ++ segs) st =
      (expandSegs ev i segs st).map fun e => { e with text := value ++ e.text } := by
  rw [quotedText, expandSegs_quoteSegs, List.nil_append, String.ofList_toList]

theorem expandText_quotedText {W : Type*} (ev : Eval W) (i value : String) (st : Shell.State W) :
    expandText ev i (.joined (quotedText value)) st = some ⟨value, st.world, [], none⟩ := by
  have h := expandSegs_quotedText ev i value [] st
  rw [List.append_nil] at h
  simp [expandText, h, expandSegs]

def printfCmd (format : String) (args : List Word) : Cmd :=
  .simple (litWord "printf" :: .joined [.single format] :: args)

/-- The three lines a section prints once its query has run. -/
def reportCmd (b : Batch) (id : String) : Cmd :=
  .seq (printfCmd "%s %s\\n" [.joined [.single (b.beg id)], quotedVar "rc"])
    (.seq (printfCmd "%s\\n" [quotedVar "out"])
      (printfCmd "%s\\n" [.joined [.single (b.fin id)]]))

/-- The line of a section, read as a command of the shell. -/
def sectionCmd (b : Batch) (id : String) (cmd : Cmd) : Cmd :=
  .seq (.assign "out" (.bare (.subst (.redirect (.group cmd) [.stdinNull, .errToOut]))))
    (.seq (.assign "rc" (.bare .status))
      (reportCmd b id))

theorem render_sectionCmd (b : Batch) (id : String) (cmd : Cmd) :
    (sectionCmd b id cmd).render ++ "\n" = b.sectionLine id cmd.render := by
  apply String.toList_inj.mp
  simp [sectionCmd, reportCmd, Batch.sectionLine, printfCmd, quotedVar, litWord, Cmd.render, Word.render,
    Part.render, renderSegs, Seg.render, renderWords, renderParts, renderRedirs, Redir.render]

variable {W : Type*} {tools : Tools W} {i : String} {s : Shell.State W}

/-- No name of a program is taken by a function. -/
def NoFuns (s : Shell.State W) : Prop := ∀ f, s.funs f = none

theorem printfCmd_ends (format : String) {args : List Word} {argv : List String}
    {s : Shell.State W} (hs : NoFuns s)
    (hargs : expandWords (eval tools 0) i args s = some ⟨argv, s.world, [], none⟩) :
    Ends tools (printfCmd format args) i s fun o =>
      o = finish s 0 [(.out, printf format argv)] := by
  have hwords : expandWords (eval tools 0) i (litWord "printf" :: .joined [.single format] :: args)
      s = some ⟨"printf" :: format :: argv, s.world, [], none⟩ := by
    simp [litWord, expandWords, expandText, expandSegs, expandSeg, Expansion.join, Word.fields,
      hargs]
  refine Ends.plain hwords ?_ rfl
  simp [runSimple, hs "printf", runPlain]

/-- The markers frame whatever the query printed. -/
theorem reportCmd_ends (b : Batch) (id : String) {s : Shell.State W} (hs : NoFuns s) :
    Ends tools (reportCmd b id) i s fun o => o.flow = .next ∧ o.state = s.setStatus 0 ∧
      textOf .out o.out =
        b.beg id ++ (" " ++ ((s.vars "rc").getD "" ++ ("\n" ++
          ((s.vars "out").getD "" ++ ("\n" ++ (b.fin id ++ "\n")))))) := by
  have hbeg : Ends tools (printfCmd "%s %s\\n" [.joined [.single (b.beg id)], quotedVar "rc"]) i s
      fun o => o = finish s 0 [(.out, printf "%s %s\\n" [b.beg id, (s.vars "rc").getD ""])] := by
    refine printfCmd_ends _ hs ?_
    simp [quotedVar, expandWords, expandText, expandSegs, expandSeg, expandParts, expandPart,
      Expansion.join, Word.fields]
  have hbody : Ends tools (printfCmd "%s\\n" [quotedVar "out"]) i (s.setStatus 0)
      fun o => o = finish s 0 [(.out, printf "%s\\n" [(s.vars "out").getD ""])] := by
    refine printfCmd_ends _ hs ?_
    simp [quotedVar, expandWords, expandText, expandSegs, expandSeg, expandParts, expandPart,
      Expansion.join, Word.fields, Shell.State.setStatus]
  have hfin : Ends tools (printfCmd "%s\\n" [.joined [.single (b.fin id)]]) i (s.setStatus 0)
      fun o => o = finish s 0 [(.out, printf "%s\\n" [b.fin id])] := by
    refine printfCmd_ends _ hs ?_
    simp [expandWords, expandText, expandSegs, expandSeg, Expansion.join, Word.fields]
  refine Ends.seq (hbeg.weaken fun o ho => ?_)
  subst ho
  refine ⟨rfl, Ends.seq (hbody.weaken fun o ho => ?_)⟩
  subst ho
  refine ⟨rfl, hfin.weaken fun o ho => ?_⟩
  subst ho
  refine ⟨rfl, rfl, ?_⟩
  simp [finish, Outcome.after, textOf, printf_line, printf_pair, String.append_assoc]

/-- What a shell keeps between two sections, apart from the two variables they assign. -/
structure Kept (s t : Shell.State W) : Prop where
  funs : t.funs = s.funs
  vars : ∀ x, x ≠ "out" → x ≠ "rc" → t.vars x = s.vars x

/-- A section reports the status of its command in its first line. -/
theorem sectionCmd_ends (b : Batch) (id : String) {cmd : Cmd} {k : Nat} (hs : NoFuns s)
    (h : Ends tools cmd "" s fun o => o.state.status = k) :
    Ends tools (sectionCmd b id cmd) i s fun o => Kept s o.state ∧
      ∃ rest, textOf .out o.out = b.beg id ++ (" " ++ (toString k ++ ("\n" ++ rest))) := by
  have hout : Ends tools
      (.assign "out" (.bare (.subst (.redirect (.group cmd) [.stdinNull, .errToOut])))) i s
      fun o => o.flow = .next ∧ o.state.status = k ∧ o.state.funs = s.funs ∧
        (∀ x, x ≠ "out" → o.state.vars x = s.vars x) ∧ textOf .out o.out = "" := by
    refine Ends.assign_subst (Ends.redirect (Ends.group (h.weaken fun o ho => ?_)))
    exact ⟨rfl, ho, rfl, fun x hx => if_neg hx, textOf_dropStream _ _⟩
  refine Ends.seq (hout.weaken fun o ho => ?_)
  obtain ⟨hflow, hk, hfuns, hvars, hnil⟩ := ho
  have hrc : Ends tools (.assign "rc" (.bare .status)) i o.state fun r =>
      r = finish (o.state.setVar "rc" (toString k)) 0 [] :=
    Ends.assign (n := 0) rfl (by rw [hk]; rfl)
  refine ⟨hflow, Ends.seq (hrc.weaken fun r hr => ?_)⟩
  subst hr
  have hnone : NoFuns ((o.state.setVar "rc" (toString k)).setStatus 0) := by
    intro f
    exact (congrFun hfuns f).trans (hs f)
  refine ⟨rfl, (reportCmd_ends b id hnone).weaken fun q hq => ?_⟩
  obtain ⟨-, hstate, htext⟩ := hq
  have hfirst : textOf .out ((q.after []).after o.out).out =
      b.beg id ++ (" " ++ (toString k ++ ("\n" ++
        ((o.state.vars "out").getD "" ++ ("\n" ++ (b.fin id ++ "\n")))))) := by
    rw [Outcome.after_out, textOf_append, hnil, String.empty_append, Outcome.after_nil, htext]
    rfl
  refine ⟨⟨?_, fun x hx hx' => ?_⟩, _, hfirst⟩
  · rw [Outcome.after_state, Outcome.after_state, hstate]
    exact hfuns
  · rw [Outcome.after_state, Outcome.after_state, hstate]
    exact (if_neg hx').trans (hvars x hx)

/-- The first line of a section's answer is its begin marker, with this id and status. -/
def Reports (tools : Tools W) (b : Batch) (id : String) (cmd : Cmd) (i : String) (s : Shell.State W)
    (rc : Int) : Prop :=
  Ends tools (sectionCmd b id cmd) i s fun o =>
    (Str.lines (textOf .out o.out)).head?.bind b.matchBegin = some (id, rc)

theorem Reports.unique {b : Batch} {id : String} {cmd : Cmd} {rc rc' : Int}
    (h : Reports tools b id cmd i s rc) (h' : Reports tools b id cmd i s rc') : rc = rc' := by
  obtain ⟨n, o, -, ho, ho'⟩ := Ends.unique h h'
  rw [ho, Option.some_inj, Prod.mk.injEq] at ho'
  exact ho'.2

theorem isDigit_ne {c d : Char} (hc : c.isDigit = true) (hd : d.isDigit = false) : c ≠ d := by
  rintro rfl
  rw [hc] at hd
  cases hd

theorem parseI32_digits {ds : List Char} (hne : ds ≠ []) (hdigit : ∀ c ∈ ds, c.isDigit = true)
    {k : Nat} (hvalue : Str.digitsValue 10 0 ds = some k) (hk : k < 2147483648) :
    Str.parseI32 (String.ofList ds) = some (k : Int) := by
  cases ds with
  | nil => exact absurd rfl hne
  | cons c l =>
    have hc : c.isDigit = true := hdigit c List.mem_cons_self
    have hminus : c ≠ '-' := isDigit_ne hc rfl
    have hplus : c ≠ '+' := isDigit_ne hc rfl
    unfold Str.parseI32
    rw [String.toList_ofList]
    split
    · next h => exact absurd (List.cons.inj h).1 hminus
    · have hunsigned : Str.parseUnsignedChars 10 2147483648 (c :: l) = some k := by
        simp only [Str.parseUnsignedChars, List.head?_cons, Option.some_inj, hplus, if_false,
          List.isEmpty_cons, hvalue, Option.filter_some, decide_eq_true hk, if_true,
          Bool.false_eq_true]
      rw [hunsigned, Option.map_some]
      rfl

/-- A marker whose status has some digits. -/
theorem matchBegin_digits (b : Batch) (id : String) {ds : List Char} (hne : ds ≠ [])
    (hdigit : ∀ c ∈ ds, c.isDigit = true) {k : Nat} (hvalue : Str.digitsValue 10 0 ds = some k)
    (hk : k < 2147483648) :
    b.matchBegin (b.beg id ++ (" " ++ String.ofList ds)) = some (id, (k : Int)) := by
  have htext : b.beg id ++ (" " ++ String.ofList ds) =
      ("__SFW_" ++ (b.nonce ++ "_B_")) ++ (id ++ (String.singleton ' ' ++ String.ofList ds)) := by
    simp only [Batch.beg, String.append_assoc]
    rfl
  have hspace : ' ' ∉ (String.ofList ds).toList := by
    intro h
    rw [String.toList_ofList] at h
    exact isDigit_ne (hdigit _ h) rfl rfl
  rw [Batch.matchBegin, htext, Str.stripPrefix_append, Option.bind_some,
    Str.rsplitOnceChar_append _ _ hspace, Option.bind_some, parseI32_digits hne hdigit hvalue hk,
    Option.map_some]

theorem matchBegin_beg (b : Batch) (id : String) {k : Nat} (hk : k < 2147483648) :
    b.matchBegin (b.beg id ++ (" " ++ toString k)) = some (id, (k : Int)) := by
  have h := matchBegin_digits b id (Str.toString_toList_ne_nil k) (fun c => Str.isDigit_of_mem_toString)
    (Str.digitsValue_toString k) hk
  rwa [String.ofList_toList] at h

/-- The status a query ends with is the status its section reports. -/
theorem reports_of_ends (b : Batch) {id : String} {cmd : Cmd} {k : Nat} (hid : '\n' ∉ id.toList)
    (hk : k < 2147483648) (hs : NoFuns s) (h : Ends tools cmd "" s fun o => o.state.status = k) :
    Reports tools b id cmd i s k := by
  refine (sectionCmd_ends b id hs h).weaken fun o ho => ?_
  obtain ⟨-, rest, htext⟩ := ho
  have hline : '\n' ∉ (b.beg id ++ (" " ++ toString k)).toList := by
    simp only [Batch.beg, String.toList_append, List.mem_append, not_or]
    refine ⟨⟨by decide, fun h => ?_, by decide, hid⟩, by decide, fun h => ?_⟩
    · exact absurd (b.nonce_hex _ h) (by decide)
    · exact isDigit_ne (Str.isDigit_of_mem_toString h) rfl rfl
  have hlast : (b.beg id ++ (" " ++ toString k)).toList.getLast? ≠ some '\r' := by
    intro h
    rw [String.toList_append, String.toList_append, List.getLast?_append, List.getLast?_append]
      at h
    cases hrc : (toString k).toList.getLast? with
    | none =>
      rw [List.getLast?_eq_none_iff, Nat.toString_eq_repr, Nat.toList_repr] at hrc
      exact Nat.toDigits_ne_nil hrc
    | some c =>
      rw [hrc, Option.some_or, Option.some_or, Option.some_inj] at h
      exact isDigit_ne (Str.isDigit_of_mem_toString (List.mem_of_getLast? hrc)) rfl h
  have hsplit : textOf .out o.out = (b.beg id ++ (" " ++ toString k)) ++ ("\n" ++ rest) := by
    rw [htext]
    simp only [String.append_assoc]
  rw [hsplit, Str.lines_head _ _ hline hlast, Option.bind_some, matchBegin_beg b id hk]

end Section

end Shellflow
