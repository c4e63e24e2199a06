import Shellflow.Executor.AssertHealth
import Shellflow.Executor.PortVerdict
import Shellflow.Lib.Fallible
import Shellflow.Lib.ShellHangs

/-! What a health check reports. The quotes around its expansions are escaped, so no answer is
accepted and the deadline is compared with a text that is no number: the wait never ends. -/
namespace Shellflow
open Shell

/-- The program a target has for its probes. -/
inductive Prober
  | curl
  | wget
  | neither
deriving DecidableEq, Repr

/-- How often the URL was polled and the clock was read. -/
structure HealthWorld where
  polled : Nat
  read : Nat
deriving DecidableEq, Repr

def ThreeDigits (code : String) : Prop :=
  code.toList.length = 3 ∧ ∀ c ∈ code.toList, c.isDigit = true

/-- A target, the codes that the URL answers with and the readings of its clock. -/
structure HealthTarget where
  prober : Prober
  codes : Nat → String
  clock : Nat → Nat
  threeDigits : ∀ n, ThreeDigits (codes n)
  monotone : ∀ n, clock n ≤ clock (n + 1)

namespace HealthTarget

/-- `curl` prints the code, `wget` succeeds on a 2xx, and `[` without two numbers is an error. -/
def tools (t : HealthTarget) : Tools HealthWorld := fun argv _ w =>
  match argv with
  | ["date", "+%s"] => ⟨{ w with read := w.read + 1 }, [(.out, toString (t.clock w.read) ++ "\n")], 0⟩
  | ["command", "-v", "curl"] => ⟨w, [], statusOf (t.prober = .curl)⟩
  | ["command", "-v", "wget"] => ⟨w, [], statusOf (t.prober = .wget)⟩
  | "curl" :: _ => ⟨{ w with polled := w.polled + 1 }, [(.out, t.codes w.polled)], 0⟩
  | "wget" :: _ =>
    ⟨{ w with polled := w.polled + 1 }, [], statusOf (Str.startsWith (t.codes w.polled) "2")⟩
  | "[" :: _ => ⟨w, [(.err, "[: integer expression expected\n")], 2⟩
  | _ => ⟨w, [], 0⟩

/-- What the probe of round `n` prints. -/
def printed (t : HealthTarget) (n : Nat) : String :=
  match t.prober with
  | .curl => t.codes n
  | .wget => if Str.startsWith (t.codes n) "2" then "200" else "000"
  | .neither => "000"

end HealthTarget

/-- A class denotes the codes that start with its digit, a code itself. -/
def statusDenotes (pattern code : String) : Bool :=
  match pattern.toList with
  | [c, 'x', 'x'] => code.toList.head? == some c
  | _ => Str.parseU16 pattern == Str.parseU16 code

def healthDenotes (expect : List String) (code : String) : Bool :=
  (if expect = [] then ["2xx", "3xx"] else expect).any fun pattern => statusDenotes pattern code

/-- The shell of a section: no function is defined, and nothing was polled. -/
def sectionShell (vars : String → Option String) (args : List String) : Shell.State HealthWorld :=
  ⟨vars, args, fun _ => none, 0, ⟨0, 0⟩⟩

section Meaning
variable (t : HealthTarget) (expect : List String) (timeoutSecs : Nat)

def DenotedAt (n : Nat) : Prop := healthDenotes expect (t.printed n) = true

/-- The reading after poll `n` reaches the deadline. -/
def DueAt (n : Nat) : Prop := t.clock 0 + timeoutSecs ≤ t.clock (n + 1)

/-- Poll `n` is the first one that decides. -/
def DecidesAt (n : Nat) : Prop :=
  (DenotedAt t expect n ∨ DueAt t timeoutSecs n) ∧
    ∀ m < n, ¬ DenotedAt t expect m ∧ ¬ DueAt t timeoutSecs m

/-- The check ends at the poll that decides: with status 0 when its code is denoted, and otherwise
with another one. -/
def MeansWhatItSays (url : String) (method body : Option String) (headers : List String)
    (stepTimeout : Option Nat) (vars : String → Option String) (args : List String) : Prop :=
  ∀ n, DecidesAt t expect (stepTimeout.getD defaultHealthTimeoutSecs) n →
    Ends t.tools (healthCommand url expect method body headers stepTimeout) ""
      (sectionShell vars args) fun o =>
        (o.state.status = 0 ↔ DenotedAt t expect n) ∧ (DenotedAt t expect n → o.state.world.read = n + 1)
          ∧ (¬ DenotedAt t expect n → o.state.world.read = n + 2)

end Meaning

section Patterns

/-- The digits of a code between two quotes. -/
def quotedCode (code : String) : String := String.singleton '"' ++ (code ++ String.singleton '"')

theorem toList_quotedCode (code : String) : (quotedCode code).toList = '"' :: (code.toList ++ ['"']) := by
  simp [quotedCode]

theorem length_quotedCode {code : String} (h : ThreeDigits code) :
    (quotedCode code).toList.length = 5 := by
  rw [toList_quotedCode, List.length_cons, List.length_append, h.1]
  rfl

theorem globChars_length {ps s : List Char} (h : globChars ps s = true) : ps.length = s.length := by
  induction ps generalizing s with
  | nil =>
    cases s with
    | nil => rfl
    | cons c s => cases h
  | cons p ps ih =>
    cases s with
    | nil => cases h
    | cons c s =>
      rw [globChars, Bool.and_eq_true] at h
      rw [List.length_cons, List.length_cons, ih h.2]

theorem glob_rejects_quoted {text code : String} (hlen : text.toList.length ≠ 5) (h : ThreeDigits code) :
    (Pattern.glob text).accepts (quotedCode code) = false := by
  rw [Bool.eq_false_iff]
  intro hglob
  exact hlen ((globChars_length hglob).trans (length_quotedCode h))

/-- No text that starts with a quote is a status pattern. -/
theorem not_isStatusPattern_quoted (s : List Char) : isStatusPattern (String.ofList ('"' :: s)) = false := by
  have hparse : Str.parseU16 (String.ofList ('"' :: s)) = none := by
    rw [Str.parseU16, String.toList_ofList]
    rfl
  rw [isStatusPattern, String.toList_ofList]
  split
  · next hlist =>
    obtain ⟨rfl, -⟩ := List.cons.inj hlist
    rfl
  · rw [hparse]
    rfl

theorem globPattern_rejects_quoted {pattern code : String} (hpattern : isStatusPattern pattern = true)
    (h : ThreeDigits code) : (globPattern pattern).accepts (quotedCode code) = false := by
  rw [globPattern]
  split
  · next c hlist =>
    refine glob_rejects_quoted ?_ h
    simp only [statusGlob, hlist]
    split
    · simp
    · simp [hlist]
  · next hlist =>
    have hglob : statusGlob pattern = pattern := by
      rw [statusGlob]
      split
      · next c hclass => exact absurd hclass (hlist c)
      · rfl
    rw [hglob, Pattern.accepts, beq_eq_false_iff_ne]
    rintro heq
    have hquoted : pattern = String.ofList ('"' :: (code.toList ++ ['"'])) := by
      rw [← toList_quotedCode, String.ofList_toList, heq]
    rw [hquoted, not_isStatusPattern_quoted] at hpattern
    cases hpattern

/-- No arm of the check accepts an answer between quotes. -/
theorem select_quoted {expect : List String} {code : String} {body : Cmd}
    (hexpect : ∀ pattern ∈ expect, isStatusPattern pattern = true) (h : ThreeDigits code) :
    (Arms.cons (acceptedPatterns expect) body .nil).select (quotedCode code) = none := by
  have hnone : ((acceptedPatterns expect).any fun p => p.accepts (quotedCode code)) = false := by
    rw [List.any_eq_false, acceptedPatterns]
    intro p hp
    rw [Bool.not_eq_true]
    split at hp
    · rcases List.mem_cons.mp hp with rfl | hp
      · exact glob_rejects_quoted (by decide) h
      · rw [List.mem_singleton.mp hp]
        exact glob_rejects_quoted (by decide) h
    · obtain ⟨pattern, hmem, rfl⟩ := List.mem_map.mp hp
      exact globPattern_rejects_quoted (hexpect pattern hmem) h
  rw [Arms.select, hnone]
  rfl

end Patterns

section Accepted
open Fallible

/-- The list so far holds status patterns only. -/
def StatusPatterns (expect : List String) : Prop := ∀ pattern ∈ expect, isStatusPattern pattern = true

theorem statusCode_keeps {line : Nat} {acc expect : List String} {raw : String}
    (hacc : StatusPatterns acc) (h : statusCode line acc raw = .ok expect) : StatusPatterns expect := by
  obtain ⟨_, hvalid, h⟩ := bind_eq_ok.mp h
  cases h
  intro pattern hpattern
  rcases List.mem_append.mp hpattern with hpattern | hpattern
  · exact hacc pattern hpattern
  · rw [List.mem_singleton.mp hpattern]
    exact ensure_ok hvalid

theorem healthFlag_keeps {line : Nat} {acc args : HealthArgs} {token value : String}
    (hacc : StatusPatterns acc.expect) (h : healthFlag line acc token value = .ok args) :
    StatusPatterns args.expect := by
  rw [healthFlag] at h
  split at h
  · obtain ⟨expect, hexpect, h⟩ := bind_eq_ok.mp h
    cases h
    exact foldlM_invariant StatusPatterns (fun _ _ _ => statusCode_keeps) hacc hexpect
  split at h
  · obtain ⟨_, -, h⟩ := bind_eq_ok.mp h
    cases h
    exact hacc
  split at h
  · cases h
    exact hacc
  · obtain ⟨_, -, h⟩ := bind_eq_ok.mp h
    cases h
    exact hacc

theorem healthWord_keeps {line : Nat} {acc args : HealthArgs} {token : String}
    (hacc : StatusPatterns acc.expect) (h : healthWord line acc token = .ok args) :
    StatusPatterns args.expect := by
  rw [healthWord] at h
  split at h
  · cases h
  split at h
  · obtain ⟨_, -, h⟩ := bind_eq_ok.mp h
    cases h
    exact hacc
  · obtain ⟨_, -, h⟩ := bind_eq_ok.mp h
    cases h
    exact hacc

/-- What every word and every flag with its value keeps holds of the arguments. -/
theorem healthFrom_invariant {P : HealthArgs → Prop} {line : Nat} {acc args : HealthArgs}
    {tokens : List String}
    (hflag : ∀ acc args token value, P acc → healthFlag line acc token value = .ok args → P args)
    (hword : ∀ acc args token, P acc → healthWord line acc token = .ok args → P args)
    (hacc : P acc) (h : healthFrom line acc tokens = .ok args) : P args := by
  induction acc, tokens using healthFrom.induct with
  | case1 acc =>
    cases h
    exact hacc
  | case2 acc token reason hneeds =>
    rw [healthFrom, hneeds] at h
    cases h
  | case3 acc token hneeds =>
    rw [healthFrom, hneeds] at h
    exact hword acc args token hacc h
  | case4 acc token value rest reason hneeds ih =>
    rw [healthFrom, hneeds] at h
    obtain ⟨next, hnext, h⟩ := bind_eq_ok.mp h
    exact ih next (hflag acc next token value hacc hnext) h
  | case5 acc token value rest hneeds ih =>
    rw [healthFrom, hneeds] at h
    obtain ⟨next, hnext, h⟩ := bind_eq_ok.mp h
    exact ih next (hword acc next token hacc hnext) h

/-- The lists the parser accepts hold status patterns only. -/
theorem statusPatterns_of_parse {payload url : String} {line : Nat} {target method body : Option String}
    {expect headers : List String}
    (h : parseAssertHealth payload line = .ok (target, .health url expect method body headers)) :
    StatusPatterns expect := by
  obtain ⟨args, hargs, h⟩ := bind_eq_ok.mp h
  obtain ⟨_, -, h⟩ := bind_eq_ok.mp h
  obtain ⟨_, -, h⟩ := bind_eq_ok.mp h
  obtain ⟨_, -, h⟩ := bind_eq_ok.mp h
  cases h
  exact healthFrom_invariant (P := fun args => StatusPatterns args.expect)
    (fun _ _ _ _ => healthFlag_keeps) (fun _ _ _ => healthWord_keeps)
    (fun _ hnil => absurd hnil List.not_mem_nil) hargs

end Accepted

/-- What the command relies on: the seconds are a number, `curl` prints a code, `wget` prints nothing
and `[` fails without two numbers. -/
structure HealthTools {W : Type*} (tools : Tools W) : Prop where
  seconds : ∀ input w, ∃ n : Nat, textOf .out (tools ["date", "+%s"] input w).out = toString n ++ "\n"
  code : ∀ args input w, ThreeDigits (textOf .out (tools ("curl" :: args) input w).out)
  silent : ∀ args input w, textOf .out (tools ("wget" :: args) input w).out = ""
  noNumber : ∀ a b input w, number a = none → (tools ["[", a, "-ge", b, "]"] input w).status ≠ 0

section Probe
variable {W : Type*} {tools : Tools W} {i : String} {s : Shell.State W}

/-- The programs of a check, none of which is a function of the shell. -/
def healthPrograms : List String := ["date", "command", "curl", "wget", "[", "echo", "sleep"]

def Unshadowed (s : Shell.State W) : Prop := ∀ f ∈ healthPrograms, s.funs f = none

theorem program_ends {name : String} {args : List String} (hname : name ∉ special)
    (hf : s.funs name = none) :
    Ends tools (litWords (name :: args)) i s fun o => o = runPlain tools name args i s :=
  litWords_ends (runSimple_plain hname hf)

/-- A word that is one text, whatever the shell. -/
def IsText (W : Type*) (w : Word) (text : String) : Prop :=
  ∀ (ev : Eval W) i s, expandText ev i w s = some ⟨text, s.world, [], none⟩ ∧
    w.fields text = [text]

theorem isText_lit (text : String) : IsText W (litWord text) text := by
  intro ev i s
  refine ⟨?_, rfl⟩
  simp [litWord, expandText, expandSegs, expandSeg, Expansion.join]

theorem isText_single (text : String) : IsText W (.joined [.single text]) text := by
  intro ev i s
  refine ⟨?_, rfl⟩
  simp [expandText, expandSegs, expandSeg, Expansion.join]

theorem isText_lits (a b : String) : IsText W (.joined [.lit a, .lit b]) (a ++ b) := by
  intro ev i s
  refine ⟨?_, rfl⟩
  simp [expandText, expandSegs, expandSeg, Expansion.join]

theorem isText_quoted (value : String) : IsText W (quotedWord value) value :=
  fun ev i s => ⟨expandText_quotedText ev i value s, rfl⟩

theorem expandWords_texts {ws : List Word} (h : ∀ w ∈ ws, ∃ text, IsText W w text)
    (ev : Eval W) (i : String) (s : Shell.State W) :
    ∃ argv, expandWords ev i ws s = some ⟨argv, s.world, [], none⟩ := by
  induction ws with
  | nil => exact ⟨[], rfl⟩
  | cons w ws ih =>
    obtain ⟨text, htext⟩ := h w List.mem_cons_self
    obtain ⟨argv, hargv⟩ := ih fun v hv => h v (List.mem_cons_of_mem w hv)
    obtain ⟨hw, hone⟩ := htext ev i s
    exact ⟨text :: argv, expandWords_one hw hone hargv⟩

/-- A program that is called with texts. -/
theorem texts_end {name : String} {ws : List Word} (hname : name ∉ special) (hf : s.funs name = none)
    (hws : ∀ w ∈ ws, ∃ text, IsText W w text) :
    Ends tools (.simple (litWord name :: ws)) i s fun o =>
      ∃ args, o = runPlain tools name args i s := by
  obtain ⟨argv, hargv⟩ := expandWords_texts hws (eval tools 0) i s
  obtain ⟨hw, hone⟩ := isText_lit name (eval tools 0) i s
  exact Ends.plain (expandWords_one hw hone hargv) (runSimple_plain hname hf) ⟨argv, rfl⟩

theorem isText_optionWords {options : List (String × String)} {w : Word}
    (h : w ∈ optionWords options) : ∃ text, IsText W w text := by
  obtain ⟨o, -, hw⟩ := List.mem_flatMap.mp h
  rcases List.mem_cons.mp hw with rfl | hw
  · exact ⟨_, isText_lit o.1⟩
  · rw [List.mem_singleton.mp hw]
    exact ⟨_, isText_quoted o.2⟩

theorem route_null (out : Chunks) : (outlets [.outNull, .errToOut]).route out = [] := by
  induction out with
  | nil => rfl
  | cons c out ih =>
    obtain ⟨stream, text⟩ := c
    cases stream with
    | out => exact ih
    | err => exact ih

theorem commandExists_ends (hs : Unshadowed s) (program : String) :
    Ends tools (commandExists program) i s fun o => o.flow = .next ∧ o.out = [] ∧
      Unshadowed o.state := by
  refine Ends.redirect ((program_ends (by decide) (hs "command" (by decide))).weaken fun o ho => ?_)
  subst ho
  exact ⟨rfl, route_null _, hs⟩

theorem threeDigits_200 : ThreeDigits "200" := ⟨by decide, by simp⟩

theorem threeDigits_000 : ThreeDigits "000" := ⟨by decide, by simp⟩

/-- A code printed without a newline, or with one. -/
theorem trimNewlines_code {code : String} (h : ThreeDigits code) :
    trimNewlines code = code ∧ trimNewlines (code ++ "\n") = code := by
  have hlast : code.toList.getLast? ≠ some '\n' := by
    intro hnewline
    exact absurd (h.2 _ (List.mem_of_getLast? hnewline)) (by decide)
  refine ⟨?_, trimNewlines_line hlast⟩
  have hkeep : code.toList.rdropWhile (fun c => c == '\n') = code.toList := by
    rw [List.rdropWhile_eq_self_iff]
    intro hne hc
    rw [List.getLast?_eq_some_getLast hne] at hlast
    exact hlast (congrArg some (by simpa using hc))
  rw [trimNewlines, hkeep, String.ofList_toList]

/-- What a probe prints is one code. -/
def Answered (o : Outcome W) : Prop :=
  ∃ code, ThreeDigits code ∧ trimNewlines (textOf .out o.out) = code

theorem echo_answers (hs : Unshadowed s) {code : String} (h : ThreeDigits code) :
    Ends tools (litWords ["echo", code]) i s Answered := by
  refine (program_ends (by decide) (hs "echo" (by decide))).weaken fun o ho => ?_
  have hout : textOf .out o.out = code ++ "\n" := by
    rw [ho]
    simp [runPlain, finish, textOf, Str.join]
  exact ⟨code, h, by rw [hout, (trimNewlines_code h).2]⟩

/-- Nothing on stdout in front of an answer. -/
theorem Answered.after {o : Outcome W} {out : Chunks} (h : Answered o) (hout : textOf .out out = "") :
    Answered (o.after out) := by
  obtain ⟨code, hcode, hprinted⟩ := h
  refine ⟨code, hcode, ?_⟩
  rw [Outcome.after_out, textOf_append, hout, String.empty_append, hprinted]

theorem curlWords_text (url : String) (timeoutSecs : Nat) (method body : Option String)
    (headers : List String) :
    ∀ w ∈ ["-s", "-o", "/dev/null", "-w"].map litWord ++
      (.joined [.single "%\x7bhttp_code\x7d"] :: litWord "--max-time" ::
        litWord (toString timeoutSecs) ::
          (optionWords (curlOptions method body headers) ++ [quotedWord url])),
      ∃ text, IsText W w text := by
  intro w hw
  simp only [List.map_cons, List.map_nil, List.mem_append, List.mem_cons, List.not_mem_nil,
    or_false] at hw
  rcases hw with (rfl | rfl | rfl | rfl) | rfl | rfl | rfl | hw | rfl
  · exact ⟨_, isText_lit _⟩
  · exact ⟨_, isText_lit _⟩
  · exact ⟨_, isText_lit _⟩
  · exact ⟨_, isText_lit _⟩
  · exact ⟨_, isText_single _⟩
  · exact ⟨_, isText_lit _⟩
  · exact ⟨_, isText_lit _⟩
  · exact isText_optionWords hw
  · exact ⟨_, isText_quoted _⟩

theorem wgetWords_text (url : String) (timeoutSecs : Nat) :
    ∀ w ∈ ["-q", "-O", "/dev/null"].map litWord ++
      [.joined [.lit "--timeout=", .lit (toString timeoutSecs)], quotedWord url],
      ∃ text, IsText W w text := by
  intro w hw
  simp only [List.map_cons, List.map_nil, List.mem_append, List.mem_cons, List.not_mem_nil,
    or_false] at hw
  rcases hw with (rfl | rfl | rfl) | rfl | rfl
  · exact ⟨_, isText_lit _⟩
  · exact ⟨_, isText_lit _⟩
  · exact ⟨_, isText_lit _⟩
  · exact ⟨_, isText_lits _ _⟩
  · exact ⟨_, isText_quoted _⟩

/-- The probe prints the code of one poll, or `000` where there is no program for it. -/
theorem httpProbe_ends (h : HealthTools tools) (hs : Unshadowed s) (url : String) (timeoutSecs : Nat)
    (method body : Option String) (headers : List String) :
    Ends tools (httpProbe url timeoutSecs method body headers) i s Answered := by
  refine Ends.condElif ((commandExists_ends hs "curl").weaken fun o ho => ?_)
  obtain ⟨hflow, hout, hs⟩ := ho
  refine ⟨hflow, ?_⟩
  rw [hout]
  split
  · refine Ends.redirect ((texts_end (by decide) (hs "curl" (by decide))
      (curlWords_text url timeoutSecs method body headers)).weaken fun r hr => ?_)
    obtain ⟨args, rfl⟩ := hr
    have hplain : runPlain tools "curl" args (inputFor [.errNull] i) o.state =
        runTool tools ("curl" :: args) (inputFor [.errNull] i) o.state := by
      rw [runPlain]
      all_goals decide
    have hcode := h.code args (inputFor [.errNull] i) o.state.world
    rw [hplain]
    refine Answered.after ⟨_, hcode, ?_⟩ rfl
    rw [textOf_errNull]
    exact (trimNewlines_code hcode).1
  · refine Ends.cond ((commandExists_ends hs "wget").weaken fun r hr => ?_)
    obtain ⟨hflow', hout', hs⟩ := hr
    refine ⟨hflow', ?_⟩
    rw [hout']
    split
    · refine Ends.cond (Ends.redirect ((texts_end (by decide) (hs "wget" (by decide))
        (wgetWords_text url timeoutSecs)).weaken fun q hq => ?_))
      obtain ⟨args, rfl⟩ := hq
      have hplain : runPlain tools "wget" args (inputFor [.errNull] i) r.state =
          runTool tools ("wget" :: args) (inputFor [.errNull] i) r.state := by
        rw [runPlain]
        all_goals decide
      have hquiet : textOf .out ((outlets [.errNull]).route
          (runTool tools ("wget" :: args) (inputFor [.errNull] i) r.state).out) = "" := by
        rw [textOf_errNull]
        exact h.silent args _ _
      rw [hplain]
      refine ⟨rfl, ?_⟩
      split
      · refine (echo_answers ?_ threeDigits_200).weaken fun _ ha => (ha.after hquiet).after rfl |>.after rfl
        exact hs
      · refine (echo_answers ?_ threeDigits_000).weaken fun _ ha => (ha.after hquiet).after rfl |>.after rfl
        exact hs
    · exact (echo_answers hs threeDigits_000).weaken fun _ ha => (ha.after rfl).after rfl

end Probe

section Rounds
variable {W : Type*} {tools : Tools W} {i : String} {s : Shell.State W}

/-- The seconds, in a word of their own. -/
theorem expandDate (h : HealthTools tools) (hs : Unshadowed s) :
    ∃ n e, expandPart (eval tools n) i (.subst readClock) s = some e ∧
      ∃ now : Nat, e.text = toString now := by
  have hdate : Ends tools readClock i s fun o => o = runPlain tools "date" ["+%s"] i s :=
    program_ends (by decide) (hs "date" (by decide))
  obtain ⟨n, o, ho, hrun⟩ := hdate
  obtain ⟨now, hnow⟩ := h.seconds i s.world
  refine ⟨n, _, by rw [expandPart, ho, Option.map_some], now, ?_⟩
  have hout : textOf .out o.out = toString now ++ "\n" := by
    rw [hrun]
    exact hnow
  dsimp only
  rw [hout, trimNewlines_line (getLast?_toString_ne _)]

/-- A number between two quotes is one field, and no number. -/
theorem quotedNumber (n : Nat) : Str.splitWhitespace (quotedCode (toString n)) = [quotedCode (toString n)] ∧
    number (quotedCode (toString n)) = none := by
  have hword : Str.IsWord (quotedCode (toString n)) := by
    refine ⟨by rw [toList_quotedCode]; exact List.cons_ne_nil _ _, fun c hc => ?_⟩
    rw [toList_quotedCode] at hc
    rcases List.mem_cons.mp hc with rfl | hc
    · rfl
    rcases List.mem_append.mp hc with hc | hc
    · exact isWhitespace_of_mem_toString hc
    · rw [List.mem_singleton.mp hc]
      rfl
  constructor
  · have hjoin := Str.splitWhitespace_join [quotedCode (toString n)] (by simpa using hword)
    simpa [Str.join] using hjoin
  · rw [number, if_neg (by rw [← String.toList_inj, toList_quotedCode]; simp), toList_quotedCode]
    rfl

/-- A shell inside the wait: the deadline is a number. -/
structure Waiting (s : Shell.State W) : Prop where
  unshadowed : Unshadowed s
  deadline : ∃ d : Nat, s.vars "d" = some (toString d)

theorem test_quoted (a b : Nat) :
    test [quotedCode (toString a), "-ge", quotedCode (toString b)] = none := by
  rw [test, (quotedNumber a).2, Option.bind_none]

/-- The deadline test fails as a command, whatever the time is. -/
theorem escapedDeadline_ends (h : HealthTools tools) (hs : Waiting s) :
    Ends tools escapedDeadline i s fun o => o.flow = .next ∧ o.state.status ≠ 0 ∧ Waiting o.state := by
  obtain ⟨d, hd⟩ := hs.deadline
  obtain ⟨n, e, he, now, htext⟩ := expandDate (i := i) h hs.unshadowed
  have hbound : expandWords (eval tools n) i [litWord "-ge", escapedQuotes (.var "d"), litWord "]"]
      (s.setWorld e.world) = some ⟨["-ge", quotedCode (toString d), "]"], e.world, [], none⟩ := by
    have hvar : expandText (eval tools n) i (escapedQuotes (.var "d")) (s.setWorld e.world) =
        some ⟨quotedCode (toString d), e.world, [], none⟩ := by
      simp [escapedQuotes, expandText, expandPart, Shell.State.setWorld, hd, quotedCode]
    have hrest := expandWords_one hvar (quotedNumber d).1
      (expandWords_lit (eval tools n) i ["]"] (s.setWorld e.world))
    exact expandWords_one (isText_lit "-ge" (eval tools n) i (s.setWorld e.world)).1 rfl hrest
  have hnow := expandText_escaped (a := '"') (b := '"') he
  rw [htext] at hnow
  have hwords := expandWords_one (isText_lit "[" (eval tools n) i s).1 rfl
    (expandWords_one hnow (quotedNumber now).1 hbound)
  have hrun : runSimple tools (eval tools n)
      ["[", quotedCode (toString now), "-ge", quotedCode (toString d), "]"] i (s.setWorld e.world) =
      some (runTool tools ["[", quotedCode (toString now), "-ge", quotedCode (toString d), "]"] i
        (s.setWorld e.world)) := by
    have hnone : (s.setWorld e.world).funs "[" = none := hs.unshadowed "[" (by decide)
    have hlast : [quotedCode (toString now), "-ge", quotedCode (toString d), "]"].dropLast =
        [quotedCode (toString now), "-ge", quotedCode (toString d)] := rfl
    rw [runSimple_plain (by decide) hnone, runPlain, hlast, test_quoted]
  exact Ends.simple hwords hrun
    ⟨rfl, h.noNumber _ _ _ _ (quotedNumber now).2, hs.unshadowed, d, hd⟩

theorem healthRound_ends {probe : Cmd} {expect : List String} (h : HealthTools tools)
    (hexpect : StatusPatterns expect)
    (hprobe : ∀ s, Unshadowed s → Ends tools probe i s Answered) (hs : Waiting s) :
    Ends tools (healthRound probe expect) i s fun o => o.flow = .next ∧ Waiting o.state := by
  refine Ends.seq (Ends.assign_subst ((hprobe s hs.unshadowed).weaken fun o ho => ?_))
  obtain ⟨code, hcode, hprinted⟩ := ho
  rw [hprinted]
  obtain ⟨d, hd⟩ := hs.deadline
  refine ⟨rfl, ?_⟩
  generalize hafter : (finish ((s.setWorld o.state.world).setVar "c" code) o.state.status
    (dropStream .out o.out)).state = s₁
  have hs₁ : Waiting s₁ := by
    subst hafter
    exact ⟨hs.unshadowed, d, hd⟩
  have hc : s₁.vars "c" = some code := by
    subst hafter
    rfl
  have hvar : expandPart (eval tools 0) i (.var "c") s₁ = some ⟨code, s₁.world, [], none⟩ := by
    rw [expandPart, hc, Option.getD_some]
  refine Ends.seq (Ends.case_none (expandText_escaped hvar) (select_quoted hexpect hcode) ⟨rfl, ?_⟩)
  have hs₂ : Waiting (s₁.setStatus 0) := ⟨hs₁.unshadowed, hs₁.deadline⟩
  refine Ends.seq (Ends.when_false ((escapedDeadline_ends h hs₂).weaken fun r hr => ?_))
  obtain ⟨hflow, hstatus, hr⟩ := hr
  refine ⟨hflow, hstatus, rfl, ?_⟩
  have hsleep : (finish r.state 0 r.out).state.funs "sleep" = none := hr.unshadowed "sleep" (by decide)
  refine (program_ends (by decide) hsleep).weaken fun q hq => ?_
  subst hq
  exact ⟨rfl, hr.unshadowed, hr.deadline⟩

/-- The wait never ends. -/
theorem healthLoop_hangs {probe : Cmd} {expect : List String} (h : HealthTools tools)
    (hexpect : StatusPatterns expect)
    (hprobe : ∀ s, Unshadowed s → Ends tools probe i s Answered) (hs : Unshadowed s) :
    Hangs tools (healthLoop probe expect) i s := by
  have hdeadline : Ends tools (.assign "d" (.bare (.sum (.subst readClock) (.arg 1)))) i s
      fun o => o.flow = .next ∧ Waiting o.state := by
    obtain ⟨n, e, he, -⟩ := expandDate (i := i) h hs
    have hsum : expandText (eval tools n) i (.bare (.sum (.subst readClock) (.arg 1))) s =
        some ⟨toString ((number e.text).getD 0 + (number (s.args.getD (1 - 1) "")).getD 0), e.world,
          e.out ++ [], (none : Option Nat).or e.status⟩ := by
      rw [expandText, expandPart, he]
      rfl
    exact Ends.assign hsum ⟨rfl, hs, _, rfl⟩
  refine Hangs.seq (hdeadline.weaken fun o ho => ⟨ho.1, ?_⟩)
  refine Hangs.loop Waiting (fun s hs => ?_) ho.2
  have hcolon : runSimple tools (eval tools 0) [":"] i s = some (finish s 0 []) := rfl
  refine (litWords_ends hcolon).weaken fun o ho => ?_
  subst ho
  exact ⟨rfl, rfl, healthRound_ends h hexpect hprobe ⟨hs.unshadowed, hs.deadline⟩⟩

/-- The whole check never ends, whatever the URL answers and whatever the clock says. -/
theorem healthCommand_hangs {expect : List String} (h : HealthTools tools)
    (hexpect : StatusPatterns expect) (url : String) (method body : Option String)
    (headers : List String) (stepTimeout : Option Nat) (hs : s.funs = fun _ => none) :
    Hangs tools (healthCommand url expect method body headers stepTimeout) i s := by
  refine Hangs.seq (Ends.fn ⟨rfl, ?_⟩)
  refine Hangs.cond (Hangs.assign_subst (Hangs.call (fun n => expandWords_lit _ _ _ _) (by decide)
    rfl ?_))
  refine healthLoop_hangs h hexpect (fun s hs => httpProbe_ends h hs url _ method body headers) ?_
  intro f hf
  have hother : ∀ f ∈ healthPrograms, f ≠ "sfw_http" := by decide
  exact (if_neg (hother f hf)).trans (congrFun hs f)

end Rounds

theorem HealthTarget.healthTools (t : HealthTarget) : HealthTools t.tools where
  seconds _ w := ⟨t.clock w.read, by simp [tools, textOf]⟩
  code _ _ w := by simpa [tools, textOf] using t.threeDigits w.polled
  silent _ _ _ := rfl
  noNumber _ _ _ _ _ := Nat.succ_ne_zero 1

/-- A health check means what it says exactly when nothing would end it: no code of its list is ever
answered, and its deadline is never reached. -/
theorem health_means_iff {payload parsed : String} {line : Nat} {target method body : Option String}
    {expect headers : List String}
    (hparse : parseAssertHealth payload line = .ok (target, .health parsed expect method body headers))
    (t : HealthTarget) (url : String) (stepTimeout : Option Nat) (vars : String → Option String)
    (args : List String) :
    MeansWhatItSays t expect url method body headers stepTimeout vars args ↔
      ∀ n, ¬ DenotedAt t expect n ∧ ¬ DueAt t (stepTimeout.getD defaultHealthTimeoutSecs) n := by
  have hhangs : Hangs t.tools (healthCommand url expect method body headers stepTimeout) ""
      (sectionShell vars args) :=
    healthCommand_hangs t.healthTools (statusPatterns_of_parse hparse) url method body headers _ rfl
  constructor
  · intro hmeans n
    rw [← not_or]
    induction n using Nat.strong_induction_on with
    | _ n ih =>
      intro hdecides
      exact hhangs.not_ends (hmeans n ⟨hdecides, fun m hm => not_or.mp (ih m hm)⟩)
  · intro hnever n hdecides
    exact absurd hdecides.1 (not_or.mpr (hnever n))

/-- A target whose URL always answers with one code. -/
def steadyTarget (code : String) (hcode : ThreeDigits code) (clock : Nat → Nat)
    (hclock : ∀ n, clock n ≤ clock (n + 1)) : HealthTarget :=
  ⟨.curl, fun _ => code, clock, fun _ => hcode, hclock⟩

/-- With a clock that stands still the check may wait for ever. -/
theorem health_means_stopped :
    MeansWhatItSays (steadyTarget "000" threeDigits_000 (fun _ => 0) fun _ => Nat.le_refl 0) ["2xx"]
        "http://x" none none [] none (fun _ => none) [] ↔
      ∀ n, ¬ DenotedAt (steadyTarget "000" threeDigits_000 (fun _ => 0) fun _ => Nat.le_refl 0) ["2xx"] n ∧
        ¬ DueAt (steadyTarget "000" threeDigits_000 (fun _ => 0) fun _ => Nat.le_refl 0)
          ((none : Option Nat).getD defaultHealthTimeoutSecs) n := by
  have hparse : parseAssertHealth "http://x --expect 2xx" 1 =
      .ok (none, .health "http://x" ["2xx"] none none []) := by rfl
  exact health_means_iff hparse _ _ _ _ _

/-- A URL that answers with 200 at once is waited for without end. -/
theorem health_200_not_accepted :
    ¬ ∀ (payload parsed : String) (line : Nat) (target method body : Option String)
      (expect headers : List String),
      parseAssertHealth payload line = .ok (target, .health parsed expect method body headers) →
      ∀ (t : HealthTarget) (url : String) (stepTimeout : Option Nat) (vars : String → Option String)
        (args : List String), MeansWhatItSays t expect url method body headers stepTimeout vars args := by
  intro hall
  have hparse : parseAssertHealth "http://x --expect 200" 1 =
      .ok (none, .health "http://x" ["200"] none none []) := by rfl
  have hmeans := hall _ _ _ _ _ _ _ _ hparse (steadyTarget "200" threeDigits_200 id Nat.le_succ)
    "http://x" none (fun _ => none) []
  exact (healthCommand_hangs (HealthTarget.healthTools _) (statusPatterns_of_parse hparse) _ _ _ _ _
    rfl).not_ends (hmeans 0 ⟨.inl rfl, fun m hm => absurd hm (Nat.not_lt_zero m)⟩)

end Shellflow
