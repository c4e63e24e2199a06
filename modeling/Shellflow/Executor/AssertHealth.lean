import Shellflow.Dsl.Payload
import Shellflow.Executor.AssertPorts

/-! The health check of `@assert_health`: the command it sends to the target, as text and as a
command of the shell. -/
namespace Shellflow
open Shell

def defaultHealthTimeoutSecs : Nat := 60

section Text

/-- What `-X`, `-H` and `--data` add to the request, as words. -/
def curlOptions (method body : Option String) (headers : List String) : List (String × String) :=
  (method.map fun m => ("-X", m)).toList ++ (headers.map fun h => ("-H", h)) ++
    (body.map fun b => ("--data", b)).toList

def renderOptions : List (String × String) → String
  | [] => ""
  | (flag, value) :: rest => " " ++ flag ++ " " ++ shellQuoteSingle value ++ renderOptions rest

/-- The command that prints the status code of a URL. -/
def httpProbeText (url : String) (timeoutSecs : Nat) (method body : Option String)
    (headers : List String) : String :=
  "if command -v curl >/dev/null 2>&1; then " ++
    "curl -s -o /dev/null -w '%\x7bhttp_code\x7d' --max-time " ++ toString timeoutSecs ++
    renderOptions (curlOptions method body headers) ++ " " ++ shellQuoteSingle url ++
    " 2>/dev/null; elif command -v wget >/dev/null 2>&1; then " ++
    "if wget -q -O /dev/null --timeout=" ++ toString timeoutSecs ++ " " ++ shellQuoteSingle url ++
    " 2>/dev/null; then echo 200; else echo 000; fi; else echo 000; fi"

/-- `2xx` becomes `2??`, and any other pattern is the word itself. -/
def statusGlob (pattern : String) : String :=
  match pattern.toList with
  | [c, 'x', 'x'] => if c.toNat < 128 then String.singleton c ++ "??" else pattern
  | _ => pattern

def acceptedText (expect : List String) : String :=
  if expect = [] then "2??|3??" else Str.join "|" (expect.map statusGlob)

def wantText (expect : List String) : String :=
  if expect = [] then "2xx/3xx" else Str.join "|" expect

/-- The lines of the command, with what stands between a command substitution and its brackets. -/
def healthLines (pad url probe : String) (timeoutSecs : Nat) (expect : List String) : List String :=
  ["sfw_http() \x7b d=$(( $(date +%s) + $1 )); ",
    "while :; do ",
    "c=$(" ++ pad ++ probe ++ pad ++ "); ",
    "case \\\"$c\\\" in " ++ acceptedText expect ++ ") echo \\\"$c\\\"; return 0 ;; esac; ",
    "if [ \\\"$(date +%s)\\\" -ge \\\"$d\\\" ]; then echo \\\"$c\\\"; return 1; fi; ",
    "sleep 2; ",
    "done; \x7d; ",
    "if c=$(sfw_http " ++ toString timeoutSecs ++ "); then echo " ++ shellQuoteSingle url ++
      "\" answered $c\"; ",
    "else echo " ++ shellQuoteSingle url ++ "\" answered $c (want " ++ wantText expect ++
      ")\"; false; fi"]

/-- A backslash, the end of the line and the indentation of the next one, which are all part of the
raw string. -/
def lineContinuation : String := "\\\n                 "

/-- The command of a `Health` check. -/
def healthCommandText (url : String) (expect : List String) (method body : Option String)
    (headers : List String) (stepTimeout : Option Nat) : String :=
  let timeoutSecs := stepTimeout.getD defaultHealthTimeoutSecs
  Str.join lineContinuation
    (healthLines " " url (httpProbeText url timeoutSecs method body headers) timeoutSecs expect)

end Text

section Commands

def quotedWord (value : String) : Word := .joined (quotedText value)

def commandExists (program : String) : Cmd :=
  .redirect (litWords ["command", "-v", program]) [.outNull, .errToOut]

def optionWords (options : List (String × String)) : List Word :=
  options.flatMap fun o => [litWord o.1, quotedWord o.2]

def httpProbe (url : String) (timeoutSecs : Nat) (method body : Option String)
    (headers : List String) : Cmd :=
  .condElif (commandExists "curl")
    (.redirect (.simple (["curl", "-s", "-o", "/dev/null", "-w"].map litWord ++
      (.joined [.single "%\x7bhttp_code\x7d"] :: litWord "--max-time" ::
        litWord (toString timeoutSecs) ::
          (optionWords (curlOptions method body headers) ++ [quotedWord url])))) [.errNull])
    (commandExists "wget")
    (.cond (.redirect (.simple (["wget", "-q", "-O", "/dev/null"].map litWord ++
        [.joined [.lit "--timeout=", .lit (toString timeoutSecs)], quotedWord url])) [.errNull])
      (litWords ["echo", "200"]) (litWords ["echo", "000"]))
    (litWords ["echo", "000"])

/-- An expansion between two quotes that are escaped themselves: the quotes are part of the word. -/
def escapedQuotes (part : Part) : Word := .escaped '"' part '"'

def globPattern (pattern : String) : Pattern :=
  match pattern.toList with
  | [_, 'x', 'x'] => .glob (statusGlob pattern)
  | _ => .word (statusGlob pattern)

def acceptedPatterns (expect : List String) : List Pattern :=
  if expect = [] then [.glob "2??", .glob "3??"] else expect.map globPattern

def echoCode (status : String) : Cmd :=
  .seq (.simple [litWord "echo", escapedQuotes (.var "c")]) (litWords ["return", status])

/-- `[ \"$(date +%s)\" -ge \"$d\" ]` -/
def escapedDeadline : Cmd :=
  .simple [litWord "[", escapedQuotes (.subst readClock), litWord "-ge", escapedQuotes (.var "d"),
    litWord "]"]

def healthRound (probe : Cmd) (expect : List String) : Cmd :=
  .seq (.assign "c" (.bare (.subst probe)))
    (.seq (.case (escapedQuotes (.var "c")) (.cons (acceptedPatterns expect) (echoCode "0") .nil))
      (.seq (.when escapedDeadline (echoCode "1")) (litWords ["sleep", "2"])))

def healthLoop (probe : Cmd) (expect : List String) : Cmd :=
  .seq (.assign "d" (.bare (.sum (.subst readClock) (.arg 1))))
    (.loop (litWords [":"]) (healthRound probe expect))

def echoAnswer (url rest : String) : Cmd :=
  .simple [litWord "echo",
    .joined (quotedText url ++ [.double [.lit " answered ", .var "c", .lit rest]])]

def healthCommand (url : String) (expect : List String) (method body : Option String)
    (headers : List String) (stepTimeout : Option Nat) : Cmd :=
  let timeoutSecs := stepTimeout.getD defaultHealthTimeoutSecs
  .seq (.fn "sfw_http" (healthLoop (httpProbe url timeoutSecs method body headers) expect))
    (.cond (.assign "c" (.bare (.subst (litWords ["sfw_http", toString timeoutSecs]))))
      (echoAnswer url "")
      (.seq (echoAnswer url (" (want " ++ wantText expect ++ ")")) (litWords ["false"])))

end Commands

section Rendered

theorem render_globPattern (pattern : String) : (globPattern pattern).render = statusGlob pattern := by
  rw [globPattern]
  split <;> rfl

theorem renderPatterns_eq (ps : List Pattern) :
    renderPatterns ps = Str.join "|" (ps.map Pattern.render) := by
  induction ps with
  | nil => rfl
  | cons p ps ih =>
    cases ps with
    | nil => simp [renderPatterns, Str.join]
    | cons q ps =>
      rw [renderPatterns, ih]
      simp [Str.join]

theorem render_acceptedPatterns (expect : List String) :
    renderPatterns (acceptedPatterns expect) = acceptedText expect := by
  rw [acceptedPatterns, acceptedText]
  split
  · decide +kernel
  · rw [renderPatterns_eq, List.map_map]
    congr 2
    exact funext render_globPattern

theorem renderWords_append (ws vs : List Word) (hws : ws ≠ []) (hvs : vs ≠ []) :
    renderWords (ws ++ vs) = renderWords ws ++ (" " ++ renderWords vs) := by
  induction ws with
  | nil => exact absurd rfl hws
  | cons w ws ih =>
    cases ws with
    | nil =>
      cases vs with
      | nil => exact absurd rfl hvs
      | cons v vs => rfl
    | cons w' ws =>
      have h := ih (List.cons_ne_nil _ _)
      rw [List.cons_append, List.cons_append, renderWords, ← List.cons_append, h, renderWords]
      simp [String.append_assoc]

theorem renderWords_options (options : List (String × String)) (w : Word) (ws : List Word) :
    " " ++ renderWords (optionWords options ++ w :: ws) =
      renderOptions options ++ (" " ++ renderWords (w :: ws)) := by
  induction options with
  | nil => simp [optionWords, renderOptions]
  | cons o options ih =>
    have hsplit : optionWords (o :: options) ++ w :: ws =
        [litWord o.1, quotedWord o.2] ++ (optionWords options ++ w :: ws) := by
      simp [optionWords]
    rw [hsplit, renderWords_append _ _ (by simp) (by simp), ih, renderOptions]
    apply String.toList_inj.mp
    simp [renderWords, litWord, quotedWord, Word.render, renderSegs, Seg.render, render_quotedText]

theorem render_commandExists (program : String) :
    (commandExists program).render = "command -v " ++ program ++ " >/dev/null 2>&1" := by
  apply String.toList_inj.mp
  simp [commandExists, litWords, litWord, Cmd.render, Word.render, renderSegs, Seg.render,
    renderWords, renderRedirs, Redir.render]

set_option maxRecDepth 4000 in
theorem render_httpProbe (url : String) (timeoutSecs : Nat) (method body : Option String)
    (headers : List String) :
    (httpProbe url timeoutSecs method body headers).render =
      httpProbeText url timeoutSecs method body headers := by
  unfold httpProbe httpProbeText
  generalize toString timeoutSecs = secs
  have hcurl : (Cmd.simple (["curl", "-s", "-o", "/dev/null", "-w"].map litWord ++
      (.joined [.single "%\x7bhttp_code\x7d"] :: litWord "--max-time" :: litWord secs ::
        (optionWords (curlOptions method body headers) ++ [quotedWord url])))).render =
      "curl -s -o /dev/null -w '%\x7bhttp_code\x7d' --max-time " ++ secs ++
        renderOptions (curlOptions method body headers) ++ " " ++ shellQuoteSingle url := by
    have hsplit : ["curl", "-s", "-o", "/dev/null", "-w"].map litWord ++
        (.joined [.single "%\x7bhttp_code\x7d"] :: litWord "--max-time" :: litWord secs ::
          (optionWords (curlOptions method body headers) ++ [quotedWord url])) =
        ["curl", "-s", "-o", "/dev/null", "-w"].map litWord ++
          [.joined [.single "%\x7bhttp_code\x7d"], litWord "--max-time", litWord secs] ++
          (optionWords (curlOptions method body headers) ++ [quotedWord url]) := by simp
    rw [hsplit, Cmd.render, renderWords_append _ _ (by simp) (by simp), renderWords_options]
    apply String.toList_inj.mp
    simp [litWord, quotedWord, Word.render, renderSegs, Seg.render, renderWords, render_quotedText]
  have hwget : (Cmd.simple (["wget", "-q", "-O", "/dev/null"].map litWord ++
      [.joined [.lit "--timeout=", .lit secs], quotedWord url])).render =
      "wget -q -O /dev/null --timeout=" ++ secs ++ " " ++ shellQuoteSingle url := by
    apply String.toList_inj.mp
    simp [litWord, quotedWord, Cmd.render, Word.render, renderSegs, Seg.render, renderWords,
      render_quotedText]
  have hecho : ∀ code : String, (litWords ["echo", code]).render = "echo " ++ code := by
    intro code
    apply String.toList_inj.mp
    simp [litWords, litWord, Cmd.render, Word.render, renderSegs, Seg.render, renderWords]
  have hredirect : ∀ (c : Cmd) rs, (Cmd.redirect c rs).render = c.render ++ renderRedirs rs :=
    fun _ _ => rfl
  rw [Cmd.render, hredirect, hcurl, Cmd.render, hredirect, hwget, hecho, hecho,
    render_commandExists, render_commandExists]
  apply String.toList_inj.mp
  simp [renderRedirs, Redir.render]

set_option maxRecDepth 4000 in
/-- The command is the text without its line continuations and without the blanks inside the
brackets of the probe. -/
theorem render_healthCommand (url : String) (expect : List String) (method body : Option String)
    (headers : List String) (stepTimeout : Option Nat) :
    (healthCommand url expect method body headers stepTimeout).render =
      Str.join "" (healthLines "" url (httpProbeText url
        (stepTimeout.getD defaultHealthTimeoutSecs) method body headers)
        (stepTimeout.getD defaultHealthTimeoutSecs) expect) := by
  have hone : (1 : Nat).repr = "1" := rfl
  unfold healthCommand healthLoop healthRound healthLines
  dsimp only
  rw [← render_httpProbe, ← render_acceptedPatterns]
  generalize httpProbe url (stepTimeout.getD defaultHealthTimeoutSecs) method body headers = probe
  generalize toString (stepTimeout.getD defaultHealthTimeoutSecs) = secs
  apply String.toList_inj.mp
  simp [echoAnswer, echoCode, escapedDeadline, escapedQuotes, readClock, litWords, litWord,
    Cmd.render, Arms.render, Word.render, renderSegs, Seg.render, renderParts, Part.render,
    renderWords, renderSegs_append, render_quotedText, Str.join, hone]

end Rendered

end Shellflow
