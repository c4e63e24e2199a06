import Shellflow.Dsl.Interpolate
import Shellflow.Executor.AssertHealth
import Shellflow.Executor.AssertRendered

/-! The command of each assertion: the checks that ask systemd or the helper on the target, as text
and as commands of the shell, and the choice among all of them. -/
namespace Shellflow
open Shell

/-- Where the helper is on a target. -/
def helperPath : String := "/usr/local/bin/shellflow"

section Text

/-- A check of one state that `systemctl` prints. -/
def systemctlCheckText (verb said unit state : String) : String :=
  "s=$(systemctl " ++ verb ++ " " ++ shellQuoteSingle unit ++ " 2>/dev/null); if [ \"$s\" = " ++
    shellQuoteSingle state ++ " ]; then echo \"" ++ shellQuoteSingle unit ++ " " ++ said ++
    " $s\"; else echo \"" ++ shellQuoteSingle unit ++ " " ++ said ++ " $s (want " ++
    shellQuoteSingle state ++ ")\"; false; fi"

def unitStateCommandText (unit : String) (state : ActiveState) : String :=
  systemctlCheckText "is-active" "is" unit state.asStr

def enabledCommandText (unit : String) (state : EnabledState) : String :=
  systemctlCheckText "is-enabled" "is-enabled" unit state.asStr

/-- A check that the helper on the target makes. -/
def helperCheckText (verb directive operand : String) (options : String) : String :=
  "if [ -x " ++ shellQuoteSingle helperPath ++ " ]; then exec " ++ shellQuoteSingle helperPath ++
    " host " ++ verb ++ " " ++ shellQuoteSingle operand ++ options ++
    "; fi; echo 'the target-side shellflow helper is required for @" ++ directive ++ "'; false"

def noLeakCommandText (unit : String) (lines : Option Nat) : String :=
  helperCheckText "assert-no-leak" "assert_no_leak" unit (" --lines " ++ toString (lines.getD 200))

def digestOptions (sha256 localPath : Option String) : List (String × String) :=
  (sha256.map fun d => ("--sha256", d)).toList ++ (localPath.map fun l => ("--local", l)).toList

def digestCommandText (path : String) (sha256 localPath : Option String) : String :=
  helperCheckText "assert-digest" "assert_digest" path (renderOptions (digestOptions sha256 localPath))

def credstoreCommandText (service : String) : String :=
  helperCheckText "assert-credstore" "assert_credstore" service ""

def commandForText (check : Assertion) (stepTimeout : Option Nat) : String :=
  match check with
  | .unitState unit state => unitStateCommandText unit state
  | .enabled unit state => enabledCommandText unit state
  | .portFree ports => portFreeCommandText ports
  | .port ports udp => portCommandText ports udp stepTimeout
  | .rendered path => renderedCommandText path
  | .health url expect method body headers =>
    healthCommandText url expect method body headers stepTimeout
  | .noLeak unit lines => noLeakCommandText unit lines
  | .digest path sha256 localPath => digestCommandText path sha256 localPath
  | .credstore service => credstoreCommandText service

end Text

section Commands

/-- The quotes of the unit and of the state are characters of the message. -/
def echoState (unit said : String) (rest : List Part) : Cmd :=
  .simple [litWord "echo",
    .joined [.double (.lit (shellQuoteSingle unit ++ " " ++ said ++ " ") :: .var "s" :: rest)]]

def systemctlCheck (verb said unit state : String) : Cmd :=
  .seq (.assign "s" (.bare (.subst (.redirect
      (.simple [litWord "systemctl", litWord verb, quotedWord unit]) [.errNull]))))
    (.cond (.simple [litWord "[", quotedVar "s", litWord "=", quotedWord state, litWord "]"])
      (echoState unit said [])
      (.seq (echoState unit said [.lit (" (want " ++ shellQuoteSingle state ++ ")")])
        (litWords ["false"])))

def unitStateCommand (unit : String) (state : ActiveState) : Cmd :=
  systemctlCheck "is-active" "is" unit state.asStr

def enabledCommand (unit : String) (state : EnabledState) : Cmd :=
  systemctlCheck "is-enabled" "is-enabled" unit state.asStr

def helperCheck (verb directive operand : String) (options : List Word) : Cmd :=
  .seq (.when (.simple [litWord "[", litWord "-x", quotedWord helperPath, litWord "]"])
      (.simple (litWord "exec" :: quotedWord helperPath ::
        ([litWord "host", litWord verb, quotedWord operand] ++ options))))
    (.seq (echoText ("the target-side shellflow helper is required for @" ++ directive))
      (litWords ["false"]))

def noLeakCommand (unit : String) (lines : Option Nat) : Cmd :=
  helperCheck "assert-no-leak" "assert_no_leak" unit
    [litWord "--lines", litWord (toString (lines.getD 200))]

def digestCommand (path : String) (sha256 localPath : Option String) : Cmd :=
  helperCheck "assert-digest" "assert_digest" path (optionWords (digestOptions sha256 localPath))

def credstoreCommand (service : String) : Cmd :=
  helperCheck "assert-credstore" "assert_credstore" service []

def commandFor (check : Assertion) (stepTimeout : Option Nat) : Cmd :=
  match check with
  | .unitState unit state => unitStateCommand unit state
  | .enabled unit state => enabledCommand unit state
  | .portFree ports => portFreeCommand ports
  | .port ports udp => portCommand ports udp stepTimeout
  | .rendered path => renderedCommand path
  | .health url expect method body headers => healthCommand url expect method body headers stepTimeout
  | .noLeak unit lines => noLeakCommand unit lines
  | .digest path sha256 localPath => digestCommand path sha256 localPath
  | .credstore service => credstoreCommand service

end Commands

def Assertion.isHealth : Assertion → Bool
  | .health _ _ _ _ _ => true
  | _ => false

section Rendered

theorem render_systemctlCheck (verb said unit state : String) :
    (systemctlCheck verb said unit state).render = systemctlCheckText verb said unit state := by
  unfold systemctlCheck systemctlCheckText
  apply String.toList_inj.mp
  simp [echoState, quotedVar, quotedWord, litWords, litWord, Cmd.render, Word.render, renderSegs,
    Seg.render, renderParts, Part.render, renderWords, renderRedirs, Redir.render, render_quotedText]

theorem render_helperCheck {verb directive operand text : String} {options : List Word}
    (h : renderWords (quotedWord operand :: options) = shellQuoteSingle operand ++ text) :
    (helperCheck verb directive operand options).render =
      helperCheckText verb directive operand text := by
  have hexec : renderWords (litWord "exec" :: quotedWord helperPath ::
      ([litWord "host", litWord verb, quotedWord operand] ++ options)) =
      "exec " ++ shellQuoteSingle helperPath ++ " host " ++ verb ++ " " ++
        shellQuoteSingle operand ++ text := by
    have hsplit : litWord "exec" :: quotedWord helperPath ::
        ([litWord "host", litWord verb, quotedWord operand] ++ options) =
        [litWord "exec", quotedWord helperPath, litWord "host", litWord verb] ++
          (quotedWord operand :: options) := rfl
    rw [hsplit, renderWords_append _ _ (by simp) (by simp), h]
    apply String.toList_inj.mp
    simp [quotedWord, litWord, Word.render, renderSegs, Seg.render, renderWords, render_quotedText]
  have hwhen : ∀ (c : Cmd) ws, (Cmd.when c (.simple ws)).render =
      "if " ++ (c.render ++ ("; then " ++ (renderWords ws ++ "; fi"))) := fun _ _ => rfl
  unfold helperCheck helperCheckText
  rw [render_seq, hwhen, hexec]
  apply String.toList_inj.mp
  simp [echoText, quotedWord, litWords, litWord, Cmd.render, Word.render, renderSegs, Seg.render,
    renderWords, render_quotedText]

theorem renderWords_operand (operand : String) (options : List (String × String)) :
    renderWords (quotedWord operand :: optionWords options) =
      shellQuoteSingle operand ++ renderOptions options := by
  induction options generalizing operand with
  | nil =>
    apply String.toList_inj.mp
    simp [optionWords, renderOptions, renderWords, quotedWord, Word.render, render_quotedText]
  | cons o options ih =>
    have hsplit : quotedWord operand :: optionWords (o :: options) =
        [quotedWord operand, litWord o.1] ++ (quotedWord o.2 :: optionWords options) := rfl
    rw [hsplit, renderWords_append _ _ (by simp) (by simp), ih, renderOptions]
    apply String.toList_inj.mp
    simp [renderWords, quotedWord, litWord, Word.render, renderSegs, Seg.render, render_quotedText]

/-- The text of every command but the one of a health check, whose lines are joined first. -/
theorem render_commandFor {check : Assertion} (h : check.isHealth = false)
    (stepTimeout : Option Nat) :
    (commandFor check stepTimeout).render = commandForText check stepTimeout := by
  cases check with
  | unitState unit state => exact render_systemctlCheck _ _ _ _
  | enabled unit state => exact render_systemctlCheck _ _ _ _
  | portFree ports => exact render_portFreeCommand ports
  | port ports udp => exact render_portCommand ports udp stepTimeout
  | rendered path => exact render_renderedCommand path
  | health url expect method body headers => cases h
  | noLeak unit lines =>
    refine render_helperCheck ?_
    generalize toString (lines.getD 200) = count
    apply String.toList_inj.mp
    simp [renderWords, quotedWord, litWord, Word.render, renderSegs, Seg.render, render_quotedText]
  | digest path sha256 localPath => exact render_helperCheck (renderWords_operand path _)
  | credstore service =>
    refine render_helperCheck ?_
    exact renderWords_operand service []

end Rendered

section Resolved

/-- The captured variables in one check; what it expects is not a text to resolve. -/
def interpolateCheck (check : Assertion) (vars : String → Option String) :
    Except InterpolateError Assertion :=
  match check with
  | .rendered path => (interpolate path vars).map Assertion.rendered
  | .enabled unit expected => (interpolate unit vars).map fun unit => .enabled unit expected
  | .noLeak unit lines => (interpolate unit vars).map fun unit => .noLeak unit lines
  | .digest path sha256 localPath =>
    (interpolate path vars).map fun path => .digest path sha256 localPath
  | .health url expect method body headers =>
    (interpolate url vars).map fun url => .health url expect method body headers
  | other => .ok other

/-- The checks of a step on the way to the target; the first error stops the step. -/
def resolveChecks (checks : List Assertion) (vars : String → Option String) :
    Except InterpolateError (List Assertion) :=
  checks.mapM fun check => interpolateCheck check vars

end Resolved

end Shellflow
