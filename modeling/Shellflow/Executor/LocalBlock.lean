import Shellflow.Executor.Capture
import Shellflow.Executor.Copy
import Shellflow.Executor.Sink

/-! A local step and what it says on the way: the guard, the preview, the shell with its trace, and the
capture at the end, after which the exported values are registered. -/
namespace Shellflow.LocalBlock
open Capture (Outcome Shell Found appendCapture captureExports runStatements statementWords)
open Piped (Stream)
open Sink (Op Ui Style)

structure Config where
  verbose : Nat
  check : Bool
  dryRun : Bool

inductive ExitStatus where
  | code (n : Nat)
  | signal (name : Text)

def ExitStatus.success : ExitStatus → Bool
  | .code n => n = 0
  | .signal _ => false

def ExitStatus.text : ExitStatus → Text
  | .code n => "exit status: ".toList ++ (toString n).toList
  | .signal name => "signal: ".toList ++ name

/-- A simple command of the block: the line in which `set -x` shows its expanded words, the lines it
prints itself, and what it makes of the tracing. -/
structure OwnCommand where
  traced : Text
  prints : List (Stream × Text)
  sets : Option Bool

/-- The block's own commands, and how they leave the shell. With a status they end it. -/
structure OwnRun where
  commands : List OwnCommand
  ends : Option ExitStatus
  written : List UInt8
  vars : String → Option (List UInt8)
  nounset : Bool

inductive GuardOutcome where
  | pass
  | fail
  | timedOut
  | cancelled
  | failed

/-- What `bash -n` and the linter make of the script. -/
inductive BashN where
  | ok (findings : List (Nat × Text))
  | syntaxError (stderr : Text)
  | broken (error : Text)

/-- How the streamed child comes to its end. -/
inductive Fate where
  | completed
  | timedOut
  | pipeBroken
  | cancelled
  | broken (error : Text)

/-- What the machine does in a step: `own` is what the shell does with the text it is given, up to the
appended statements. Of the lines that the shell writes, some arrive, in some order. -/
structure World where
  guardLines : List (Stream × Text)
  guard : GuardOutcome
  bashN : BashN
  captureFile : Except Text Unit
  own : Text → OwnRun
  trace : List (List UInt8) → Text
  arrive : List (Stream × Text) → List (Stream × Text)
  arrive_mem : ∀ lines, ∀ line ∈ arrive lines, line ∈ lines
  fate : Fate
  readError : Option Text

section Shell

def runCommands (xtrace : Bool) : List OwnCommand → List (Stream × Text) × Bool
  | [] => ([], xtrace)
  | c :: commands =>
    let (rest, last) := runCommands (c.sets.getD xtrace) commands
    ((if xtrace then [(.stderr, c.traced)] else []) ++ c.prints ++ rest, last)

/-- The lines that tracing adds to the commands. -/
def tracedCommands (xtrace : Bool) : List OwnCommand → List Text
  | [] => []
  | c :: commands =>
    (if xtrace then [c.traced] else []) ++ tracedCommands (c.sets.getD xtrace) commands

/-- `-vvv` asks the shell to trace. -/
def traces (config : Config) : Bool := 3 ≤ config.verbose

def header (config : Config) : Text :=
  if traces config then "set -eux\n".toList else "set -eu\n".toList

def blockBody (step : LocalStep) : Text :=
  if step.exports = [] then step.script.toList else appendCapture step.script.toList step.exports

def ownRun (config : Config) (step : LocalStep) (w : World) : OwnRun :=
  w.own (header config ++ blockBody step)

/-- The shell when it comes to the appended statements. -/
def shellAfter (config : Config) (own : OwnRun) : Shell :=
  ⟨own.vars, (runCommands (traces config) own.commands).2, own.nounset⟩

structure ShellRun where
  lines : List (Stream × Text)
  written : List UInt8
  status : ExitStatus

def runShell (config : Config) (step : LocalStep) (w : World) : ShellRun :=
  let own := ownRun config step w
  let lines := (runCommands (traces config) own.commands).1
  match own.ends with
  | some status => ⟨lines, own.written, status⟩
  | none =>
    let out := runStatements w.trace (shellAfter config own) step.exports
    ⟨lines ++ out.lines, own.written ++ out.written, if out.passed then .code 0 else .code 1⟩

end Shell

section Block

inductive LocalFailure where
  | timeout
  | pipeBroken
  | cancelled
  | failed (error : Text)

/-- What a block hands to the sink, the variables that join the run state, and its end. -/
structure BlockRun where
  ops : List Op
  inserted : List (String × Text)
  result : Except LocalFailure Unit

def localhost : Text := "localhost".toList

def hostLines (lines : List (Stream × Text)) : List Op :=
  lines.map fun line => .hostLine localhost line.1 line.2

def runBashN : BashN → List Op × Except LocalFailure Unit
  | .ok findings =>
    (.note "  local syntax check (bash -n): OK".toList :: findings.map (fun finding =>
      .warn ("  line ".toList ++ (toString finding.1).toList ++ ": ".toList ++ finding.2)), .ok ())
  | .syntaxError stderr =>
    ([.warn ("syntax error: ".toList ++ stderr)], .error (.failed "bash -n failed".toList))
  | .broken error => ([], .error (.failed error))

/-- `debug` is how a text is written with its quotes. -/
def commandNote (debug : Text → Text) (config : Config) (step : LocalStep) : List Op :=
  if 2 ≤ config.verbose then
    [.note ("  local command: bash -c ".toList ++ debug (blockBody step))]
  else []

def content (w : World) (run : ShellRun) : Except Text (List UInt8) :=
  match w.readError with
  | some error => .error error
  | none => .ok run.written

/-- What follows when the shell has ended. -/
def finish (maskMinLen : Nat) (step : LocalStep) (w : World) (run : ShellRun) : BlockRun :=
  if run.status.success then
    if step.exports = [] then ⟨[], [], .ok ()⟩
    else
      let (inserted, result) := captureExports (content w run) step.exports maskMinLen
      match result with
      | .error error => ⟨[], inserted, .error (.failed error)⟩
      | .ok found => ⟨[.extendSecretValues found.masks found.shorts], inserted, .ok ()⟩
  else
    ⟨[], [], .error (.failed ("local script exited with status ".toList ++ run.status.text))⟩

def runLocalBlock (debug : Text → Text) (maskMinLen : Nat) (config : Config) (step : LocalStep)
    (w : World) : BlockRun :=
  if config.check || config.dryRun then
    let (ops, result) := runBashN w.bashN
    ⟨ops, [], result⟩
  else
    match (if step.exports = [] then .ok () else w.captureFile) with
    | .error error => ⟨[], [], .error (.failed error)⟩
    | .ok () =>
      let run := runShell config step w
      let said := commandNote debug config step ++ hostLines (w.arrive run.lines)
      match w.fate with
      | .completed =>
        let last := finish maskMinLen step w run
        { last with ops := said ++ last.ops }
      | .timedOut => ⟨said, [], .error .timeout⟩
      | .pipeBroken => ⟨said, [], .error .pipeBroken⟩
      | .cancelled => ⟨said, [], .error .cancelled⟩
      | .broken error => ⟨said, [], .error (.failed error)⟩

/-- What the guard says, and the outcome of the step when it ends there. -/
def evaluateGuard (config : Config) (guard : String) (w : World) : List Op × Option HostOutcome :=
  if config.dryRun || config.check then
    ([.note ("  guard not evaluated in dry-run/check: ".toList ++ guard.toList)], none)
  else
    let lines := hostLines w.guardLines
    match w.guard with
    | .pass =>
      (lines ++ (if 2 ≤ config.verbose then [.note ("  guard passed: ".toList ++ guard.toList)] else []), none)
    | .fail => (lines ++ [.note "  local guard failed — skipping block".toList], some .skipped)
    | .timedOut => (lines, some .timedOut)
    | .cancelled => (lines, some .cancelled)
    | .failed =>
      (lines ++ [.warn "local guard failed: transport/setup failure".toList], some (.failed .transport))

def preview (config : Config) (step : LocalStep) : List Op :=
  if config.dryRun || decide (2 ≤ config.verbose) then
    [.payloadPreview "Local Payload".toList (Str.linesChars step.script.toList)]
  else []

def outcomeOf : Except LocalFailure Unit → List Op × HostOutcome
  | .ok () => ([], .ok)
  | .error .timeout => ([], .timedOut)
  | .error .pipeBroken => ([], .failed .transport)
  | .error .cancelled => ([], .cancelled)
  | .error (.failed error) => ([.warn ("local step failed: ".toList ++ error)], .failed .script)

structure StepEnd where
  ops : List Op
  inserted : List (String × Text)
  outcome : HostOutcome

def runLocalStep (debug : Text → Text) (maskMinLen : Nat) (config : Config) (step : LocalStep)
    (w : World) : StepEnd :=
  let (asked, stopped) := (step.guard.map fun guard => evaluateGuard config guard w).getD ([], none)
  match stopped with
  | some outcome => ⟨asked, [], outcome⟩
  | none =>
    let block := runLocalBlock debug maskMinLen config step w
    let (told, outcome) := outcomeOf block.result
    ⟨asked ++ preview config step ++ block.ops ++ told, block.inserted, outcome⟩

end Block

section Said
variable {debug : Text → Text} {maskMinLen : Nat} {config : Config} {step : LocalStep} {w : World}
variable {trace : List (List UInt8) → Text} {sh : Shell} {exports : List ExportVar}

/-- The lines that tracing adds to the appended statements, each with the value of its variable. -/
def tracedStatements (trace : List (List UInt8) → Text) (sh : Shell) : List ExportVar → List Text
  | [] => []
  | var :: exports =>
    match sh.expand var.name with
    | none => []
    | some value =>
      (if sh.xtrace then [trace (statementWords var.name value)] else []) ++
        tracedStatements trace sh exports

/-- All lines that tracing adds to a block. -/
def tracedLines (config : Config) (step : LocalStep) (w : World) : List Text :=
  let own := ownRun config step w
  let last := match own.ends with
    | some _ => []
    | none => tracedStatements w.trace (shellAfter config own) step.exports
  tracedCommands (traces config) own.commands ++ last

/-- What shellflow itself says about a step whose block is run. -/
def announced (debug : Text → Text) (config : Config) (step : LocalStep) : List Op :=
  (step.guard.toList.flatMap fun guard =>
    if 2 ≤ config.verbose then [.note ("  guard passed: ".toList ++ guard.toList)] else []) ++
    preview config step ++ commandNote debug config step

theorem mem_runCommands {xtrace : Bool} {commands : List OwnCommand} {line : Stream × Text}
    (h : line ∈ (runCommands xtrace commands).1) :
    line.2 ∈ tracedCommands xtrace commands ∨ ∃ c ∈ commands, line ∈ c.prints := by
  induction commands generalizing xtrace with
  | nil => cases h
  | cons c commands ih =>
    rw [runCommands] at h
    rw [tracedCommands]
    rcases List.mem_append.mp h with hhere | hrest
    · rcases List.mem_append.mp hhere with htraced | hprinted
      · cases xtrace with
        | false => cases htraced
        | true =>
          rw [List.mem_singleton.mp htraced]
          exact .inl (List.mem_append_left _ List.mem_cons_self)
      · exact .inr ⟨c, List.mem_cons_self, hprinted⟩
    · rcases ih hrest with htraced | ⟨c', hc', hprinted⟩
      · exact .inl (List.mem_append_right _ htraced)
      · exact .inr ⟨c', List.mem_cons_of_mem c hc', hprinted⟩

/-- Without `-x` nothing is traced. -/
theorem tracedCommands_off {commands : List OwnCommand}
    (h : ∀ c ∈ commands, c.sets ≠ some true) :
    tracedCommands false commands = [] ∧ (runCommands false commands).2 = false := by
  induction commands with
  | nil => exact ⟨rfl, rfl⟩
  | cons c commands ih =>
    obtain ⟨hhere, hrest⟩ := List.forall_mem_cons.mp h
    have hoff : c.sets.getD false = false := by
      cases hsets : c.sets with
      | none => rfl
      | some on =>
        cases on with
        | false => rfl
        | true => exact absurd hsets hhere
    rw [tracedCommands, runCommands, hoff]
    exact ih hrest

theorem tracedStatements_off (h : sh.xtrace = false) : tracedStatements trace sh exports = [] := by
  induction exports with
  | nil => rfl
  | cons var exports ih =>
    rw [tracedStatements]
    cases sh.expand var.name with
    | none => rfl
    | some value =>
      dsimp only
      rw [h, ih]
      rfl

/-- Below `-vvv` a block that does not turn tracing on itself is not traced. -/
theorem tracedLines_off (hverbose : config.verbose < 3)
    (h : ∀ c ∈ (ownRun config step w).commands, c.sets ≠ some true) : tracedLines config step w = [] := by
  have hoff : traces config = false := decide_eq_false (by omega)
  obtain ⟨hcommands, hlast⟩ := tracedCommands_off h
  rw [tracedLines, hoff, hcommands]
  cases (ownRun config step w).ends with
  | some status => rfl
  | none => exact tracedStatements_off (by rw [shellAfter, hoff]; exact hlast)

theorem mem_runStatements {line : Stream × Text} (hpassed : (runStatements trace sh exports).passed = true)
    (h : line ∈ (runStatements trace sh exports).lines) : line.2 ∈ tracedStatements trace sh exports := by
  induction exports with
  | nil => cases h
  | cons var exports ih =>
    rw [runStatements] at hpassed h
    rw [tracedStatements]
    cases hexpand : sh.expand var.name with
    | none =>
      rw [hexpand] at hpassed
      cases hpassed
    | some value =>
      rw [hexpand] at hpassed h
      rcases List.mem_append.mp h with hhere | hrest
      · refine List.mem_append_left _ ?_
        cases hx : sh.xtrace with
        | false =>
          rw [hx] at hhere
          cases hhere
        | true =>
          rw [hx] at hhere
          rw [List.mem_singleton.mp hhere]
          exact List.mem_cons_self
      · exact List.mem_append_right _ (ih hpassed hrest)

/-- A shell that succeeds writes what its own commands print and what tracing adds. -/
theorem mem_runShell (hsuccess : (runShell config step w).status.success = true)
    {line : Stream × Text} (h : line ∈ (runShell config step w).lines) :
    line.2 ∈ tracedLines config step w ∨
      ∃ c ∈ (ownRun config step w).commands, line ∈ c.prints := by
  rw [runShell] at hsuccess h
  rw [tracedLines]
  cases hends : (ownRun config step w).ends with
  | some status =>
    rw [hends] at h
    rcases mem_runCommands h with htraced | hprinted
    · exact .inl (List.mem_append_left _ htraced)
    · exact .inr hprinted
  | none =>
    rw [hends] at hsuccess h
    rcases List.mem_append.mp h with hown | hstatements
    · rcases mem_runCommands hown with htraced | hprinted
      · exact .inl (List.mem_append_left _ htraced)
      · exact .inr hprinted
    · refine .inl (List.mem_append_right _ (mem_runStatements ?_ hstatements))
      cases hpassed :
          (runStatements w.trace (shellAfter config (ownRun config step w)) step.exports).passed with
      | true => rfl
      | false =>
        dsimp only at hsuccess
        rw [hpassed] at hsuccess
        cases hsuccess

/-- The end of a block whose variables are captured. -/
theorem finish_captured {run : ShellRun} {p : String × Text}
    (hresult : (finish maskMinLen step w run).result = .ok ())
    (hp : p ∈ (finish maskMinLen step w run).inserted) :
    ∃ found, (finish maskMinLen step w run).ops = [.extendSecretValues found.masks found.shorts] ∧
      captureExports (content w run) step.exports maskMinLen =
        ((finish maskMinLen step w run).inserted, .ok found) ∧ run.status.success = true := by
  rw [finish] at hresult hp ⊢
  cases hsuccess : run.status.success with
  | false =>
    rw [hsuccess] at hp
    cases hp
  | true =>
    rw [hsuccess, if_pos rfl] at hresult hp
    rw [if_pos rfl]
    by_cases hnone : step.exports = []
    · rw [if_pos hnone] at hp
      cases hp
    · rw [if_neg hnone] at hresult hp ⊢
      cases hcapture : captureExports (content w run) step.exports maskMinLen with
      | mk inserted result =>
        rw [hcapture] at hresult hp
        cases result with
        | error error => cases hresult
        | ok found => exact ⟨found, rfl, rfl, rfl⟩

/-- A block that exports a variable has said its command and the lines that arrived before that. -/
theorem block_captured {p : String × Text}
    (hp : p ∈ (runLocalBlock debug maskMinLen config step w).inserted) :
    (config.check = false ∧ config.dryRun = false) ∧
      (runLocalBlock debug maskMinLen config step w).ops =
        commandNote debug config step ++ hostLines (w.arrive (runShell config step w).lines) ++
          (finish maskMinLen step w (runShell config step w)).ops ∧
      (runLocalBlock debug maskMinLen config step w).inserted =
        (finish maskMinLen step w (runShell config step w)).inserted ∧
      (runLocalBlock debug maskMinLen config step w).result =
        (finish maskMinLen step w (runShell config step w)).result := by
  rw [runLocalBlock] at hp ⊢
  cases hcheck : config.check || config.dryRun with
  | true =>
    rw [hcheck, if_pos rfl] at hp
    cases hp
  | false =>
    rw [hcheck, if_neg (by decide)] at hp
    rw [if_neg (by decide)]
    refine ⟨Bool.or_eq_false_iff.mp hcheck, ?_⟩
    cases hfile : (if step.exports = [] then .ok () else w.captureFile : Except Text Unit) with
    | error error =>
      rw [hfile] at hp
      cases hp
    | ok _ =>
      rw [hfile] at hp
      cases hfate : w.fate with
      | completed => exact ⟨rfl, rfl, rfl⟩
      | timedOut | pipeBroken | cancelled | broken error =>
        simp only [hfate] at hp
        cases hp

/-- What a guard that passed has said. -/
theorem mem_asked {guard : String} (hcheck : config.check = false) (hdry : config.dryRun = false)
    (hpass : (evaluateGuard config guard w).2 = none) {op : Op}
    (hop : op ∈ (evaluateGuard config guard w).1) :
    (op ∈ if 2 ≤ config.verbose then [Op.note ("  guard passed: ".toList ++ guard.toList)] else []) ∨
      ∃ line, op = .hostLine localhost line.1 line.2 ∧ line ∈ w.guardLines := by
  rw [evaluateGuard, hcheck, hdry, if_neg (by decide)] at hpass hop
  cases houtcome : w.guard with
  | pass =>
    rw [houtcome] at hop
    rcases List.mem_append.mp hop with hline | hnote
    · obtain ⟨line, hmem, rfl⟩ := List.mem_map.mp hline
      exact .inr ⟨line, rfl, hmem⟩
    · exact .inl hnote
  | fail | timedOut | cancelled | failed =>
    rw [houtcome] at hpass
    cases hpass

theorem outcome_ok {result : Except LocalFailure Unit} (h : (outcomeOf result).2 = .ok) :
    result = .ok () := by
  cases result with
  | ok _ => rfl
  | error failure => cases failure <;> cases h

/-- What a step that exports a variable has said before the values are registered. -/
theorem step_captured {p : String × Text}
    (hok : (runLocalStep debug maskMinLen config step w).outcome = .ok)
    (hp : p ∈ (runLocalStep debug maskMinLen config step w).inserted) :
    ∃ said found, (runLocalStep debug maskMinLen config step w).ops =
        said ++ [.extendSecretValues found.masks found.shorts] ∧
      captureExports (content w (runShell config step w)) step.exports maskMinLen =
        ((runLocalStep debug maskMinLen config step w).inserted, .ok found) ∧
      (runShell config step w).status.success = true ∧
      ∀ op ∈ said, op ∈ announced debug config step ∨
        ∃ line, op = .hostLine localhost line.1 line.2 ∧
          (line ∈ w.guardLines ∨ line ∈ (runShell config step w).lines) := by
  rw [runLocalStep] at hok hp ⊢
  cases hguard : (step.guard.map fun guard => evaluateGuard config guard w).getD ([], none) with
  | mk asked stopped =>
    rw [hguard] at hok hp
    cases stopped with
    | some outcome => cases hp
    | none =>
      have hresult := outcome_ok hok
      have hp : p ∈ (runLocalBlock debug maskMinLen config step w).inserted := hp
      obtain ⟨⟨hcheck, hdry⟩, hblockOps, hinserted, hblockResult⟩ := block_captured hp
      obtain ⟨found, hops, hcapture, hsuccess⟩ :=
        finish_captured (hblockResult ▸ hresult) (hinserted ▸ hp)
      refine ⟨asked ++ preview config step ++ (commandNote debug config step ++
        hostLines (w.arrive (runShell config step w).lines)), found, ?_, ?_, hsuccess, ?_⟩
      · dsimp only
        rw [hblockOps, hops, hresult, outcomeOf, List.append_nil, List.append_assoc (_ ++ _)]
      · dsimp only
        rw [hinserted]
        exact hcapture
      · intro op hop
        rcases List.mem_append.mp hop with hbefore | hblockOp
        · rcases List.mem_append.mp hbefore with hasked | hpreview
          · cases hstep : step.guard with
            | none =>
              rw [hstep] at hguard
              cases hguard
              cases hasked
            | some guard =>
              rw [hstep] at hguard
              have heval : evaluateGuard config guard w = (asked, none) := hguard
              have hhere : op ∈ (evaluateGuard config guard w).1 := by
                rw [heval]
                exact hasked
              rcases mem_asked hcheck hdry (congrArg Prod.snd heval) hhere with
                hnote | ⟨line, rfl, hline⟩
              · refine .inl (List.mem_append_left _ (List.mem_append_left _ ?_))
                exact List.mem_flatMap.mpr ⟨guard, Option.mem_toList.mpr hstep, hnote⟩
              · exact .inr ⟨line, rfl, .inl hline⟩
          · exact .inl (List.mem_append_left _ (List.mem_append_right _ hpreview))
        · rcases List.mem_append.mp hblockOp with hnote | hline
          · exact .inl (List.mem_append_right _ hnote)
          · obtain ⟨line, hmem, rfl⟩ := List.mem_map.mp hline
            exact .inr ⟨line, rfl, .inr (w.arrive_mem _ line hmem)⟩

/-- Nothing that is announced touches the registry. -/
theorem speaks_announced : ∀ op ∈ announced debug config step, op.Speaks := by
  intro op hop
  rcases List.mem_append.mp hop with hbefore | hcommand
  · rcases List.mem_append.mp hbefore with hguard | hpreview
    · obtain ⟨guard, -, hnote⟩ := List.mem_flatMap.mp hguard
      split at hnote
      · rw [List.mem_singleton.mp hnote]
        exact ⟨nofun, nofun⟩
      · cases hnote
    · rw [preview] at hpreview
      split at hpreview
      · rw [List.mem_singleton.mp hpreview]
        exact ⟨nofun, nofun⟩
      · cases hpreview
  · rw [commandNote] at hcommand
    split at hcommand
    · rw [List.mem_singleton.mp hcommand]
      exact ⟨nofun, nofun⟩
    · cases hcommand

end Said

section Exported
variable {codes : Style → Text × Text} {debug : Text → Text} {maskMinLen : Nat} {config : Config}
variable {step : LocalStep} {w : World} {ui : Ui} {v : Text}

/-- Nothing that is said of a step before its values are registered shows the value: what the guard and
the block's own commands print, what tracing adds to the block, and what shellflow announces. -/
structure Discreet (v : Text) (codes : Style → Text × Text) (debug : Text → Text) (ui : Ui)
    (config : Config) (step : LocalStep) (w : World) : Prop where
  guard : ∀ line ∈ w.guardLines, ¬ v <:+: line.2
  own : ∀ c ∈ (ownRun config step w).commands, ∀ line ∈ c.prints, ¬ v <:+: line.2
  traced : v ∈ ui.set.masks ∨ ∀ line ∈ tracedLines config step w, ¬ v <:+: line
  announced : ∀ op ∈ announced debug config step, Sink.OpWithheld v codes ui op

/-- When the own commands leave the capture file alone, the value that is exported is the one that the
shell expands, which the traced statement shows. -/
theorem exported_value {x : String} (hends : (ownRun config step w).ends = none)
    (hwritten : (ownRun config step w).written = [])
    (hnames : ∀ var ∈ step.exports, isValidVarName var.name = true)
    (hvalues : ∀ var ∈ step.exports, ∀ value,
      (shellAfter config (ownRun config step w)).expand var.name = some value →
      Capture.captureSeparator ∉ value ∧ (Capture.fromUtf8 value).isSome)
    (hok : (runLocalStep debug maskMinLen config step w).outcome = .ok)
    (hexported : (x, v) ∈ (runLocalStep debug maskMinLen config step w).inserted) :
    ((shellAfter config (ownRun config step w)).expand x).bind Capture.fromUtf8 = some v := by
  obtain ⟨said, found, -, hcapture, hsuccess, -⟩ := step_captured hok hexported
  have hpassed :
      (runStatements w.trace (shellAfter config (ownRun config step w)) step.exports).passed = true := by
    rw [runShell, hends] at hsuccess
    cases hp : (runStatements w.trace (shellAfter config (ownRun config step w)) step.exports).passed with
    | true => rfl
    | false =>
      dsimp only at hsuccess
      rw [hp] at hsuccess
      cases hsuccess
  have hfile : (runShell config step w).written =
      (runStatements w.trace (shellAfter config (ownRun config step w)) step.exports).written := by
    rw [runShell, hends, hwritten]
    rfl
  cases hread : w.readError with
  | some error =>
    rw [content, hread] at hcapture
    have hfailed := congrArg Prod.snd hcapture
    cases hfailed
  | none =>
    rw [content, hread, hfile] at hcapture
    have hmem : (x, v) ∈ (captureExports (.ok (runStatements w.trace
        (shellAfter config (ownRun config step w)) step.exports).written) step.exports maskMinLen).1 := by
      rw [hcapture]
      exact hexported
    exact Capture.inserted_of_statements hnames hvalues hpassed hmem

/-- Up to the registration the texts of a discreet step do not show the value; then it is registered. -/
theorem step_withheld {var : ExportVar} (hvar : var ∈ step.exports)
    (hprivate : var.isPublic = false) (hne : v ≠ []) (hlen : maskMinLen ≤ byteLen v)
    (hok : (runLocalStep debug maskMinLen config step w).outcome = .ok)
    (hexported : (var.name, v) ∈ (runLocalStep debug maskMinLen config step w).inserted)
    (h : Discreet v codes debug ui config step w) :
    Sink.Along (Sink.OpWithheld v codes) codes ui (runLocalStep debug maskMinLen config step w).ops ∧
      v ∈ (Sink.after codes ui (runLocalStep debug maskMinLen config step w).ops).set.masks := by
  obtain ⟨said, found, hops, hcapture, hsuccess, hsaid⟩ := step_captured hok hexported
  have hfound : v ∈ found.masks :=
    Capture.registered_captureExports hcapture hvar hexported hprivate hne hlen
  have hspeaks : ∀ op ∈ said, op.Speaks := by
    intro op hop
    rcases hsaid op hop with hannounced | ⟨line, rfl, -⟩
    · exact speaks_announced op hannounced
    · exact ⟨nofun, nofun⟩
  have hwithheld : ∀ op ∈ said, Sink.OpWithheld v codes ui op := by
    intro op hop
    rcases hsaid op hop with hannounced | ⟨line, rfl, hline⟩
    · exact h.announced op hannounced
    · intro text htext
      rw [List.mem_singleton.mp htext]
      rcases hline with hguard | hshell
      · exact .inr (h.guard line hguard)
      · rcases mem_runShell hsuccess hshell with htraced | ⟨c, hc, hprinted⟩
        · exact h.traced.imp_right fun hnot => hnot line.2 htraced
        · exact .inr (h.own c hc line hprinted)
  rw [hops]
  refine ⟨Sink.along_append.mpr ⟨Sink.withheld_of_forall hspeaks hwithheld, nofun, trivial⟩, ?_⟩
  rw [Sink.after_append]
  exact Sink.mem_registered hfound hne

/-- An exported value is not written in a run, whatever the plan does after the step. -/
theorem export_hidden (codes : Style → Text × Text) (debug : Text → Text) (maskMinLen : Nat)
    (config : Config) (grouped logFile : Bool) (before after : List Op) (step : LocalStep) (w : World)
    {var : ExportVar} {v : Text} (hvar : var ∈ step.exports) (hprivate : var.isPublic = false)
    (hexported : (var.name, v) ∈ (runLocalStep debug maskMinLen config step w).inserted)
    (hne : v ≠ []) (hlen : maskMinLen ≤ byteLen v) (hstar : '*' ∉ v)
    (hok : (runLocalStep debug maskMinLen config step w).outcome = .ok)
    (hbefore : Sink.Along (Sink.OpWithheld v codes) codes (Ui.start config.verbose grouped logFile)
      before)
    (hstep : Discreet v codes debug (Sink.after codes (Ui.start config.verbose grouped logFile) before)
      config step w)
    (hafter : ∀ op ∈ after, ∀ masks shorts, op ≠ .setSecretValues masks shorts)
    (hbare : Sink.Along (Sink.OpBare v codes) codes (Ui.start config.verbose grouped logFile)
      (before ++ ((runLocalStep debug maskMinLen config step w).ops ++ after))) :
    ∀ p ∈ Sink.run codes (Ui.start config.verbose grouped logFile)
      (before ++ ((runLocalStep debug maskMinLen config step w).ops ++ after)),
      ¬ v <:+: p.2.text := by
  have hstart := Sink.current_start config.verbose grouped logFile
  have hcurrent : Sink.Current (Sink.after codes (Ui.start config.verbose grouped logFile) before) :=
    Sink.current_after hstart before
  obtain ⟨hwithheld, hregistered⟩ := step_withheld hvar hprivate hne hlen hok hexported hstep
  have hlater := @Sink.withheld_of_registered codes _ v
    (Sink.current_after hcurrent (runLocalStep debug maskMinLen config step w).ops) hregistered after hafter
  exact (Sink.unseen_run hstart hstar (Sink.unseen_start v config.verbose grouped logFile)
    (Sink.along_append.mpr ⟨hbefore, Sink.along_append.mpr ⟨hwithheld, hlater⟩⟩) hbare).2

section Token
open Bytes

/-- A word as `set -x` prints it, with quotes where the shell would need them. -/
def quoteWord (word : List UInt8) : Text :=
  let text := (BufRead.decode word).1
  if text.all fun c => isAsciiAlphanumeric c || c == '_' || c == '-' then text
  else '\'' :: text ++ ['\'']

def xtrace (words : List (List UInt8)) : Text :=
  "+".toList ++ words.flatMap fun word => ' ' :: quoteWord word

/-- `@export TOKEN`, which the block reads from a file. -/
def tokenStep : LocalStep where
  name := none
  script := "read -r TOKEN < vault\necho ready"
  guard := none
  timeout := none
  exports := [⟨"TOKEN", false⟩]
  env := []

def tokenWorld : World where
  guardLines := []
  guard := .pass
  bashN := .ok []
  captureFile := .ok ()
  own := fun _ =>
    { commands := [⟨"+ read -r TOKEN".toList, [], none⟩,
        ⟨"+ echo ready".toList, [(.stdout, "ready".toList)], none⟩]
      ends := none
      written := []
      vars := fun name => if name = "TOKEN" then some (encode Sink.secretValue) else none
      nounset := true }
  trace := xtrace
  arrive := id
  arrive_mem := fun _ _ h => h
  fate := .completed
  readError := none

theorem lineBare_secret (ui : Ui) (host : Text) (stream : Stream) (text : Text)
    (htag : ¬ Sink.secretValue <:+: Sink.hostTag host ++ [' '])
    (hlog : ¬ Sink.secretValue <:+: Sink.hostTag host ++ [' '] ++ Sink.marker stream ++ [' ']) :
    Sink.LineBare Sink.secretValue Sink.plain ui ⟨host, stream, text⟩ :=
  Sink.lineBare_plain (by decide) (by decide) (by decide) htag hlog

/-- A host that prints the token after the step. -/
theorem export_hidden_token :
    (runLocalStep id 4 ⟨0, false, false⟩ tokenStep tokenWorld).inserted = [("TOKEN", Sink.secretValue)] ∧
      ∀ p ∈ Sink.run Sink.plain (Ui.start 0 false true)
        ([.report "start".toList] ++ ((runLocalStep id 4 ⟨0, false, false⟩ tokenStep tokenWorld).ops ++
          [.hostLine "api".toList .stdout "pw hunter22".toList])),
        ¬ Sink.secretValue <:+: p.2.text := by
  have hops : (runLocalStep id 4 ⟨0, false, false⟩ tokenStep tokenWorld).ops =
      [.hostLine localhost .stdout "ready".toList, .extendSecretValues [Sink.secretValue] []] := rfl
  have hinserted : (runLocalStep id 4 ⟨0, false, false⟩ tokenStep tokenWorld).inserted =
      [("TOKEN", Sink.secretValue)] := rfl
  refine ⟨hinserted, ?_⟩
  refine export_hidden Sink.plain id 4 ⟨0, false, false⟩ false true [.report "start".toList]
    [.hostLine "api".toList .stdout "pw hunter22".toList] tokenStep tokenWorld
    (List.mem_singleton.mpr rfl) rfl (hinserted ▸ List.mem_singleton.mpr rfl) (by decide) (by decide)
    (by decide) rfl ?_ ⟨nofun, ?_, .inr ?_, nofun⟩ ?_ ?_
  · refine ⟨?_, trivial⟩
    intro text htext
    rw [List.mem_singleton.mp htext]
    exact .inr (by decide)
  · intro c hc line hline
    have hlines : line = (.stdout, "ready".toList) := by
      rcases List.mem_cons.mp hc with rfl | hc
      · cases hline
      · rw [List.mem_singleton.mp hc] at hline
        exact List.mem_singleton.mp hline
    rw [hlines]
    decide
  · rw [tracedLines_off (by decide) (by decide)]
    exact nofun
  · intro op hop
    rw [List.mem_singleton.mp hop]
    exact nofun
  · rw [hops]
    refine ⟨?_, ?_, nofun, ?_, trivial⟩
    · exact fun text _ => Sink.bare_lineEnd (by decide) (by decide)
    · exact fun _ => lineBare_secret _ localhost .stdout _ (by decide) (by decide)
    · exact fun _ => lineBare_secret _ "api".toList .stdout _ (by decide) (by decide)

/-- At `-vvv` the statement that captures the token is traced, with the token as a word. -/
theorem captured_value_traced :
    ¬ ∀ (codes : Style → Text × Text) (debug : Text → Text) (maskMinLen : Nat) (config : Config)
      (grouped logFile : Bool) (step : LocalStep) (w : World) (var : ExportVar) (v : Text),
      var ∈ step.exports → var.isPublic = false →
      (var.name, v) ∈ (runLocalStep debug maskMinLen config step w).inserted →
      v ≠ [] → maskMinLen ≤ byteLen v → '*' ∉ v →
      ¬ v <:+: step.script.toList → w.guardLines = [] →
      (∀ c ∈ (ownRun config step w).commands, ¬ v <:+: c.traced ∧ ∀ line ∈ c.prints, ¬ v <:+: line.2) →
      ∀ p ∈ Sink.run codes (Ui.start config.verbose grouped logFile)
        (runLocalStep debug maskMinLen config step w).ops, ¬ v <:+: p.2.text := by
  intro h
  have hinserted : (runLocalStep id 4 ⟨3, false, false⟩ tokenStep tokenWorld).inserted =
      [("TOKEN", Sink.secretValue)] := rfl
  have hshown : ([], Sink.Write.mk .stderr
      "[localhost] + printf '%s=%s\\0' TOKEN hunter22\n".toList) ∈
      Sink.run Sink.plain (Ui.start 3 false true)
        (runLocalStep id 4 ⟨3, false, false⟩ tokenStep tokenWorld).ops := by
    decide +kernel
  refine h Sink.plain id 4 ⟨3, false, false⟩ false true tokenStep tokenWorld ⟨"TOKEN", false⟩
    Sink.secretValue (List.mem_singleton.mpr rfl) rfl (hinserted ▸ List.mem_singleton.mpr rfl)
    (by decide) (by decide) (by decide) (by decide) rfl (by decide) _ hshown (by decide +kernel)

end Token

end Exported

end Shellflow.LocalBlock
