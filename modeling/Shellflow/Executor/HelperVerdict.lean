import Shellflow.Executor.Copy
import Shellflow.Muxy.Outcome

/-! A command ends on the target, and its verdict comes back through muxy or through ssh. -/
namespace Shellflow

namespace Helper

def ok : Int := 0
def failed : Int := 3
def timeout : Int := 4
def notFound : Int := 5

end Helper

/-- The verdict of one exit code of the helper. -/
def classifyHelperExit (code : Int) : HostOutcome :=
  if code = Helper.ok then .ok
  -- the connection failed, not the operation
  else if code = 255 then .failed .transport
  else if code = Helper.timeout then .timedOut
  else .failed .script

inductive HelperVerb
  | reload
  | wait
deriving DecidableEq

namespace HelperVerb

def done : HelperVerb → String
  | reload => "reloaded"
  | wait => "active"

def failed : HelperVerb → String
  | reload => "reload failed"
  | wait => "failed"

def noun : HelperVerb → String
  | reload => "reload failed"
  | wait => "wait failed"

end HelperVerb

def helperNote (code : Int) (unit : String) (verb : HelperVerb) (budgetSecs : Nat) : Option String :=
  if code = 255 then none
  else some <|
    if code = Helper.ok then s!"{unit} {verb.done}"
    else if code = Helper.failed then s!"{unit} {verb.failed}"
    else if code = Helper.timeout then s!"{unit} not ready after {budgetSecs}s"
    else if code = Helper.notFound ∧ verb = .wait then s!"{unit} does not exist"
    else s!"{unit} {verb.noun} (exit {code})"

/-- The outcome of a host, and what the operator reads about it. -/
structure HostReport where
  outcome : HostOutcome
  notes : List String
  warnings : List String

/-- The words of a step for an exit code. -/
abbrev ExplainExit := Int → Option String

def mapMuxyOutcome (outcome : MuxyOutcome) (host : String) (explainExit : Option ExplainExit) :
    HostReport :=
  match outcome with
  | .ok => ⟨.ok, [], []⟩
  | .skipped => ⟨.skipped, [s!"[{host}] SKIPPED (guard)"], []⟩
  | .failedScript message exit =>
    let message := (exit.bind fun code => explainExit.bind fun explain => explain code).getD message
    ⟨.failed .script, [], [s!"[{host}] {message}"]⟩
  | .failedTransport message => ⟨.failed .transport, [], [s!"[{host}] {message}"]⟩
  | .timedOut => ⟨.timedOut, [], []⟩
  | .cancelled => ⟨.cancelled, [], []⟩

/-- A step that runs one command on the target: `@service`, `@install`, `@backup` and `@credstore`
run a verb of the helper under a label, `@reload` and `@wait_active` have words of their own. -/
inductive TargetStep
  | command (label : String)
  | unit (verb : HelperVerb) (name : String) (budgetSecs : Nat)

/-- How the command ends on the target; the code 255 is kept for ssh. -/
inductive TargetEnd
  | exited (code : {c : Int // c ≠ 255})
  | signaled (signum : Int)
deriving DecidableEq

/-- The code of the child, when it has one. -/
def TargetEnd.code : TargetEnd → Option Int
  | exited code => some code
  | signaled _ => none

def TargetEnd.reason : TargetEnd → ExitReason
  | exited code => .exited code
  | signaled signum => .signaled signum

namespace TargetStep

def explainExit : TargetStep → Option ExplainExit
  | command _ => none
  | unit verb name budgetSecs => some fun code => helperNote code name verb budgetSecs

/-- What is noted of a verb of the helper. -/
def commandNote (label : String) (code : Int) : Option String :=
  match classifyHelperExit code with
  | .ok => some s!"{label} ok"
  | .timedOut => some s!"{label} timed out"
  | .failed .transport => none
  | _ => some (if code = Helper.failed then s!"{label} failed" else s!"{label} failed (exit {code})")

/-- The report of a child of ssh that ended by itself. -/
def sshReport (step : TargetStep) (host : String) (code : Option Int) : HostReport :=
  match step with
  | command label =>
    match code with
    | none => ⟨.failed .script, [s!"[{host}] {label} terminated by a signal"], []⟩
    | some code =>
      ⟨classifyHelperExit code, ((commandNote label code).map fun n => s!"[{host}] {n}").toList, []⟩
  | unit verb name budgetSecs =>
    let code := code.getD (-1)
    ⟨classifyHelperExit code,
      ((helperNote code name verb budgetSecs).map fun n => s!"[{host}] {n}").toList, []⟩

/-- A command has no guard. -/
def muxyReport (step : TargetStep) (host : String) (reason : ExitReason) : HostReport :=
  let report := mapMuxyOutcome (mapExitReason reason false) host step.explainExit
  match step with
  | command _ => report
  | unit verb name _ =>
    if report.outcome = .ok then
      { report with notes := report.notes ++ [s!"[{host}] {name} {verb.done}"] }
    else report

section Verdicts
variable (step : TargetStep) (host : String)

theorem sshReport_outcome (code : Option Int) :
    (step.sshReport host code).outcome = classifyHelperExit (code.getD (-1)) := by
  cases step with
  | command label => cases code <;> rfl
  | unit verb name budgetSecs => rfl

theorem muxyReport_outcome (reason : ExitReason) :
    (step.muxyReport host reason).outcome =
      (mapMuxyOutcome (mapExitReason reason false) host step.explainExit).outcome := by
  cases step with
  | command label => rfl
  | unit verb name budgetSecs => simp only [muxyReport]; split <;> rfl

theorem muxyReport_exited (code : Int) :
    (step.muxyReport host (.exited code)).outcome =
      if code = Helper.ok then .ok else .failed .script := by
  rw [muxyReport_outcome]
  by_cases h : code = Helper.ok
  · simp [mapExitReason, mapMuxyOutcome, h, Helper.ok]
  · have h0 : ¬ code = 0 := h
    simp [mapExitReason, mapMuxyOutcome, h, h0]

theorem muxyReport_signaled (signum : Int) :
    (step.muxyReport host (.signaled signum)).outcome = .failed .script := by
  rw [muxyReport_outcome]
  rfl

theorem classifyHelperExit_script {code : Int} (hok : code ≠ Helper.ok) (hssh : code ≠ 255)
    (htime : code ≠ Helper.timeout) : classifyHelperExit code = .failed .script := by
  simp [classifyHelperExit, hok, hssh, htime]

/-- Each ending that is no timeout of the helper has one verdict. -/
theorem outcome_eq {e : TargetEnd} (h : e.code ≠ some Helper.timeout) :
    (step.muxyReport host e.reason).outcome = (step.sshReport host e.code).outcome := by
  rw [sshReport_outcome]
  cases e with
  | signaled signum => exact muxyReport_signaled step host signum
  | exited code =>
    have htime : code.val ≠ Helper.timeout := fun hc => h (congrArg some hc)
    rw [TargetEnd.reason, TargetEnd.code, Option.getD_some, muxyReport_exited]
    by_cases hok : code.val = Helper.ok
    · rw [if_pos hok, hok]
      rfl
    · rw [if_neg hok, classifyHelperExit_script hok code.property htime]

/-- A budget that ran out on the target is a failed script through muxy. -/
theorem outcome_timeout {e : TargetEnd} (h : e.code = some Helper.timeout) :
    (step.muxyReport host e.reason).outcome = .failed .script ∧
      (step.sshReport host e.code).outcome = .timedOut := by
  rw [sshReport_outcome]
  cases e with
  | signaled signum => cases h
  | exited code =>
    have hcode : code.val = Helper.timeout := Option.some.inj h
    rw [TargetEnd.reason, TargetEnd.code, muxyReport_exited, hcode]
    exact ⟨rfl, rfl⟩

/-- The operator reads the same words about a unit whose command failed. -/
theorem same_words (verb : HelperVerb) (name : String) (budgetSecs : Nat)
    {code : Int} (hok : code ≠ Helper.ok) (hssh : code ≠ 255) :
    ((unit verb name budgetSecs).muxyReport host (.exited code)).warnings =
      ((unit verb name budgetSecs).sshReport host (some code)).notes := by
  have h0 : ¬ code = 0 := hok
  simp [muxyReport, sshReport, mapExitReason, mapMuxyOutcome, explainExit, h0, helperNote, hssh]

end Verdicts

/-- The error of a step does not depend on the transport when no command ran out of its budget. -/
theorem stepErrorIfFailed_eq (step : TargetStep) (ends : List (String × TargetEnd))
    (h : ∀ p ∈ ends, p.2.code ≠ some Helper.timeout) :
    stepErrorIfFailed (ends.map fun p => (p.1, (step.muxyReport p.1 p.2.reason).outcome)) =
      stepErrorIfFailed (ends.map fun p => (p.1, (step.sshReport p.1 p.2.code).outcome)) := by
  rw [List.map_congr_left fun p hp => congrArg (Prod.mk p.1) (outcome_eq step p.1 (h p hp))]

/-- The two transports give one verdict exactly to the endings that are no timeout. -/
theorem same_verdict_iff (step : TargetStep) (host : String) (e : TargetEnd) :
    (step.muxyReport host e.reason).outcome = (step.sshReport host e.code).outcome ↔
      e.code ≠ some Helper.timeout := by
  refine ⟨fun h htime => ?_, outcome_eq step host⟩
  obtain ⟨hmuxy, hssh⟩ := outcome_timeout step host htime
  rw [hmuxy, hssh] at h
  cases h

theorem timeout_verdicts_differ : ¬ ∀ (step : TargetStep) (host : String) (e : TargetEnd),
    (step.muxyReport host e.reason).outcome = (step.sshReport host e.code).outcome := by
  intro h
  have hwait := h (.unit .wait "app.service" 60) "web1" (.exited ⟨4, by decide⟩)
  cases hwait

end TargetStep

end Shellflow
