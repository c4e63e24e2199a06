import Shellflow.Lib.Polling
import Shellflow.Text

/-! A unit is waited for or reloaded: by the helper of the target, or by the script's own commands
where no helper is installed. -/
namespace Shellflow.UnitSteps
open Polling

structure UnitState where
  unitType : String
  active : String
  sub : String
  result : String
  status : String

inductive Verdict where
  | ready
  | failed (reason : String)
  | pending

def isFailureResult (result : String) : Bool :=
  result ≠ "" && result ≠ "success" && result ≠ "done" && result ≠ "none"

def failureReason (state : UnitState) : String :=
  let active := if state.active = "" then "not active" else state.active
  if state.result = "" ∨ state.result = "success" ∨ state.result = "none" then "unit is " ++ active
  else "unit is " ++ active ++ " (result: " ++ state.result ++ ")"

def verdict (state : UnitState) : Verdict :=
  if state.active = "active" then .ready
  else if state.active = "failed" then .failed (failureReason state)
  else if state.unitType = "oneshot" ∧ state.result = "success" ∧ state.sub = "exited" then .ready
  else if isFailureResult state.result then .failed (failureReason state)
  else .pending

namespace Exit

def ready : Nat := 0
def usage : Nat := 1
def failed : Nat := 3
def timeout : Nat := 4
def notFound : Nat := 5

end Exit

inductive ExitClass where
  | success | failed | timedOut | notFound | refused
  deriving DecidableEq

def exitClass (code : Nat) : ExitClass :=
  if code = Exit.ready then .success
  else if code = Exit.failed then .failed
  else if code = Exit.timeout then .timedOut
  else if code = Exit.notFound then .notFound
  else .refused

/-- The queries of `systemctl` by the unit's `ActiveState`. -/
structure Systemctl where
  isActive : String → Bool
  isFailed : String → Bool
  active : isActive "active" = true
  not_active : isActive "failed" = false
  failed_iff : ∀ state, isFailed state = true ↔ state = "failed"

structure UnitName where
  name : String
  valid : isValidUnitName name = true

/-- A change that is asked of systemd. -/
inductive Action where
  | reload (unit : String)
  | kill (signal unit : String)
  deriving DecidableEq

/-- `elevates` tells whether privileged calls get through (root, or `sudo -n`). A `show` that fails
prints nothing; `states` is what systemd reports at each poll. -/
structure Target where
  elevates : Bool
  systemctl : Systemctl
  execReload : Option Bool
  status : Action → Nat
  states : Nat → Option UnitState

structure Outcome where
  actions : List Action
  code : Nat

section Wait
variable (target : Target)

/-- A poll of the helper; its `show` is a privileged call. -/
def helperJudge (n : Nat) : Option Nat :=
  match if target.elevates then target.states n else none with
  | none => some Exit.usage
  | some state =>
    if state.active = "" ∧ state.unitType = "" then some Exit.notFound
    else match verdict state with
      | .ready => some Exit.ready
      | .failed _ => some Exit.failed
      | .pending => none

/-- A poll of the script: `is-active`, then `is-failed`. -/
def fallbackJudge (n : Nat) : Option Nat :=
  match target.states n with
  | none => none
  | some state =>
    if target.systemctl.isActive state.active then some Exit.ready
    else if target.systemctl.isFailed state.active then some Exit.failed
    else none

/-- Both poll every five seconds. -/
def waitLate (budgetSecs n : Nat) : Bool := budgetSecs ≤ 5 * n

/-- The arguments of the helper are parsed as options where they look like one. -/
def looksLikeOption (unit : UnitName) : Bool := Str.startsWith unit.name "-"

def helperWait (unit : UnitName) (budgetSecs : Nat) : Outcome :=
  if looksLikeOption unit then ⟨[], 2⟩
  else if !isValidUnitName unit.name then ⟨[], Exit.usage⟩
  else ⟨[], pollFrom (helperJudge target) (waitLate budgetSecs) Exit.timeout budgetSecs 0⟩

def waitCommand (installed : Bool) (unit : UnitName) (budgetSecs : Nat) : Outcome :=
  if installed then helperWait target unit budgetSecs
  else ⟨[], pollFrom (fallbackJudge target) (waitLate budgetSecs) Exit.timeout budgetSecs 0⟩

end Wait

section Reload
variable (target : Target)

def reloadLate (timeoutSecs n : Nat) : Bool := timeoutSecs ≤ 2 * n

/-- A poll of `wait_for_reload`: whether a reload was seen so far, and the end it comes to. -/
def reloadStep (sawReloading : Bool) (n : Nat) : Bool × Option Nat :=
  match target.states n with
  | none => (sawReloading, some Exit.usage)
  | some state =>
    let saw := sawReloading || state.active == "reloading" || state.sub == "reload"
    if saw && state.active == "active" then (saw, some Exit.ready)
    else if !saw && state.active == "active" then (saw, some Exit.ready)
    else (saw, none)

def waitForReload (timeoutSecs : Nat) : Nat → Bool → Nat → Nat
  | 0, saw, n => (reloadStep target saw n).2.getD Exit.timeout
  | fuel + 1, saw, n =>
    match reloadStep target saw n with
    | (_, some code) => code
    | (saw, none) =>
      if reloadLate timeoutSecs n then Exit.timeout else waitForReload timeoutSecs fuel saw (n + 1)

/-- Both sides read the property with a privileged `show`. -/
def hasExecReload : Bool := target.elevates && target.execReload == some true

def helperReload (unit : UnitName) (signal : Option String) (wait : Bool) (timeoutSecs : Nat) :
    Outcome :=
  if looksLikeOption unit then ⟨[], 2⟩
  else if !isValidUnitName unit.name then ⟨[], Exit.usage⟩
  else
    let action := if hasExecReload target then some (Action.reload unit.name)
      else signal.map fun sig => .kill sig unit.name
    match action with
    | none => ⟨[], Exit.usage⟩
    | some action =>
      if !target.elevates then ⟨[], Exit.usage⟩
      else if target.status action ≠ 0 then ⟨[action], Exit.usage⟩
      else if !wait then ⟨[action], Exit.ready⟩
      else ⟨[action], waitForReload target timeoutSecs timeoutSecs false 0⟩

/-- The script's own commands; without a signal they send `SIGUSR1`, and `sudo -n` exits 1 when it
is refused. -/
def fallbackReload (unit : UnitName) (signal : Option String) : Outcome :=
  let action := if hasExecReload target then Action.reload unit.name
    else .kill (signal.getD "SIGUSR1") unit.name
  if !target.elevates then ⟨[], 1⟩ else ⟨[action], target.status action⟩

def reloadCommand (installed : Bool) (unit : UnitName) (signal : Option String) (wait : Bool)
    (timeoutSecs : Nat) : Outcome :=
  if installed then helperReload target unit signal wait timeoutSecs
  else fallbackReload target unit signal

end Reload

/-- The two steps with what the parser accepts for them. -/
inductive Request where
  | wait (unit : UnitName) (budgetSecs : Nat)
  | reload (unit : UnitName) (signal : Option String) (wait : Bool) (timeoutSecs : Nat)

def run (target : Target) (installed : Bool) : Request → Outcome
  | .wait unit budgetSecs => waitCommand target installed unit budgetSecs
  | .reload unit signal wait timeoutSecs =>
    reloadCommand target installed unit signal wait timeoutSecs

/-- The same actions and the same exit class. -/
def SameEnd (a b : Outcome) : Prop := a.actions = b.actions ∧ exitClass a.code = exitClass b.code

def Agree (target : Target) (request : Request) : Prop :=
  SameEnd (run target true request) (run target false request)

section Wait
variable (target : Target) (unit : UnitName) (budgetSecs : Nat)

def known : List Nat := [Exit.ready, Exit.usage, Exit.failed, Exit.timeout, Exit.notFound]

theorem exitClass_inj : ∀ a ∈ known, ∀ b ∈ known, exitClass a = exitClass b ↔ a = b := by decide

theorem helperJudge_known {n code : Nat} (h : helperJudge target n = some code) :
    code ∈ known ∧ code ≠ Exit.timeout := by
  revert h
  fun_cases helperJudge target n <;> intro h <;> cases h <;> decide

theorem fallbackJudge_known {n code : Nat} (h : fallbackJudge target n = some code) :
    code ∈ known ∧ code ≠ Exit.timeout ∧ exitClass code ≠ .refused := by
  revert h
  fun_cases fallbackJudge target n <;> intro h <;> cases h <;> decide

/-- In a state both sides decide the same where it is settled, or where neither takes it for an
end. -/
theorem judge_eq_iff {n : Nat} {state : UnitState} (helevates : target.elevates = true)
    (hstate : target.states n = some state) :
    helperJudge target n = fallbackJudge target n ↔
      state.active = "active" ∨ state.active = "failed" ∨
        (¬ (state.active = "" ∧ state.unitType = "") ∧
          (if state.unitType = "oneshot" ∧ state.result = "success" ∧ state.sub = "exited"
            then target.systemctl.isActive state.active = true
            else isFailureResult state.result = false ∧
              target.systemctl.isActive state.active = false)) := by
  have hready := target.systemctl.active
  have hnot := target.systemctl.not_active
  have hfailed := target.systemctl.failed_iff state.active
  simp only [helperJudge, fallbackJudge, helevates, if_true, hstate, verdict]
  by_cases hactive : state.active = "active"
  · simp [hactive, hready]
  by_cases hdown : state.active = "failed"
  · simp [hdown, hnot, target.systemctl.failed_iff]
  have hcalm : target.systemctl.isFailed state.active = false := by simpa [hdown] using hfailed
  by_cases habsent : state.active = "" ∧ state.unitType = ""
  · rw [habsent.1] at hcalm
    simp only [habsent]
    cases target.systemctl.isActive "" <;> simp [hcalm, Exit.notFound, Exit.ready]
  by_cases hdone : state.unitType = "oneshot" ∧ state.result = "success" ∧ state.sub = "exited"
  · simp only [if_neg hactive, if_neg hdown, if_neg habsent, if_pos hdone, hcalm]
    cases target.systemctl.isActive state.active <;> simp [hactive, hdown, habsent]
  · simp only [if_neg hactive, if_neg hdown, if_neg habsent, if_neg hdone, hcalm]
    cases target.systemctl.isActive state.active <;> cases isFailureResult state.result <;>
      simp [hactive, hdown, habsent, Exit.ready, Exit.failed]

/-- The polls at which one side stops: both stop there alike, or the other comes to it later. -/
def WaitMeets : Prop :=
  ∀ n, BothWait (helperJudge target) (fallbackJudge target) (waitLate budgetSecs) 0 n →
    Meet (helperJudge target) (fallbackJudge target) (waitLate budgetSecs) n

theorem helperPoll_known (late : Nat → Bool) (fuel k : Nat) :
    pollFrom (helperJudge target) late Exit.timeout fuel k ∈ known := by
  cases pollFrom_cases (helperJudge target) late Exit.timeout fuel k with
  | inl heq => rw [heq]; decide
  | inr hpoll =>
    obtain ⟨n, hn⟩ := hpoll
    exact (helperJudge_known target hn).1

theorem fallbackPoll_known (late : Nat → Bool) (fuel k : Nat) :
    pollFrom (fallbackJudge target) late Exit.timeout fuel k ∈ known ∧
      exitClass (pollFrom (fallbackJudge target) late Exit.timeout fuel k) ≠ .refused := by
  cases pollFrom_cases (fallbackJudge target) late Exit.timeout fuel k with
  | inl heq => rw [heq]; decide
  | inr hpoll =>
    obtain ⟨n, hn⟩ := hpoll
    have hcode := fallbackJudge_known target hn
    exact ⟨hcode.1, hcode.2.2⟩

theorem wait_agree_iff :
    SameEnd (waitCommand target true unit budgetSecs) (waitCommand target false unit budgetSecs) ↔
      looksLikeOption unit = false ∧ WaitMeets target budgetSecs := by
  cases hoption : looksLikeOption unit with
  | true =>
    have hfallback := (fallbackPoll_known target (waitLate budgetSecs) budgetSecs 0).2
    simp only [SameEnd, waitCommand, helperWait, hoption, if_true]
    exact ⟨fun h => absurd h.2.symm hfallback, fun h => by simp at h⟩
  | false =>
    have hlate : waitLate budgetSecs (0 + budgetSecs) = true := by simp [waitLate]; omega
    have hhelper : ∀ n, helperJudge target n ≠ some Exit.timeout :=
      fun n h => (helperJudge_known target h).2 rfl
    have hfallback : ∀ n, fallbackJudge target n ≠ some Exit.timeout :=
      fun n h => (fallbackJudge_known target h).2.1 rfl
    have hmeet := pollFrom_agree_iff hlate hhelper hfallback
    have hclass := exitClass_inj
      _ (helperPoll_known target (waitLate budgetSecs) budgetSecs 0)
      _ (fallbackPoll_known target (waitLate budgetSecs) budgetSecs 0).1
    simp [SameEnd, waitCommand, helperWait, hoption, unit.valid, hclass, hmeet, WaitMeets]

end Wait

section Reload
variable (target : Target)

/-- What a poll after the reload comes to, whether the reload was seen or not. -/
def reloadJudge (n : Nat) : Option Nat :=
  match target.states n with
  | none => some Exit.usage
  | some state => if state.active = "active" then some Exit.ready else none

theorem reloadStep_judge (saw : Bool) (n : Nat) :
    (reloadStep target saw n).2 = reloadJudge target n := by
  cases hstate : target.states n with
  | none => simp [reloadStep, reloadJudge, hstate]
  | some state =>
    by_cases hactive : state.active = "active"
    · simp only [reloadStep, reloadJudge, hstate, hactive]
      cases saw || "active" == "reloading" || state.sub == "reload" <;> simp
    · simp [reloadStep, reloadJudge, hstate, hactive]

theorem waitForReload_eq (timeoutSecs fuel : Nat) (saw : Bool) (n : Nat) :
    waitForReload target timeoutSecs fuel saw n =
      pollFrom (reloadJudge target) (reloadLate timeoutSecs) Exit.timeout fuel n := by
  induction fuel generalizing saw n with
  | zero => simp [waitForReload, pollFrom, reloadStep_judge]
  | succ fuel ih =>
    have hstep := reloadStep_judge target saw n
    cases hpoll : reloadStep target saw n with
    | mk saw' ended =>
      rw [hpoll] at hstep
      cases ended with
      | some code => simp [waitForReload, pollFrom, hpoll, ← hstep]
      | none => simp [waitForReload, pollFrom, hpoll, ← hstep, ih]

/-- The action that the step itself asks for. -/
def askedAction (unit : UnitName) (signal : Option String) : Option Action :=
  if hasExecReload target then some (.reload unit.name)
  else signal.map fun sig => .kill sig unit.name

/-- The unit is named as no option, there is something to ask of it, a failure of `systemctl` has a
status of the refusals, and where the reload is waited for it ends in time. -/
def ReloadMeets (unit : UnitName) (signal : Option String) (wait : Bool) (timeoutSecs : Nat) :
    Prop :=
  looksLikeOption unit = false ∧ ∃ action, askedAction target unit signal = some action ∧
    (target.status action ≠ 0 → exitClass (target.status action) = .refused) ∧
    (target.status action = 0 → wait = true →
      Ends (reloadJudge target) (reloadLate timeoutSecs) 0 Exit.ready)

theorem fallbackReload_of_asked {unit : UnitName} {signal : Option String} {action : Action}
    (helevates : target.elevates = true) (hasked : askedAction target unit signal = some action) :
    fallbackReload target unit signal = ⟨[action], target.status action⟩ := by
  unfold askedAction at hasked
  cases hexec : hasExecReload target with
  | true =>
    rw [hexec, if_pos rfl] at hasked
    simp [fallbackReload, hexec, helevates, Option.some.inj hasked]
  | false =>
    cases signal with
    | none => simp [hexec] at hasked
    | some sig =>
      have haction : Action.kill sig unit.name = action := by simpa [hexec] using hasked
      simp [fallbackReload, hexec, helevates, haction]

/-- The helper runs what is asked; only then does it wait. -/
theorem helperReload_of_asked {unit : UnitName} {signal : Option String} {action : Action}
    (wait : Bool) (timeoutSecs : Nat) (hoption : looksLikeOption unit = false)
    (helevates : target.elevates = true) (hasked : askedAction target unit signal = some action) :
    helperReload target unit signal wait timeoutSecs =
      ⟨[action], if target.status action ≠ 0 then Exit.usage
        else if wait then waitForReload target timeoutSecs timeoutSecs false 0
        else Exit.ready⟩ := by
  unfold askedAction at hasked
  simp only [helperReload, hoption, unit.valid, hasked, helevates]
  by_cases hstatus : target.status action = 0
  · cases wait <;> simp [hstatus]
  · simp [hstatus]

theorem helperReload_refuses (unit : UnitName) (signal : Option String) (wait : Bool)
    (timeoutSecs : Nat) (h : target.elevates = false ∨ looksLikeOption unit = true ∨
      askedAction target unit signal = none) :
    (helperReload target unit signal wait timeoutSecs).actions = [] ∧
      exitClass (helperReload target unit signal wait timeoutSecs).code = .refused := by
  unfold askedAction at h
  cases hoption : looksLikeOption unit with
  | true =>
    simp only [helperReload, hoption, if_true]
    decide
  | false =>
    simp only [hoption, false_or, Bool.false_eq_true] at h
    simp only [helperReload, hoption, unit.valid]
    cases hasked : if hasExecReload target then some (Action.reload unit.name)
      else signal.map fun sig => .kill sig unit.name with
    | none => simp [exitClass, Exit.usage, Exit.ready, Exit.failed, Exit.timeout, Exit.notFound]
    | some action =>
      have hdown : target.elevates = false := by simpa [hasked] using h
      simp [hdown, exitClass, Exit.usage, Exit.ready, Exit.failed, Exit.timeout, Exit.notFound]

theorem exitClass_waited {timeoutSecs : Nat} :
    exitClass (waitForReload target timeoutSecs timeoutSecs false 0) = .success ↔
      Ends (reloadJudge target) (reloadLate timeoutSecs) 0 Exit.ready := by
  have hlate : reloadLate timeoutSecs (0 + timeoutSecs) = true := by simp [reloadLate]; omega
  have hready : ∀ code, exitClass code = .success ↔ code = Exit.ready := by
    intro code
    fun_cases exitClass code <;> simp_all
  rw [hready, waitForReload_eq]
  exact pollFrom_eq_iff hlate (by decide)

theorem reload_agree_iff (unit : UnitName) (signal : Option String) (wait : Bool)
    (timeoutSecs : Nat) :
    SameEnd (reloadCommand target true unit signal wait timeoutSecs)
        (reloadCommand target false unit signal wait timeoutSecs) ↔
      target.elevates = false ∨ ReloadMeets target unit signal wait timeoutSecs := by
  have hrun : SameEnd (reloadCommand target true unit signal wait timeoutSecs)
      (reloadCommand target false unit signal wait timeoutSecs) ↔
      SameEnd (helperReload target unit signal wait timeoutSecs)
        (fallbackReload target unit signal) := by rfl
  rw [hrun]
  cases helevates : target.elevates with
  | false =>
    have hrefuses := helperReload_refuses target unit signal wait timeoutSecs (.inl helevates)
    have hfallback : fallbackReload target unit signal = ⟨[], 1⟩ := by
      simp [fallbackReload, helevates]
    rw [SameEnd, hfallback, hrefuses.1, hrefuses.2]
    exact ⟨fun _ => .inl rfl, fun _ => ⟨rfl, by decide⟩⟩
  | true =>
    simp only [Bool.true_eq_false, false_or]
    by_cases hasks : looksLikeOption unit = false ∧ (askedAction target unit signal).isSome
    · obtain ⟨action, hasked⟩ := Option.isSome_iff_exists.mp hasks.2
      have hmeets : ReloadMeets target unit signal wait timeoutSecs ↔
          (target.status action ≠ 0 → exitClass (target.status action) = .refused) ∧
            (target.status action = 0 → wait = true →
              Ends (reloadJudge target) (reloadLate timeoutSecs) 0 Exit.ready) := by
        simp [ReloadMeets, hasks.1, hasked]
      rw [hmeets, SameEnd, fallbackReload_of_asked target helevates hasked,
        helperReload_of_asked target wait timeoutSecs hasks.1 helevates hasked]
      have hsuccess : exitClass 0 = .success := by decide
      by_cases hstatus : target.status action = 0
      · cases wait with
        | true => simp [hstatus, ← exitClass_waited, hsuccess]
        | false => simp [hstatus, hsuccess, Exit.ready]
      · have husage : exitClass Exit.usage = .refused := by decide
        simp only [ne_eq, hstatus, not_false_iff, if_true, husage, true_and, false_implies, and_true,
          true_implies]
        exact eq_comm
    · have hrefuses := helperReload_refuses target unit signal wait timeoutSecs (by
          cases hoption : looksLikeOption unit with
          | true => exact .inr (.inl rfl)
          | false =>
            have hnone : askedAction target unit signal = none := by simpa [hoption] using hasks
            exact .inr (.inr hnone))
      have hacts : (fallbackReload target unit signal).actions ≠ [] := by
        simp [fallbackReload, helevates]
      have hmeets : ¬ ReloadMeets target unit signal wait timeoutSecs := by
        intro h
        obtain ⟨hoption, action, hasked, -⟩ := h
        exact hasks ⟨hoption, by simp [hasked]⟩
      rw [SameEnd, hrefuses.1]
      exact ⟨fun h => absurd h.1.symm hacts, fun h => absurd h hmeets⟩

end Reload

/-- Where the two ways of a step cannot come apart. -/
def Meets (target : Target) : Request → Prop
  | .wait unit budgetSecs => looksLikeOption unit = false ∧ WaitMeets target budgetSecs
  | .reload unit signal wait timeoutSecs =>
    target.elevates = false ∨ ReloadMeets target unit signal wait timeoutSecs

theorem helper_and_fallback_agree_iff (target : Target) (request : Request) :
    Agree target request ↔ Meets target request := by
  cases request with
  | wait unit budgetSecs => exact wait_agree_iff target unit budgetSecs
  | reload unit signal wait timeoutSecs =>
    exact reload_agree_iff target unit signal wait timeoutSecs

/-- A unit that is up and declares no `ExecReload=`, on a target where everything succeeds. -/
def plainUnit : Target where
  elevates := true
  systemctl :=
    { isActive := fun state => state == "active" || state == "reloading"
      isFailed := fun state => state == "failed"
      active := by decide
      not_active := by decide
      failed_iff := by simp }
  execReload := some false
  status := fun _ => 0
  states := fun _ => some ⟨"simple", "active", "running", "success", ""⟩

def webUnit : UnitName := ⟨"web.service", by decide⟩

/-- Without a signal the helper refuses, and the script sends one of its own. -/
theorem unasked_signal_sent :
    run plainUnit true (.reload webUnit none false 60) = ⟨[], Exit.usage⟩ ∧
    run plainUnit false (.reload webUnit none false 60) =
      ⟨[.kill "SIGUSR1" "web.service"], 0⟩ ∧
    ¬ Agree plainUnit (.reload webUnit none false 60) := by
  have hhelper : run plainUnit true (.reload webUnit none false 60) = ⟨[], Exit.usage⟩ := by
    have hoption : looksLikeOption webUnit = false := by decide
    simp [run, reloadCommand, helperReload, hoption, webUnit.valid, hasExecReload, plainUnit]
  have hfallback : run plainUnit false (.reload webUnit none false 60) =
      ⟨[.kill "SIGUSR1" "web.service"], 0⟩ := by
    simp [run, reloadCommand, fallbackReload, hasExecReload, plainUnit, webUnit]
  refine ⟨hhelper, hfallback, fun h => ?_⟩
  rw [Agree, hhelper, hfallback] at h
  exact absurd h.1 (by simp)

end Shellflow.UnitSteps
