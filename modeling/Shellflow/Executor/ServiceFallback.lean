import Shellflow.Dsl.WellFormed
import Shellflow.Host.Lifecycle
import Shellflow.Lib.AndOr

/-! The service step on a target: by the helper's verb where it is installed, and else by a script
that runs under `set -e`. -/
namespace Shellflow.Lifecycle
open AndOr Process Polling Fallible
open HostStep (ServiceActions)

section Script
variable (m : Machine) (unit : String) (actions : ServiceActions) (timeout : Nat)

def scriptAccepts : Bool :=
  match m.analyze with
  | none => true
  | some verify => (verify unit).ok

/-- `$SC ..`; a refused `sudo -n` exits 1. -/
def systemctlLine (call : Call) : Command (List Call) := fun done =>
  if m.elevates then ⟨m.status call, false, done ++ [call]⟩ else ⟨1, false, done⟩

/-- `if command -v systemd-analyze; then systemd-analyze verify "$u" || { ..; exit 1; }; fi` -/
def verifyLine : Command (List Call) :=
  ifThen (test m.analyze.isSome) (orElse (test (scriptAccepts m unit)) (ret 1))

def callLine (asked : Bool) (call : Call) : Command (List Call) :=
  if asked then strict (systemctlLine m call) else ok

def restartLine (active : Bool) : Command (List Call) :=
  ifElse (test active) (strict (systemctlLine m (.restart unit)))
    (ifElse (test actions.forceStart) (strict (systemctlLine m (.start unit))) ok)

/-- One poll of the script: `is-active`, then `is-failed`. -/
def activeJudge (n : Nat) : Option Nat :=
  match if m.elevates then m.states n else none with
  | none => none
  | some state =>
    if m.systemctl.isActive state.active then some 0
    else if m.systemctl.isFailed state.active then some 1
    else none

/-- `while :; do .. done`; the script says `exit 3` when it is too late. -/
def waitLoop : Command (List Call) := fun done =>
  match pollFrom (activeJudge m) (late timeout) 3 timeout 0 with
  | 0 => ⟨0, false, done⟩
  | code => ⟨code, true, done⟩

def waitLine (active : Bool) : Command (List Call) :=
  if actions.wait then
    ifElse (orElse (test active) (test actions.forceStart)) (waitLoop m timeout) ok
  else ok

def serviceFallback : Command (List Call) :=
  let active := wasActive (unitState m)
  seq (verifyLine m unit)
    (seq (strict (systemctlLine m .daemonReload))
      (seq (callLine m actions.enable (.enable unit))
        (seq (callLine m actions.reload (.reload unit))
          (seq (restartLine m unit actions active) (waitLine m actions timeout active)))))

end Script

/-- What was asked of systemd, and the exit code. -/
structure Outcome where
  calls : List Call
  code : Nat
deriving DecidableEq, Repr

def Outcome.of : Ended Nat Unit × List Call → Outcome
  | (.returned (), done) => ⟨done, 0⟩
  | (.failed code, done) => ⟨done, code⟩
  | (.exited code, done) => ⟨done, code.toNat⟩

inductive ExitClass where
  | success
  | failed
  | timedOut
deriving DecidableEq, Repr

/-- A broken transport (255) is a failure. -/
def classifyHelperExit (code : Nat) : ExitClass :=
  if code = UnitSteps.Exit.ready then .success
  else if code = UnitSteps.Exit.timeout then .timedOut
  else .failed

/-- The exit code of the helper's argument parser for a unit that it takes for an option: `-h` asks
for help, and any other is unknown. -/
def optionStatus (unit : String) : Nat := if Str.startsWith unit "-h" then 0 else 2

section Step
variable (m : Machine) (step : ServiceStep)

def stepActions : ServiceActions :=
  ⟨step.enable, step.restart, step.reload, step.wait, step.verify, step.forceStart⟩

def stepTimeout : Nat := step.timeout.getD HostStep.defaultWaitSecs

def byHelper : Outcome :=
  if Str.startsWith step.unit "-" then ⟨[], optionStatus step.unit⟩
  else .of (service m step.unit (stepActions step) (stepTimeout step) [])

def byScript : Outcome :=
  let r := serviceFallback m step.unit (stepActions step) (stepTimeout step) []
  ⟨r.state, r.status⟩

/-- `if [ -x {helper} ]; then exec {helper} host service ..; fi; {fallback}` -/
def serviceCommand (hasHelper : Bool) : Outcome :=
  if hasHelper then byHelper m step else byScript m step

end Step

/-- The same changes are asked of systemd, and the step ends alike. -/
def SameEnd (a b : Outcome) : Prop :=
  a.calls = b.calls ∧ classifyHelperExit a.code = classifyHelperExit b.code

section Conditions
variable (m : Machine) (unit : String) (actions : ServiceActions) (timeout : Nat)

/-- The call succeeds, and the rest holds; or it fails with a status that is no timeout. -/
def Goes (call : Call) (rest : Prop) : Prop :=
  if m.status call = 0 then rest else m.status call ≠ UnitSteps.Exit.timeout

/-- Both find the unit up in time; or the helper finds it failed in time, and the script does not
find it up. -/
def WaitMeets : Prop :=
  (Ends (readyJudge m) (late timeout) 0 UnitSteps.Exit.ready ∧ Ends (activeJudge m) (late timeout) 0 0) ∨
    ((Ends (readyJudge m) (late timeout) 0 UnitSteps.Exit.failed ∨
        Ends (readyJudge m) (late timeout) 0 UnitSteps.Exit.usage) ∧
      ¬Ends (activeJudge m) (late timeout) 0 0)

def restartCall (active : Bool) : Call := if active then .restart unit else .start unit

/-- A unit that was up, or that is started by force, is restarted only where the step asks for it. -/
def RestartMeets : Prop :=
  if wasActive (unitState m) || actions.forceStart then
    actions.restart = true ∧
      Goes m (restartCall unit (wasActive (unitState m))) (actions.wait = true → WaitMeets m timeout)
  else True

def ReloadMeets : Prop :=
  if actions.reload then
    m.execReload = true ∧ Goes m (.reload unit) (RestartMeets m unit actions timeout)
  else RestartMeets m unit actions timeout

def EnableMeets : Prop :=
  ∃ state, readState m = some state ∧
    if actions.enable then
      enableIsNeeded state = true ∧ Goes m (.enable unit) (ReloadMeets m unit actions timeout)
    else ReloadMeets m unit actions timeout

end Conditions

/-- The helper stops before it asks for anything. -/
def HelperStops (m : Machine) (unit : String) (actions : ServiceActions) : Prop :=
  Str.startsWith unit "-" = true ∨ (actions.verify = true ∧ helperAccepts m unit = false) ∨
    m.elevates = false

def ScriptStops (m : Machine) (unit : String) : Prop :=
  scriptAccepts m unit = false ∨ m.elevates = false

/-- Where the two ways cannot come apart. -/
def Meets (m : Machine) (step : ServiceStep) : Prop :=
  (Str.startsWith step.unit "-" = true → optionStatus step.unit ≠ 0) ∧
    (HelperStops m step.unit (stepActions step) ↔ ScriptStops m step.unit) ∧
    (¬ScriptStops m step.unit →
      Goes m .daemonReload (EnableMeets m step.unit (stepActions step) (stepTimeout step)))

section Parts
variable {m : Machine} {unit : String} {actions : ServiceActions} {timeout : Nat}
variable {active : Bool} {done : List Call} {call : Call}

/-- A run of the verb and a run of the script that end the same. -/
def Same (a : Ended Nat Unit × List Call) (r : Result (List Call)) : Prop :=
  SameEnd (.of a) ⟨r.state, r.status⟩

theorem classify_eq_failed {code : Nat} (h : code ≠ 0) :
    classifyHelperExit UnitSteps.Exit.failed = classifyHelperExit code ↔
      code ≠ UnitSteps.Exit.timeout := by
  have hfailed : classifyHelperExit UnitSteps.Exit.failed = .failed := rfl
  have hready : code ≠ UnitSteps.Exit.ready := h
  rw [hfailed, classifyHelperExit, if_neg hready]
  by_cases htimeout : code = UnitSteps.Exit.timeout
  · simp [htimeout]
  · simp [htimeout]

theorem calls_of (a : Ended Nat Unit × List Call) : (Outcome.of a).calls = a.2 := by
  obtain ⟨ended, done⟩ := a
  cases ended <;> rfl

theorem waitForReady_done : (waitForReady m timeout done).2 = done := by
  rw [waitForReady]
  split <;> rfl

theorem waitStep_done : (waitStep m actions active timeout done).2 = done := by
  rw [waitStep, onlyIf, onlyIf]
  cases actions.wait with
  | false => rfl
  | true =>
    cases waitHasSomethingToWaitFor active actions.forceStart with
    | false => rfl
    | true => exact waitForReady_done

theorem systemctlLine_apply (helevates : m.elevates = true) :
    systemctlLine m call done = ⟨m.status call, false, done ++ [call]⟩ := if_pos helevates

/-- One call on both sides, and what follows. -/
theorem same_call (helevates : m.elevates = true) (p : Verb Unit) (q : Command (List Call)) :
    Same ((runSystemctl m call >>= fun _ => p) done) (seq (strict (systemctlLine m call)) q done) ↔
      Goes m call (Same (p (done ++ [call])) (q (done ++ [call]))) := by
  have hline := @systemctlLine_apply m done call helevates
  rw [Goes]
  by_cases hstatus : m.status call = 0
  · have hok : (systemctlLine m call done).status = 0 := by rw [hline]; exact hstatus
    have hreturned : (strict (systemctlLine m call) done).returned = false := by
      rw [strict_ok hok, hline]
    rw [if_pos hstatus, bind_returned (runSystemctl_ok helevates hstatus), seq_apply hreturned,
      strict_ok hok, hline]
  · have hfails : (systemctlLine m call done).status ≠ 0 := by rw [hline]; exact hstatus
    have hreturned : (strict (systemctlLine m call) done).returned = true := by
      rw [strict_fails hfails]
    rw [if_neg hstatus, bind_failed (runSystemctl_fails helevates hstatus), seq_returned hreturned,
      strict_fails hfails, hline]
    exact (and_iff_right rfl).trans (classify_eq_failed hstatus)

theorem readyJudge_cases {n code : Nat} (h : readyJudge m n = some code) :
    code = UnitSteps.Exit.ready ∨ code = UnitSteps.Exit.failed ∨ code = UnitSteps.Exit.usage := by
  revert h
  fun_cases readyJudge m n <;> intro h <;> cases h <;> decide

theorem activeJudge_cases {n code : Nat} (h : activeJudge m n = some code) : code = 0 ∨ code = 1 := by
  revert h
  fun_cases activeJudge m n <;> intro h <;> cases h <;> decide

/-- What both sides come to when they wait. -/
theorem same_waited :
    Same (waitForReady m timeout done) (waitLoop m timeout done) ↔ WaitMeets m timeout := by
  have hready : ∀ code, code ≠ UnitSteps.Exit.timeout →
      (pollFrom (readyJudge m) (late timeout) UnitSteps.Exit.timeout timeout 0 = code ↔
        Ends (readyJudge m) (late timeout) 0 code) := fun code hne => pollFrom_eq_iff late_budget hne
  have hactive : pollFrom (activeJudge m) (late timeout) 3 timeout 0 = 0 ↔
      Ends (activeJudge m) (late timeout) 0 0 := pollFrom_eq_iff late_budget (by decide)
  have hcases : ∀ code, code = pollFrom (activeJudge m) (late timeout) 3 timeout 0 →
      code = 0 ∨ code = 1 ∨ code = 3 := by
    intro code hcode
    rcases pollFrom_cases (activeJudge m) (late timeout) 3 timeout 0 with heq | ⟨n, hn⟩
    · exact .inr (.inr (hcode.trans heq))
    · rcases activeJudge_cases hn with heq | heq
      · exact .inl (hcode.trans heq)
      · exact .inr (.inl (hcode.trans heq))
  have hclass : Same (waitForReady m timeout done) (waitLoop m timeout done) ↔
      classifyHelperExit (pollFrom (readyJudge m) (late timeout) UnitSteps.Exit.timeout timeout 0) =
        classifyHelperExit (pollFrom (activeJudge m) (late timeout) 3 timeout 0) := by
    rw [Same, SameEnd, waitForReady, waitLoop]
    cases pollFrom (readyJudge m) (late timeout) UnitSteps.Exit.timeout timeout 0 <;>
      cases pollFrom (activeJudge m) (late timeout) 3 timeout 0 <;> exact and_iff_right rfl
  rw [hclass, WaitMeets, ← hready _ (by decide), ← hready _ (by decide), ← hready _ (by decide),
    ← hactive]
  have hfallback := hcases _ rfl
  generalize pollFrom (activeJudge m) (late timeout) 3 timeout 0 = code' at hfallback
  rcases pollFrom_cases (readyJudge m) (late timeout) UnitSteps.Exit.timeout timeout 0 with
    heq | ⟨n, hn⟩
  · rw [heq]
    rcases hfallback with rfl | rfl | rfl <;> decide
  · rcases readyJudge_cases hn with heq | heq | heq <;> rw [heq] <;>
      rcases hfallback with rfl | rfl | rfl <;> decide

theorem same_done {q : Command (List Call)} (h : q done = ⟨0, false, done⟩) :
    Same (.returned (), done) (q done) := by
  rw [h]
  exact ⟨rfl, rfl⟩

theorem same_wait :
    Same (waitStep m actions active timeout done) (waitLine m actions timeout active done) ↔
      (actions.wait = true → (active || actions.forceStart) = true → WaitMeets m timeout) := by
  rw [waitStep, waitLine, onlyIf]
  cases actions.wait with
  | false => exact iff_of_true (same_done rfl) fun h => by cases h
  | true =>
    rw [if_pos rfl, if_pos rfl, onlyIf, waitHasSomethingToWaitFor]
    cases active with
    | true => exact same_waited.trans ⟨fun h _ _ => h, fun h => h rfl rfl⟩
    | false =>
      cases actions.forceStart with
      | true => exact same_waited.trans ⟨fun h _ _ => h, fun h => h rfl rfl⟩
      | false => exact iff_of_true (same_done rfl) fun _ h => absurd h Bool.false_ne_true

/-- The line asks for more and more, and where it asks for nothing it goes on. -/
def Quiet (q : Command (List Call)) : Prop :=
  ∀ done, done <+: (q done).state ∧
    ((q done).state = done → (q done).status = 0 ∧ (q done).returned = false)

theorem quiet_ok : Quiet ok := fun done => ⟨List.prefix_refl done, fun _ => ⟨rfl, rfl⟩⟩

theorem strict_state (q : Command (List Call)) : (strict q done).state = (q done).state := by
  rw [strict]
  by_cases h : (q done).status = 0
  · rw [if_pos h]
  · rw [if_neg h]

theorem quiet_call (helevates : m.elevates = true) (call : Call) :
    Quiet (strict (systemctlLine m call)) := by
  intro done
  rw [strict_state, systemctlLine_apply helevates]
  refine ⟨List.prefix_append done [call], fun h => ?_⟩
  exact absurd (List.append_right_eq_self.mp h) (List.cons_ne_nil call [])

theorem quiet_seq {a b : Command (List Call)} (ha : Quiet a) (hb : Quiet b) : Quiet (seq a b) := by
  intro done
  obtain ⟨hstart, hstill⟩ := ha done
  cases hreturned : (a done).returned with
  | true =>
    rw [seq_returned hreturned]
    exact ⟨hstart, hstill⟩
  | false =>
    rw [seq_apply hreturned]
    obtain ⟨hstart', hstill'⟩ := hb (a done).state
    refine ⟨hstart.trans hstart', fun h => ?_⟩
    rw [h] at hstart'
    have hmid : (a done).state = done :=
      hstart'.eq_of_length (Nat.le_antisymm hstart'.length_le hstart.length_le)
    rw [hmid] at hstill' h ⊢
    exact hstill' h

theorem quiet_callLine (helevates : m.elevates = true) (asked : Bool) (call : Call) :
    Quiet (callLine m asked call) := by
  cases asked with
  | true => exact quiet_call helevates call
  | false => exact quiet_ok

theorem waitLine_state : (waitLine m actions timeout active done).state = done := by
  have hloop : (waitLoop m timeout done).state = done := by
    rw [waitLoop]
    split <;> rfl
  rw [waitLine]
  cases actions.wait with
  | false => rfl
  | true =>
    cases active with
    | true => exact hloop
    | false =>
      cases actions.forceStart with
      | true => exact hloop
      | false => rfl

/-- A call first: it is asked for, whatever follows. -/
theorem prefix_of_call (helevates : m.elevates = true) (call : Call) {q : Command (List Call)}
    (hq : ∀ done, done <+: (q done).state) :
    done ++ [call] <+: (seq (strict (systemctlLine m call)) q done).state := by
  have hstate : (strict (systemctlLine m call) done).state = done ++ [call] := by
    rw [strict_state, systemctlLine_apply helevates]
  cases hreturned : (strict (systemctlLine m call) done).returned with
  | true => rw [seq_returned hreturned, hstate]
  | false =>
    rw [seq_apply hreturned, hstate]
    exact hq (done ++ [call])

/-- The end of the script: a restart or a start, and the wait. -/
theorem restartLine_eq (active : Bool) : restartLine m unit actions active =
    if active || actions.forceStart then strict (systemctlLine m (restartCall unit active))
    else ok := by
  funext done
  rw [restartLine, ifElse_test, restartCall]
  cases active with
  | true => rfl
  | false => cases actions.forceStart <;> rfl

theorem quiet_restart (helevates : m.elevates = true) :
    Quiet (seq (restartLine m unit actions active) (waitLine m actions timeout active)) := by
  rw [restartLine_eq]
  cases hasks : active || actions.forceStart with
  | true =>
    rw [if_pos rfl]
    intro done
    have hstart := @prefix_of_call m done helevates (restartCall unit active)
      (waitLine m actions timeout active) fun done => by rw [waitLine_state]
    refine ⟨(List.prefix_append done _).trans hstart, fun h => ?_⟩
    have hlength := hstart.length_le
    rw [h, List.length_append] at hlength
    exact absurd hlength (by simp)
  | false =>
    rw [if_neg Bool.false_ne_true]
    intro done
    rw [seq_ok]
    have hwait : waitLine m actions timeout active done = ⟨0, false, done⟩ := by
      rw [Bool.or_eq_false_iff] at hasks
      rw [waitLine, hasks.1, hasks.2]
      cases actions.wait <;> rfl
    rw [hwait]
    exact ⟨List.prefix_refl done, fun _ => ⟨rfl, rfl⟩⟩

theorem not_same_of_longer {a : Ended Nat Unit × List Call} {r : Result (List Call)} {call : Call}
    (ha : (Outcome.of a).calls = done) (hr : done ++ [call] <+: r.state) : ¬Same a r := by
  intro h
  have hcalls : (Outcome.of a).calls = r.state := h.1
  have hlength := hr.length_le
  rw [← hcalls, ha, List.length_append] at hlength
  exact absurd hlength (by simp)

/-- The restart on both sides, from a unit that was up or not. -/
theorem same_restart (helevates : m.elevates = true) :
    Same ((restartStep m unit actions (wasActive (unitState m)) >>= fun _ =>
        waitStep m actions (wasActive (unitState m)) timeout) done)
        (seq (restartLine m unit actions (wasActive (unitState m)))
          (waitLine m actions timeout (wasActive (unitState m))) done) ↔
      RestartMeets m unit actions timeout := by
  rw [RestartMeets]
  generalize wasActive (unitState m) = active
  rw [restartLine_eq]
  cases hasks : active || actions.forceStart with
  | false =>
    have hskip : restartStep m unit actions active = pure () := by
      rw [Bool.or_eq_false_iff] at hasks
      rw [restartStep, restartAction, onlyIf, hasks.1, hasks.2]
      cases actions.restart <;> rfl
    rw [if_neg Bool.false_ne_true, if_neg Bool.false_ne_true, hskip, seq_ok]
    refine iff_of_true (same_wait.mpr fun _ h => ?_) trivial
    exact absurd (hasks.symm.trans h) Bool.false_ne_true
  | true =>
    rw [if_pos rfl, if_pos rfl]
    cases hrestart : actions.restart with
    | false =>
      have hskip : restartStep m unit actions active = pure () := by
        rw [restartStep, onlyIf, hrestart]
        rfl
      have hcalls : (Outcome.of ((restartStep m unit actions active >>= fun _ =>
          waitStep m actions active timeout) done)).calls = done := by
        rw [hskip, calls_of]
        exact waitStep_done
      have hstart := @prefix_of_call m done helevates (restartCall unit active)
        (waitLine m actions timeout active) fun done => by rw [waitLine_state]
      exact iff_of_false (@not_same_of_longer done _ _ _ hcalls hstart) fun h =>
        Bool.false_ne_true h.1
    | true =>
      have hcall : restartStep m unit actions active = runSystemctl m (restartCall unit active) := by
        rw [restartStep, restartAction, onlyIf, hrestart, restartCall]
        cases active with
        | true => rfl
        | false =>
          rw [Bool.false_or] at hasks
          rw [hasks]
          rfl
      have hwait : (actions.wait = true → (active || actions.forceStart) = true → WaitMeets m timeout) ↔
          (actions.wait = true → WaitMeets m timeout) := by
        rw [hasks]
        exact ⟨fun h hasked => h hasked rfl, fun h hasked _ => h hasked⟩
      rw [hcall, same_call helevates, same_wait, hwait]
      exact (and_iff_right rfl).symm

theorem same_reload (helevates : m.elevates = true) :
    Same ((reloadStep m unit actions >>= fun _ =>
        restartStep m unit actions (wasActive (unitState m)) >>= fun _ =>
          waitStep m actions (wasActive (unitState m)) timeout) done)
        (seq (callLine m actions.reload (.reload unit))
          (seq (restartLine m unit actions (wasActive (unitState m)))
            (waitLine m actions timeout (wasActive (unitState m)))) done) ↔
      ReloadMeets m unit actions timeout := by
  rw [ReloadMeets, reloadStep, callLine, onlyIf]
  cases actions.reload with
  | false => exact same_restart helevates
  | true =>
    rw [if_pos rfl, if_pos rfl, if_pos rfl, reloadUnit, helevates, Bool.true_and]
    cases hexec : m.execReload with
    | true =>
      rw [if_pos rfl, same_call helevates, same_restart helevates]
      exact (and_iff_right rfl).symm
    | false =>
      have hstart := @prefix_of_call m done helevates (.reload unit) _ fun done =>
        (@quiet_restart m unit actions timeout (wasActive (unitState m)) helevates done).1
      exact iff_of_false (@not_same_of_longer done _ _ _ rfl hstart) fun h => Bool.false_ne_true h.1

theorem steps_call {R : List Call → List Call → Prop} (hrefl : ∀ done, R done done)
    (hcall : ∀ done, R done (done ++ [call])) : Steps R (runSystemctl m call) := by
  intro done
  rw [Ensures, runSystemctl]
  by_cases helevates : m.elevates = true
  · by_cases hstatus : m.status call = 0
    · simpa [helevates, hstatus] using hcall done
    · simpa [helevates, hstatus] using hcall done
  · simpa [helevates] using hrefl done

/-- What the calls of the verb keep, from the reload on. -/
theorem steps_reload {R : List Call → List Call → Prop} (hrefl : ∀ done, R done done)
    (htrans : ∀ a b c, R a b → R b c → R a c)
    (hcall : ∀ done call, (∀ u, call ≠ .enable u) → R done (done ++ [call])) :
    Steps R (reloadStep m unit actions >>= fun _ => restartStep m unit actions active >>= fun _ =>
      waitStep m actions active timeout) := by
  have hrun : ∀ call, (∀ u, call ≠ .enable u) → Steps R (runSystemctl m call) :=
    fun call hne => steps_call hrefl fun done => hcall done call hne
  have hpure : Steps R (pure () : Verb Unit) := Steps.pure hrefl ()
  have hwaits : Steps R (waitForReady m timeout) := by
    intro done
    rw [Ensures, waitForReady]
    cases pollFrom (readyJudge m) (late timeout) UnitSteps.Exit.timeout timeout 0 <;>
      exact hrefl done
  refine Steps.bind htrans (Steps.ite ?_ hpure) fun _ =>
    Steps.bind htrans (Steps.ite ?_ hpure) fun _ => ?_
  · exact Steps.ite (hrun _ fun _ h => by cases h) (Steps.fail hrefl _)
  · cases restartAction actions active with
    | restart => exact hrun _ fun _ h => by cases h
    | start => exact hrun _ fun _ h => by cases h
    | skip => exact hpure
  · exact Steps.ite (Steps.ite hwaits hpure) hpure

theorem steps_enabledState {R : List Call → List Call → Prop} (hrefl : ∀ done, R done done) :
    Steps R (unitEnabledState m) := by
  rw [unitEnabledState]
  refine Steps.ite (Steps.fail hrefl _) ?_
  cases m.enabled with
  | state text => exact Steps.pure hrefl text
  | refused detail => exact Steps.ite (Steps.pure hrefl _) (Steps.fail hrefl _)

/-- The verb asks for more and more. -/
theorem steps_enable : Steps List.IsPrefix (enableStep m unit actions >>= fun _ =>
    reloadStep m unit actions >>= fun _ => restartStep m unit actions active >>= fun _ =>
      waitStep m actions active timeout) := by
  have hrefl : ∀ done : List Call, done <+: done := List.prefix_refl
  have htrans : ∀ a b c : List Call, a <+: b → b <+: c → a <+: c := fun _ _ _ => List.IsPrefix.trans
  have hcall : ∀ call, ∀ done : List Call, done <+: done ++ [call] := fun _ _ => List.prefix_append _ _
  refine Steps.bind htrans (Steps.bind htrans (steps_enabledState hrefl) fun _ => ?_) fun _ =>
    steps_reload hrefl htrans fun done call _ => hcall call done
  exact Steps.ite (steps_call hrefl (hcall _)) (Steps.pure hrefl ())

/-- Both sides after the manager was reloaded. -/
theorem same_enable (helevates : m.elevates = true) (hfresh : .enable unit ∉ done) :
    Same ((enableStep m unit actions >>= fun _ => reloadStep m unit actions >>= fun _ =>
        restartStep m unit actions (wasActive (unitState m)) >>= fun _ =>
          waitStep m actions (wasActive (unitState m)) timeout) done)
        (seq (callLine m actions.enable (.enable unit))
          (seq (callLine m actions.reload (.reload unit))
            (seq (restartLine m unit actions (wasActive (unitState m)))
              (waitLine m actions timeout (wasActive (unitState m))))) done) ↔
      EnableMeets m unit actions timeout := by
  have hquiet := quiet_seq (quiet_callLine helevates actions.reload (.reload unit))
    (@quiet_restart m unit actions timeout (wasActive (unitState m)) helevates)
  have hread := @unitEnabledState_apply m done helevates
  rw [EnableMeets]
  cases hstate : readState m with
  | none =>
    rw [hstate] at hread
    have hstep : enableStep m unit actions done = (.failed UnitSteps.Exit.failed, done) := bind_failed hread
    rw [bind_failed hstep]
    refine iff_of_false (fun h => ?_) fun ⟨_, h, _⟩ => absurd h (Option.some_ne_none _).symm
    obtain ⟨hcalls, hclass⟩ := h
    obtain ⟨-, hstill⟩ := quiet_seq (quiet_callLine helevates actions.enable (.enable unit)) hquiet done
    dsimp only [Outcome.of] at hcalls hclass
    rw [(hstill hcalls.symm).1] at hclass
    exact absurd hclass (by decide)
  | some state =>
    rw [hstate] at hread
    have hsome : ∀ P : String → Prop, (∃ t, some state = some t ∧ P t) ↔ P state := by simp
    rw [hsome]
    have hstep : ∀ p : Verb Unit, (enableStep m unit actions >>= fun _ => p) done =
        (onlyIf (enableAction actions.enable state) (runSystemctl m (.enable unit)) >>= fun _ => p)
          done := by
      intro p
      have hbind : (enableStep m unit actions >>= fun _ => p) =
          (unitEnabledState m >>= fun state =>
            onlyIf (enableAction actions.enable state) (runSystemctl m (.enable unit)) >>= fun _ =>
              p) := by
        funext done
        rw [enableStep]
        change Program.bind (Program.bind _ _) _ done = Program.bind _ _ done
        rw [Program.bind, Program.bind, Program.bind]
        cases unitEnabledState m done with
        | mk ended done' => cases ended <;> rfl
      rw [hbind, bind_returned hread]
    rw [hstep, callLine]
    cases henable : actions.enable with
    | false => exact same_reload helevates
    | true =>
      rw [if_pos rfl, if_pos rfl, enableAction, Bool.true_and, onlyIf]
      cases hneeded : enableIsNeeded state with
      | true =>
        rw [if_pos rfl, same_call helevates, same_reload helevates]
        exact (and_iff_right rfl).symm
      | false =>
        refine iff_of_false (fun h => ?_) fun h => Bool.false_ne_true h.1
        have hkept := (@steps_reload m unit actions timeout (wasActive (unitState m))
          (fun a b => .enable unit ∈ b → .enable unit ∈ a) (fun _ h => h)
          (fun _ _ _ h h' hb => h (h' hb)) (fun a call hne hmem => by
            rcases List.mem_append.mp hmem with hold | hnew
            · exact hold
            · exact absurd (List.mem_singleton.mp hnew).symm (hne unit)) done)
        have hasked := (@prefix_of_call m done helevates (.enable unit) _ fun done => (hquiet done).1).subset
          (List.mem_append_right done List.mem_cons_self)
        have hcalls := h.1
        rw [calls_of] at hcalls
        exact hfresh (hkept.final (hcalls ▸ hasked))

theorem verifyLine_apply : verifyLine m unit done =
    if scriptAccepts m unit then ⟨0, false, done⟩ else ⟨1, true, done⟩ := by
  rw [verifyLine, ifThen_test, scriptAccepts]
  cases m.analyze with
  | none => rfl
  | some verify => cases hok : (verify unit).ok <;> simp [orElse, test, ret, hok]

theorem script_stops (h : ScriptStops m unit) :
    serviceFallback m unit actions timeout done = ⟨1, true, done⟩ := by
  have hverify := @verifyLine_apply m unit done
  rw [serviceFallback]
  cases haccepts : scriptAccepts m unit with
  | false =>
    rw [haccepts, if_neg Bool.false_ne_true] at hverify
    rw [seq_returned (by rw [hverify]), hverify]
  | true =>
    have helevates : m.elevates = false := h.resolve_left fun hf => by
      rw [haccepts] at hf
      cases hf
    rw [haccepts, if_pos rfl] at hverify
    have hline : systemctlLine m .daemonReload done = ⟨1, false, done⟩ := by
      rw [systemctlLine, helevates, if_neg Bool.false_ne_true]
    have hfails : strict (systemctlLine m .daemonReload) done = ⟨1, true, done⟩ := by
      rw [strict_fails (by rw [hline]; exact Nat.one_ne_zero), hline]
    rw [seq_apply (by rw [hverify]), hverify, seq_returned (by rw [hfails]), hfails]

end Parts

section Whole
variable {m : Machine} {step : ServiceStep}

/-- The script past its check of the unit. -/
theorem byScript_goes (h : ¬ScriptStops m step.unit) :
    serviceFallback m step.unit (stepActions step) (stepTimeout step) [] =
      seq (strict (systemctlLine m .daemonReload))
        (seq (callLine m step.enable (.enable step.unit))
          (seq (callLine m step.reload (.reload step.unit))
            (seq (restartLine m step.unit (stepActions step) (wasActive (unitState m)))
              (waitLine m (stepActions step) (stepTimeout step) (wasActive (unitState m)))))) [] := by
  obtain ⟨haccepts, -⟩ := not_or.mp h
  have hverify := @verifyLine_apply m step.unit []
  rw [if_pos (Bool.eq_true_of_not_eq_false haccepts)] at hverify
  rw [serviceFallback, seq_apply (by rw [hverify]), hverify]
  rfl

theorem byScript_calls (h : ¬ScriptStops m step.unit) : (byScript m step).calls ≠ [] := by
  have helevates : m.elevates = true := Bool.eq_true_of_not_eq_false (not_or.mp h).2
  have hquiet := quiet_seq (quiet_callLine helevates step.enable (.enable step.unit))
    (quiet_seq (quiet_callLine helevates step.reload (.reload step.unit))
      (@quiet_restart m step.unit (stepActions step) (stepTimeout step) (wasActive (unitState m))
        helevates))
  have hstart := @prefix_of_call m [] helevates .daemonReload _ fun done => (hquiet done).1
  intro hnil
  rw [byScript, byScript_goes h] at hnil
  dsimp only at hnil
  rw [hnil] at hstart
  exact absurd hstart.length_le (by simp)

section Helper
variable (hnormal : normalizeUnit step.unit = step.unit)
  (hvalid : isValidUnitName step.unit = true)
include hnormal hvalid

theorem service_apply : service m step.unit (stepActions step) (stepTimeout step) [] =
    (onlyIf step.verify (verifyUnit m step.unit) >>= fun _ =>
      runSystemctl m .daemonReload >>= fun _ =>
        enableStep m step.unit (stepActions step) >>= fun _ =>
          reloadStep m step.unit (stepActions step) >>= fun _ =>
            restartStep m step.unit (stepActions step) (wasActive (unitState m)) >>= fun _ =>
              waitStep m (stepActions step) (wasActive (unitState m)) (stepTimeout step)) [] := by
  rw [service]
  simp only [hnormal, hvalid]
  rfl

theorem byHelper_stops (hoption : Str.startsWith step.unit "-" ≠ true)
    (h : HelperStops m step.unit (stepActions step)) :
    (byHelper m step).calls = [] ∧ classifyHelperExit (byHelper m step).code = .failed := by
  have hshape : ∀ code, classifyHelperExit code = .failed →
      service m step.unit (stepActions step) (stepTimeout step) [] = (.failed code, []) →
        (byHelper m step).calls = [] ∧ classifyHelperExit (byHelper m step).code = .failed := by
    intro code hcode hservice
    rw [byHelper, if_neg hoption, hservice]
    exact ⟨rfl, hcode⟩
  have hservice := @service_apply m step hnormal hvalid
  by_cases hrefused : step.verify = true ∧ helperAccepts m step.unit = false
  · have hclass : classifyHelperExit (refusal m) = .failed := by
      rw [refusal]
      split <;> rfl
    refine hshape (refusal m) hclass (hservice.trans (bind_failed ?_))
    rw [hrefused.1, onlyIf, if_pos rfl, verifyUnit_apply, hrefused.2]
    rfl
  · have helevates : m.elevates = false := by
      rcases h with hdash | hrefuses | helevates
      · exact absurd hdash hoption
      · exact absurd hrefuses hrefused
      · exact helevates
    have hverify : onlyIf step.verify (verifyUnit m step.unit) [] = (.returned (), []) := by
      cases hverify : step.verify with
      | false => rfl
      | true =>
        have haccepts := Bool.eq_true_of_not_eq_false fun hf => hrefused ⟨hverify, hf⟩
        exact verifyUnit_apply.trans (if_pos haccepts)
    refine hshape UnitSteps.Exit.failed rfl (hservice.trans ?_)
    rw [bind_returned hverify]
    refine bind_failed ?_
    rw [runSystemctl, helevates]
    rfl

theorem byHelper_goes (hgoes : ¬HelperStops m step.unit (stepActions step)) :
    service m step.unit (stepActions step) (stepTimeout step) [] =
      (runSystemctl m .daemonReload >>= fun _ =>
        enableStep m step.unit (stepActions step) >>= fun _ =>
          reloadStep m step.unit (stepActions step) >>= fun _ =>
            restartStep m step.unit (stepActions step) (wasActive (unitState m)) >>= fun _ =>
              waitStep m (stepActions step) (wasActive (unitState m)) (stepTimeout step)) [] := by
  obtain ⟨-, haccepts⟩ := not_or.mp hgoes
  have hverify : onlyIf step.verify (verifyUnit m step.unit) [] = (.returned (), []) := by
    cases hverify : step.verify with
    | false => rfl
    | true =>
      have haccepted := Bool.eq_true_of_not_eq_false fun hf => haccepts (.inl ⟨hverify, hf⟩)
      exact verifyUnit_apply.trans (if_pos haccepted)
  exact (@service_apply m step hnormal hvalid).trans (bind_returned hverify)

theorem byHelper_calls (hgoes : ¬HelperStops m step.unit (stepActions step)) :
    (byHelper m step).calls ≠ [] := by
  obtain ⟨hoption, hgo⟩ := not_or.mp hgoes
  have helevates : m.elevates = true := Bool.eq_true_of_not_eq_false (not_or.mp hgo).2
  rw [byHelper, if_neg hoption, calls_of, byHelper_goes hnormal hvalid hgoes]
  by_cases hstatus : m.status .daemonReload = 0
  · rw [bind_returned (runSystemctl_ok helevates hstatus)]
    have hstart := ensures_final.mp ((@steps_enable m step.unit (stepActions step)
      (stepTimeout step) (wasActive (unitState m)) [.daemonReload]).mono (fun _ _ h => h)
      (fun _ _ h => h) fun _ _ h => h.elim)
    exact List.ne_nil_of_length_pos (Nat.lt_of_lt_of_le Nat.one_pos hstart.length_le)
  · rw [bind_failed (runSystemctl_fails helevates hstatus)]
    exact List.cons_ne_nil _ _

/-- The two ways, for a unit that has the name of one. -/
theorem sameEnd_iff : SameEnd (byHelper m step) (byScript m step) ↔ Meets m step := by
  by_cases hscript : ScriptStops m step.unit
  · have hrun := @script_stops m step.unit (stepActions step) (stepTimeout step) [] hscript
    have hend : byScript m step = ⟨[], 1⟩ := by rw [byScript, hrun]
    rw [hend]
    by_cases hoption : Str.startsWith step.unit "-" = true
    · have hhelper : byHelper m step = ⟨[], optionStatus step.unit⟩ := if_pos hoption
      rw [hhelper, Meets]
      have hstops : HelperStops m step.unit (stepActions step) := .inl hoption
      have hclass : classifyHelperExit (optionStatus step.unit) = classifyHelperExit 1 ↔
          optionStatus step.unit ≠ 0 := by
        rw [optionStatus]
        split <;> decide
      constructor
      · intro h
        exact ⟨fun _ => hclass.mp h.2, iff_of_true hstops hscript, fun hnot => absurd hscript hnot⟩
      · intro h
        exact ⟨rfl, hclass.mpr (h.1 hoption)⟩
    · rw [Meets]
      by_cases hstops : HelperStops m step.unit (stepActions step)
      · obtain ⟨hcalls, hclass⟩ := byHelper_stops hnormal hvalid hoption hstops
        exact iff_of_true ⟨hcalls, hclass⟩
          ⟨fun h => absurd h hoption, iff_of_true hstops hscript, fun hnot => absurd hscript hnot⟩
      · refine iff_of_false (fun h => ?_) fun h => hstops (h.2.1.mpr hscript)
        exact byHelper_calls hnormal hvalid hstops h.1
  · rw [Meets]
    by_cases hstops : HelperStops m step.unit (stepActions step)
    · refine iff_of_false (fun h => ?_) fun h => hscript (h.2.1.mp hstops)
      by_cases hoption : Str.startsWith step.unit "-" = true
      · rw [byHelper, if_pos hoption] at h
        exact byScript_calls hscript h.1.symm
      · exact byScript_calls hscript (h.1.symm.trans
          (byHelper_stops hnormal hvalid hoption hstops).1)
    · obtain ⟨hoption, hgo⟩ := not_or.mp hstops
      have helevates : m.elevates = true := Bool.eq_true_of_not_eq_false (not_or.mp hgo).2
      have hsame := (@same_call m [] .daemonReload helevates
        (enableStep m step.unit (stepActions step) >>= fun _ =>
          reloadStep m step.unit (stepActions step) >>= fun _ =>
            restartStep m step.unit (stepActions step) (wasActive (unitState m)) >>= fun _ =>
              waitStep m (stepActions step) (wasActive (unitState m)) (stepTimeout step))
        (seq (callLine m step.enable (.enable step.unit))
          (seq (callLine m step.reload (.reload step.unit))
            (seq (restartLine m step.unit (stepActions step) (wasActive (unitState m)))
              (waitLine m (stepActions step) (stepTimeout step) (wasActive (unitState m))))))).trans
        (Iff.of_eq (congrArg (Goes m .daemonReload) (propext (same_enable helevates (by simp)))))
      rw [byHelper, if_neg hoption, byHelper_goes hnormal hvalid hstops, byScript,
        byScript_goes hscript]
      refine hsame.trans ⟨fun h => ?_, fun h => h.2.2 hscript⟩
      exact ⟨fun hdash => absurd hdash hoption, iff_of_false hstops hscript, fun _ => h⟩

end Helper
end Whole

section Parsed
variable {payload target : String} {line : Nat} {step : ServiceStep}

theorem isWhitespace_of_mem_unit {unit : String} (hvalid : isValidUnitName unit = true) {c : Char}
    (hc : c ∈ unit.toList) : Str.isWhitespace c = false := by
  rw [isValidUnitName, Bool.and_eq_true] at hvalid
  have hchar := List.all_eq_true.mp hvalid.2 c hc
  simp only [Bool.or_eq_true, beq_iff_eq] at hchar
  rcases hchar with ((((halnum | rfl) | rfl) | rfl) | rfl) | rfl
  · exact isWhitespace_of_varChar (by rw [halnum, Bool.true_or])
  all_goals decide

/-- A valid name already has the form that the helper gives it. -/
theorem normalizeUnit_normalized {raw : String} (hvalid : isValidUnitName (normalizeUnit raw) = true) :
    normalizeUnit (normalizeUnit raw) = normalizeUnit raw := by
  have htrim : Str.trim (normalizeUnit raw) = normalizeUnit raw := by
    rw [Str.trim, Str.trimChars_eq_self fun c hc => isWhitespace_of_mem_unit hvalid hc,
      String.ofList_toList]
  rw [normalizeUnit, htrim, if_pos (endsWith_normalizeUnit raw)]

theorem safeUnit_normal {raw directive unit : String} (h : safeUnit raw directive line = .ok unit) :
    normalizeUnit unit = unit := by
  have hvalid := HostStep.safeUnit_valid h
  obtain ⟨_, -, h⟩ := bind_eq_ok.mp h
  have hunit : normalizeUnit raw = unit := Except.ok.inj h
  rw [← hunit] at hvalid ⊢
  exact normalizeUnit_normalized hvalid

theorem parseService_normal {m : StepMeta}
    (h : parseService m payload line = .ok (target, step)) :
    normalizeUnit step.unit = step.unit := by
  obtain ⟨⟨positional, flags⟩, -, h⟩ := bind_eq_ok.mp h
  obtain ⟨args, -, h⟩ := bind_eq_ok.mp h
  obtain ⟨⟨raw, word⟩, -, h⟩ := bind_eq_ok.mp h
  obtain ⟨unit, hunit, h⟩ := bind_eq_ok.mp h
  obtain ⟨_, -, h⟩ := bind_eq_ok.mp h
  cases h
  exact safeUnit_normal hunit

/-- For a step that the parser takes, the two ways ask systemd for the same and end alike exactly under
`Meets`. -/
theorem service_agree_iff (machine : Machine) {m : StepMeta}
    (h : parseService m payload line = .ok (target, step)) :
    SameEnd (serviceCommand machine step true) (serviceCommand machine step false) ↔
      Meets machine step :=
  sameEnd_iff (parseService_normal h) (HostStep.parseService_unit h)

/-- A target whose unit is up. -/
def upMachine : Machine where
  elevates := true
  analyze := some fun _ => ⟨true, "", ""⟩
  fragment := "/etc/systemd/system/web.service"
  active := "active"
  enabled := .state "enabled"
  execReload := true
  status _ := 0
  systemctl := ⟨fun s => decide (s = "active"), fun s => decide (s = "failed"), by decide, by decide,
    fun _ => decide_eq_true_iff⟩
  states _ := none

def webStep : ServiceStep :=
  ⟨none, .mkAt "h" 1, "web.service", false, true, false, false, true, false, none⟩

theorem service_agree_restart :
    SameEnd (serviceCommand upMachine webStep true) (serviceCommand upMachine webStep false) ↔
      Meets upMachine webStep :=
  @service_agree_iff "web @h --restart --verify" "h" 1 webStep upMachine ⟨none, none, none⟩ rfl

end Parsed

end Shellflow.Lifecycle
