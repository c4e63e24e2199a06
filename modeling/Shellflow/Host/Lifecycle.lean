import Shellflow.Executor.HelperFallback
import Shellflow.Executor.HelperWords
import Shellflow.Lib.Process

/-! The service verb of the target: verify the unit, reload the manager, enable, reload, restart and
wait, in this order. -/
namespace Shellflow.Lifecycle
open Process Process.Program Polling
open HostStep (ServiceActions)

/-- A change that is asked of systemd. -/
inductive Call where
  | daemonReload
  | enable (unit : String)
  | reload (unit : String)
  | restart (unit : String)
  | start (unit : String)
deriving DecidableEq, Repr

/-- What `systemd-analyze verify` says. -/
structure Report where
  ok : Bool
  stdout : String
  stderr : String

/-- How `systemctl is-enabled` ends: with a state, or with a complaint. -/
inductive Enabled where
  | state (text : String)
  | refused (detail : String)

/-- The target. `elevates` tells whether privileged calls get through (root, or `sudo -n`), `analyze`
is `none` without the tool, `fragment` and `active` are what `systemctl` prints, and `states` is what
systemd reports at each poll of a wait. -/
structure Machine where
  elevates : Bool
  analyze : Option (String → Report)
  fragment : String
  active : String
  enabled : Enabled
  execReload : Bool
  status : Call → Nat
  systemctl : UnitSteps.Systemctl
  states : Nat → Option UnitSteps.UnitState

/-- The failures are the exit codes; the texts are left out. The state is what was asked of systemd. -/
abbrev Verb := Program (List Call) Nat

def onlyIf (b : Bool) (p : Verb Unit) : Verb Unit := if b then p else pure ()

/-- `unit.trim_end_matches(".service")` -/
def unitStem (unit : String) : String :=
  String.ofList (Str.trimPatternChars ".service".toList.reverse unit.length
    unit.toList.reverse).reverse

def isAMissingFile (line : String) : Bool :=
  Str.contains line "is not executable" || Str.contains line "No such file or directory" ||
    Str.contains line "not found" || Str.contains line "Cannot find" ||
    Str.contains line "Failed to resolve" || Str.trim line = ""

/-- The complaints about the unit itself. -/
def about (unit : String) (report : Report) : List String :=
  let detail := if Str.trim report.stderr = "" then Str.trim report.stdout else Str.trim report.stderr
  (Str.lines detail).filter fun line => Str.contains line (unitStem unit)

def accepted (unit : String) (report : Report) : Bool :=
  report.ok || (about unit report).all isAMissingFile

def wasActive (state : String) : Bool := !(["", "inactive", "unknown"].contains state)

def enableIsNeeded (state : String) : Bool :=
  !(["enabled", "enabled-runtime", "generated"].contains state)

def enableAction (enable : Bool) (state : String) : Bool := enable && enableIsNeeded state

inductive Action where
  | restart
  | start
  | skip
deriving DecidableEq, Repr

def restartAction (actions : ServiceActions) (active : Bool) : Action :=
  if !actions.restart then .skip
  else if active then .restart
  else if actions.forceStart then .start
  else .skip

def waitHasSomethingToWaitFor (active forceStart : Bool) : Bool := active || forceStart

/-- Both ways of the step poll every two seconds. -/
def late (budget n : Nat) : Bool := budget ≤ 2 * n

section Verb
variable (m : Machine)

def runSystemctl (call : Call) : Verb Unit := fun done =>
  if !m.elevates then (.failed UnitSteps.Exit.failed, done)
  else if m.status call = 0 then (.returned (), done ++ [call])
  else (.failed UnitSteps.Exit.failed, done ++ [call])

def loadedFragment : Option String :=
  let path := if m.elevates then m.fragment else ""
  if path = "" ∨ path = "/dev/null" then none else some path

def verifyUnitFile (unit path : String) : Verb Unit :=
  match m.analyze with
  | none => fail UnitSteps.Exit.usage
  | some verify => if accepted unit (verify path) then pure () else fail UnitSteps.Exit.failed

def verifyUnit (unit : String) : Verb Unit :=
  match loadedFragment m with
  | some fragment => verifyUnitFile m unit fragment
  | none => verifyUnitFile m unit unit

/-- A state that cannot be read counts as stopped. -/
def unitState : String := if m.elevates then m.active else ""

def unitEnabledState : Verb String :=
  if !m.elevates then fail UnitSteps.Exit.failed
  else
    match m.enabled with
    | .state text => pure text
    | .refused detail =>
      if Str.contains detail "No such file or directory" || Str.contains detail "not found" then
        pure "missing"
      else fail UnitSteps.Exit.failed

def reloadUnit (unit : String) : Verb Unit :=
  if m.elevates && m.execReload then runSystemctl m (.reload unit) else fail UnitSteps.Exit.usage

/-- One poll of the helper. -/
def readyJudge (n : Nat) : Option Nat :=
  match if m.elevates then m.states n else none with
  | none => some UnitSteps.Exit.usage
  | some state =>
    match UnitSteps.verdict state with
    | .ready => some UnitSteps.Exit.ready
    | .failed _ => some UnitSteps.Exit.failed
    | .pending => none

def waitForReady (budget : Nat) : Verb Unit := fun done =>
  match pollFrom (readyJudge m) (late budget) UnitSteps.Exit.timeout budget 0 with
  | 0 => (.returned (), done)
  | code => (.failed code, done)

variable (unit : String) (actions : ServiceActions) (active : Bool) (timeout : Nat)

def enableStep : Verb Unit := do
  let state ← unitEnabledState m
  onlyIf (enableAction actions.enable state) (runSystemctl m (.enable unit))

def reloadStep : Verb Unit := onlyIf actions.reload (reloadUnit m unit)

def restartStep : Verb Unit :=
  onlyIf actions.restart
    (match restartAction actions active with
    | .restart => runSystemctl m (.restart unit)
    | .start => runSystemctl m (.start unit)
    | .skip => pure ())

def waitStep : Verb Unit :=
  onlyIf actions.wait
    (onlyIf (waitHasSomethingToWaitFor active actions.forceStart) (waitForReady m timeout))

def service : Verb Unit := do
  let unit := normalizeUnit unit
  onlyIf (!isValidUnitName unit) (fail UnitSteps.Exit.usage)
  onlyIf actions.verify (verifyUnit m unit)
  let active := wasActive (unitState m)
  runSystemctl m .daemonReload
  enableStep m unit actions
  reloadStep m unit actions
  restartStep m unit actions active
  waitStep m actions active timeout

end Verb

section Conditions
variable (m : Machine) (unit : String)

def helperAccepts : Bool :=
  match m.analyze with
  | none => false
  | some verify => accepted unit (verify ((loadedFragment m).getD unit))

/-- The state that the helper reads, where `is-enabled` does not stop it. -/
def readState : Option String :=
  match m.enabled with
  | .state text => some text
  | .refused detail =>
    if Str.contains detail "No such file or directory" || Str.contains detail "not found" then
      some "missing"
    else none

end Conditions

section Parts
variable {m : Machine} {unit : String} {actions : ServiceActions} {active : Bool} {timeout : Nat}
variable {done : List Call} {call : Call}

theorem runSystemctl_ok (helevates : m.elevates = true) (hstatus : m.status call = 0) :
    runSystemctl m call done = (.returned (), done ++ [call]) := by
  simp [runSystemctl, helevates, hstatus]

theorem runSystemctl_fails (helevates : m.elevates = true) (hstatus : m.status call ≠ 0) :
    runSystemctl m call done = (.failed UnitSteps.Exit.failed, done ++ [call]) := by
  simp [runSystemctl, helevates, hstatus]

/-- The helper waits at most as long as it may. -/
theorem late_budget : late timeout (0 + timeout) = true := by
  rw [late]
  exact decide_eq_true (by omega)

theorem unitEnabledState_apply (helevates : m.elevates = true) :
    unitEnabledState m done =
      match readState m with
      | some state => (.returned state, done)
      | none => (.failed UnitSteps.Exit.failed, done) := by
  rw [unitEnabledState, readState, helevates, Bool.not_true, if_neg Bool.false_ne_true]
  cases m.enabled with
  | state text => rfl
  | refused detail =>
    dsimp only
    split <;> rfl

/-- How the check of the unit fails: without the tool, or on a complaint. -/
def refusal (m : Machine) : Nat := if m.analyze.isSome then UnitSteps.Exit.failed else UnitSteps.Exit.usage

theorem verifyUnit_apply : verifyUnit m unit done =
    if helperAccepts m unit then (.returned (), done) else (.failed (refusal m), done) := by
  have hfile : verifyUnit m unit = verifyUnitFile m unit ((loadedFragment m).getD unit) := by
    rw [verifyUnit]
    cases loadedFragment m <;> rfl
  rw [hfile, verifyUnitFile, helperAccepts, refusal]
  cases m.analyze with
  | none => rfl
  | some verify =>
    dsimp only
    split <;> rfl

end Parts

section Run
variable {m : Machine}

/-- A part of the verb asks for `want`, in order, up to the first call that fails; it returns exactly if
`works` holds and none failed. -/
def Asks (m : Machine) (p : Verb Unit) (want : List Call) (works : Prop) : Prop :=
  ∀ done, (p done = (.returned (), done ++ want) ∧ works ∧ ∀ call ∈ want, m.status call = 0) ∨
    ∃ code made, p done = (.failed code, done ++ made) ∧ made <+: want ∧
      (∀ call ∈ made.dropLast, m.status call = 0) ∧
      ¬(works ∧ ∀ call ∈ want, m.status call = 0)

theorem asks_pure : Asks m (pure ()) [] True := fun done =>
  .inl ⟨by rw [List.append_nil]; rfl, trivial, List.forall_mem_nil _⟩

/-- What a part asks for where it stops before it asks for anything. -/
theorem Asks.stopped {p : Verb Unit} {want : List Call} {works : Prop} {code : Nat}
    (h : ∀ done, p done = (.failed code, done)) (hworks : ¬works) : Asks m p want works :=
  fun done => .inr ⟨code, [], by rw [List.append_nil]; exact h done, List.nil_prefix,
    List.forall_mem_nil _, fun hall => hworks hall.1⟩

theorem asks_call (call : Call) : Asks m (runSystemctl m call) [call] (m.elevates = true) := by
  by_cases helevates : m.elevates = true
  · intro done
    by_cases hstatus : m.status call = 0
    · exact .inl ⟨runSystemctl_ok helevates hstatus, helevates, List.forall_mem_singleton.mpr hstatus⟩
    · refine .inr ⟨_, [call], runSystemctl_fails helevates hstatus, List.prefix_refl _,
        List.forall_mem_nil _, fun h => ?_⟩
      exact hstatus (h.2 call List.mem_cons_self)
  · have hstops : ∀ done, runSystemctl m call done = (.failed UnitSteps.Exit.failed, done) :=
      fun done => by simp [runSystemctl, helevates]
    exact Asks.stopped hstops helevates

theorem Asks.bind {p q : Verb Unit} {want want' : List Call} {works works' : Prop}
    (hp : Asks m p want works) (hq : Asks m q want' works') :
    Asks m (p >>= fun _ => q) (want ++ want') (works ∧ works') := by
  intro done
  rcases hp done with ⟨hrun, hworks, hall⟩ | ⟨code, made, hrun, hprefix, hmade, hnot⟩
  · rw [bind_returned hrun]
    rcases hq (done ++ want) with ⟨hrun', hworks', hall'⟩ | ⟨code, made, hrun', hprefix, hmade, hnot⟩
    · refine .inl ⟨by rw [hrun', List.append_assoc], ⟨hworks, hworks'⟩, fun call hmem => ?_⟩
      exact (List.mem_append.mp hmem).elim (hall call) (hall' call)
    · refine .inr ⟨code, want ++ made, by rw [hrun', List.append_assoc],
        List.prefix_append_right_inj want |>.mpr hprefix, fun call hmem => ?_, fun h => hnot ⟨h.1.2,
          fun call hmem => h.2 call (List.mem_append_right _ hmem)⟩⟩
      by_cases hnil : made = []
      · rw [hnil, List.append_nil] at hmem
        exact hall call (List.mem_of_mem_dropLast hmem)
      · rw [List.dropLast_append_of_ne_nil hnil] at hmem
        exact (List.mem_append.mp hmem).elim (hall call) (hmade call)
  · rw [bind_failed hrun]
    exact .inr ⟨code, made, rfl, hprefix.trans (List.prefix_append _ _), hmade, fun h =>
      hnot ⟨h.1.1, fun call hmem => h.2 call (List.mem_append_left _ hmem)⟩⟩

theorem Asks.onlyIf {p : Verb Unit} {want : List Call} {works : Prop} (hp : Asks m p want works)
    (b : Bool) : Asks m (onlyIf b p) (if b then want else []) (b = true → works) := by
  cases b with
  | true =>
    have hworks : (true = true → works) ↔ works := ⟨fun h => h rfl, fun h _ => h⟩
    intro done
    rw [hworks]
    exact hp done
  | false =>
    have hworks : (false = true → works) ↔ True := iff_true_intro nofun
    intro done
    rw [hworks]
    exact asks_pure done

section Steps
variable (m) (unit : String) (actions : ServiceActions) (active : Bool) (timeout : Nat)

def enableCalls : List Call :=
  match readState m with
  | some state => if enableAction actions.enable state then [.enable unit] else []
  | none => []

def restartCalls : List Call :=
  match restartAction actions active with
  | .restart => [.restart unit]
  | .start => [.start unit]
  | .skip => []

/-- The calls of a run that nothing stops. -/
def planned : List Call :=
  .daemonReload :: (enableCalls m unit actions ++ ((if actions.reload then [.reload unit] else []) ++
    restartCalls unit actions (wasActive (unitState m))))

/-- The unit has the name of one, and where asked for it is verified. -/
def Checked : Prop :=
  isValidUnitName unit = true ∧ (actions.verify = true → helperAccepts m unit = true)

/-- What a run rests on beside the calls that it makes. -/
def Works : Prop :=
  m.elevates = true ∧ (readState m).isSome ∧ (actions.reload = true → m.execReload = true) ∧
    (actions.wait = true → wasActive (unitState m) = true ∨ actions.forceStart = true →
      Ends (readyJudge m) (late timeout) 0 UnitSteps.Exit.ready)

end Steps

section Verb
variable (unit : String) (actions : ServiceActions) (active : Bool) (timeout : Nat)

theorem asks_enableStep : Asks m (enableStep m unit actions) (enableCalls m unit actions)
    (m.elevates = true ∧ (readState m).isSome) := by
  by_cases helevates : m.elevates = true
  · have hread := fun done => @unitEnabledState_apply m done helevates
    intro done
    rw [enableCalls]
    cases hstate : readState m with
    | none =>
      rw [hstate] at hread
      have hstops : enableStep m unit actions done = (.failed UnitSteps.Exit.failed, done) :=
        bind_failed (hread done)
      exact .inr ⟨_, [], by rw [hstops, List.append_nil], List.prefix_refl _, List.forall_mem_nil _,
        fun h => Bool.false_ne_true h.1.2⟩
    | some state =>
      rw [hstate] at hread
      have hstep : enableStep m unit actions done =
          onlyIf (enableAction actions.enable state) (runSystemctl m (.enable unit)) done :=
        bind_returned (hread done)
      have hworks : (m.elevates = true ∧ (some state).isSome = true) ↔
          (enableAction actions.enable state = true → m.elevates = true) :=
        ⟨fun h _ => h.1, fun _ => ⟨helevates, rfl⟩⟩
      rw [hstep, hworks]
      exact (asks_call (.enable unit)).onlyIf (enableAction actions.enable state) done
  · have hstops : ∀ done, enableStep m unit actions done = (.failed UnitSteps.Exit.failed, done) :=
      fun done => bind_failed (by simp [unitEnabledState, helevates, fail])
    exact Asks.stopped hstops fun h => helevates h.1

theorem asks_reloadUnit : Asks m (reloadUnit m unit) [.reload unit]
    (m.elevates = true ∧ m.execReload = true) := by
  rw [reloadUnit]
  by_cases hexec : m.execReload = true
  · rw [hexec, Bool.and_true]
    by_cases helevates : m.elevates = true
    · rw [if_pos helevates]
      intro done
      rw [and_iff_left rfl]
      exact asks_call (.reload unit) done
    · rw [if_neg helevates]
      exact Asks.stopped (fun _ => rfl) fun h => helevates h.1
  · have hstops : (m.elevates && m.execReload) ≠ true := by simp [hexec]
    rw [if_neg hstops]
    exact Asks.stopped (fun _ => rfl) fun h => hexec h.2

theorem asks_restartStep : Asks m (restartStep m unit actions active)
    (restartCalls unit actions active) (restartCalls unit actions active ≠ [] → m.elevates = true) := by
  have hskip : (([] : List Call) ≠ [] → m.elevates = true) ↔ True := iff_true_intro fun h => absurd rfl h
  have hcall : ∀ call : Call, ([call] ≠ [] → m.elevates = true) ↔ m.elevates = true :=
    fun call => ⟨fun h => h (List.cons_ne_nil _ _), fun h _ => h⟩
  rw [restartStep, restartCalls]
  intro done
  cases hasked : actions.restart with
  | false =>
    have haction : restartAction actions active = .skip := by rw [restartAction, hasked]; rfl
    rw [haction, hskip]
    exact asks_pure done
  | true =>
    rw [onlyIf, if_pos rfl]
    cases restartAction actions active with
    | restart =>
      rw [hcall]
      exact asks_call _ done
    | start =>
      rw [hcall]
      exact asks_call _ done
    | skip =>
      rw [hskip]
      exact asks_pure done

theorem asks_waitForReady : Asks m (waitForReady m timeout) []
    (Ends (readyJudge m) (late timeout) 0 UnitSteps.Exit.ready) := by
  have hready : pollFrom (readyJudge m) (late timeout) UnitSteps.Exit.timeout timeout 0 =
      UnitSteps.Exit.ready ↔ Ends (readyJudge m) (late timeout) 0 UnitSteps.Exit.ready :=
    pollFrom_eq_iff late_budget (by decide)
  intro done
  rw [waitForReady, ← hready]
  cases pollFrom (readyJudge m) (late timeout) UnitSteps.Exit.timeout timeout 0 with
  | zero => exact .inl ⟨by rw [List.append_nil]; rfl, rfl, List.forall_mem_nil _⟩
  | succ code =>
    exact .inr ⟨code + 1, [], by rw [List.append_nil]; rfl, List.prefix_refl _,
      List.forall_mem_nil _, fun h => Nat.succ_ne_zero code h.1⟩

theorem works_iff : Works m actions timeout ↔
    m.elevates = true ∧ (m.elevates = true ∧ (readState m).isSome) ∧
      (actions.reload = true → m.elevates = true ∧ m.execReload = true) ∧
        (restartCalls unit actions active ≠ [] → m.elevates = true) ∧
          (actions.wait = true →
            waitHasSomethingToWaitFor (wasActive (unitState m)) actions.forceStart = true →
              Ends (readyJudge m) (late timeout) 0 UnitSteps.Exit.ready) := by
  rw [Works, waitHasSomethingToWaitFor, Bool.or_eq_true]
  constructor
  · rintro ⟨helevates, hread, hexec, hready⟩
    exact ⟨helevates, ⟨helevates, hread⟩, fun h => ⟨helevates, hexec h⟩, fun _ => helevates, hready⟩
  · rintro ⟨helevates, ⟨-, hread⟩, hexec, -, hready⟩
    exact ⟨helevates, hread, fun h => (hexec h).2, hready⟩

end Verb

/-- The verb changes nothing before the unit is checked. After it, it makes its calls in order up to the
first that fails, and returns exactly where all of them went through, the reload is one that the unit
knows, and the unit it waits for is up in time. -/
theorem service_asks (m : Machine) (unit : String) (actions : ServiceActions) (timeout : Nat) :
    (¬Checked m (normalizeUnit unit) actions →
        ∀ done, ∃ code, service m unit actions timeout done = (.failed code, done)) ∧
      (Checked m (normalizeUnit unit) actions →
        Asks m (service m unit actions timeout) (planned m (normalizeUnit unit) actions)
          (Works m actions timeout)) := by
  have hservice : ∀ done, service m unit actions timeout done =
      (onlyIf (!isValidUnitName (normalizeUnit unit)) (fail UnitSteps.Exit.usage) >>= fun _ =>
        onlyIf actions.verify (verifyUnit m (normalizeUnit unit)) >>= fun _ =>
          runSystemctl m .daemonReload >>= fun _ =>
            enableStep m (normalizeUnit unit) actions >>= fun _ =>
              reloadStep m (normalizeUnit unit) actions >>= fun _ =>
                restartStep m (normalizeUnit unit) actions (wasActive (unitState m)) >>= fun _ =>
                  waitStep m actions (wasActive (unitState m)) timeout) done := fun _ => rfl
  generalize normalizeUnit unit = unit' at hservice
  have hname : ∀ done, isValidUnitName unit' = true →
      onlyIf (!isValidUnitName unit') (fail UnitSteps.Exit.usage) done = (.returned (), done) := by
    intro done h
    rw [h]
    rfl
  constructor
  · intro hchecked done
    rw [hservice]
    by_cases hvalid : isValidUnitName unit' = true
    · rw [bind_returned (hname done hvalid)]
      have hrefused : actions.verify = true ∧ helperAccepts m unit' = false := by
        by_contra hnot
        exact hchecked ⟨hvalid, fun hverify => Bool.eq_true_of_not_eq_false fun hf => hnot ⟨hverify, hf⟩⟩
      have hverify : onlyIf actions.verify (verifyUnit m unit') done = (.failed (refusal m), done) := by
        rw [hrefused.1, onlyIf, if_pos rfl, verifyUnit_apply, hrefused.2]
        rfl
      exact ⟨_, bind_failed hverify⟩
    · have hfails : onlyIf (!isValidUnitName unit') (fail UnitSteps.Exit.usage) done =
          (.failed UnitSteps.Exit.usage, done) := by
        rw [Bool.eq_false_of_not_eq_true hvalid]
        rfl
      exact ⟨_, bind_failed hfails⟩
  · intro hchecked done
    have hverify : onlyIf actions.verify (verifyUnit m unit') done = (.returned (), done) := by
      cases hverify : actions.verify with
      | false => rfl
      | true => exact verifyUnit_apply.trans (if_pos (hchecked.2 hverify))
    rw [hservice, bind_returned (hname done hchecked.1), bind_returned hverify]
    have hasks := (asks_call .daemonReload).bind ((asks_enableStep unit' actions).bind
      (((asks_reloadUnit unit').onlyIf actions.reload).bind
        ((asks_restartStep unit' actions (wasActive (unitState m))).bind
          (((asks_waitForReady (m := m) timeout).onlyIf
            (waitHasSomethingToWaitFor (wasActive (unitState m)) actions.forceStart)).onlyIf
              actions.wait)))) done
    have hwant : (if actions.wait = true then
        if waitHasSomethingToWaitFor (wasActive (unitState m)) actions.forceStart = true then
          ([] : List Call) else [] else []) = [] := by
      rw [ite_self, ite_self]
    rw [hwant, List.append_nil] at hasks
    rw [works_iff unit' actions (wasActive (unitState m)) timeout]
    exact hasks

end Run

end Shellflow.Lifecycle
