import Mathlib.Order.Basic
import Mathlib.Order.Nat
import Shellflow.Executor.HelperFallback
import Shellflow.Lib.Polling

/-! A command under a readiness contract: the supervisor polls the child and the declared condition,
reports the unit ready, and takes the child down when it is too late. -/
namespace Shellflow.Supervisor
open Polling

structure SystemdExecArgs where
  command : List String
  readyPort : Option Nat
  readyUrl : Option String
  readyFile : Option String
  timeout : Nat
  status : Option String

/-- The code of a child that ended; none when a signal killed it. -/
abbrev ExitStatus := Option Int

/-- The host while the supervisor runs: what the `n`-th poll sees. A poll sleeps a quarter of a
second, and one of the last grace a twentieth. -/
structure World (args : SystemdExecArgs) where
  spawns : Bool
  forwardsSignals : Bool
  tryWait : Nat → Except Unit (Option ExitStatus)
  portOpen : Nat → Nat → Bool
  /-- What a host and a port answer to a request, where the address is one and takes it. -/
  fetch : Nat → String → Nat → String → Option String
  fileExists : Nat → String → Bool
  late : Nat → Bool
  budget : late (4 * args.timeout) = true
  wait : Except Unit ExitStatus
  graceWait : Nat → Except Unit (Option ExitStatus)
  graceLate : Nat → Bool
  grace : graceLate 100 = true

inductive Signal
  | term
  | kill
deriving DecidableEq

inductive NotifyState
  | ready
  | status (text : String)
deriving DecidableEq

inductive Event
  | spawned
  | notified (states : List NotifyState)
  /-- To the whole process group of the child. -/
  | signalled (signal : Signal)
  | reaped
deriving DecidableEq

/-- What the polls come to. -/
inductive Verdict
  | ready
  | exited
  | broken
  | late
deriving DecidableEq

section Program
variable (args : SystemdExecArgs) (w : World args)

/-- The authority of a plain URL, its host and port, and the path. -/
def readUrl (url : String) : Option (String × String × Nat × String) :=
  (Str.stripPrefix url "http://").map fun rest =>
    let (authority, path) := (Str.splitOnce rest "/").getD (rest, "/")
    match Str.rsplitOnceChar authority ':' with
    | some (host, port) =>
      match Str.parseU16 port with
      | some port => (authority, host, port, path)
      | none => (authority, authority, 80, path)
    | none => (authority, authority, 80, path)

def urlAnswers (n : Nat) (url : String) : Bool :=
  match readUrl url with
  | none => false
  | some (authority, host, port, path) =>
    let request := s!"GET /{path} HTTP/1.0\r\nHost: {authority}\r\nConnection: close\r\n\r\n"
    match (w.fetch n host port request).bind fun text => (Str.splitWhitespace text)[1]? with
    | none => false
    | some status => Str.startsWith status "2" || Str.startsWith status "3"

/-- The declared condition at a poll. -/
def satisfied (n : Nat) : Bool :=
  args.readyPort.all (w.portOpen n) && args.readyUrl.all (urlAnswers args w n) &&
    args.readyFile.all (w.fileExists n) &&
      (args.readyPort.isSome || args.readyUrl.isSome || args.readyFile.isSome)

def judge (n : Nat) : Option Verdict :=
  match w.tryWait n with
  | .error _ => some .broken
  | .ok (some _) => some .exited
  | .ok none => if satisfied args w n then some .ready else none

def awaitReady : Verdict := pollFrom (judge args w) w.late .late (4 * args.timeout) 0

/-- The loop looks at the clock first. -/
def graceJudge (n : Nat) : Option Bool :=
  if w.graceLate n then some false
  else
    match w.graceWait n with
    | .ok (some _) => some true
    | _ => none

def terminateSupervisedChild : List Event :=
  .signalled .term ::
    if pollFrom (graceJudge args w) w.graceLate false 100 0 then [.reaped]
    else [.signalled .kill, .reaped]

def readyStates : List NotifyState :=
  .ready :: (args.status.map NotifyState.status).toList

/-- The exit code, and what was done. -/
def exec : Except Nat Unit × List Event :=
  if args.command = [] || args.readyUrl.any fun url => Str.startsWith url "https://" then
    (.error UnitSteps.Exit.usage, [])
  else if !w.spawns then (.error UnitSteps.Exit.usage, [])
  else if !w.forwardsSignals then (.error UnitSteps.Exit.usage, [.spawned])
  else
    match awaitReady args w with
    | .broken => (.error UnitSteps.Exit.usage, [.spawned])
    | .exited => (.error UnitSteps.Exit.failed, [.spawned, .reaped])
    | .late => (.error UnitSteps.Exit.timeout, .spawned :: terminateSupervisedChild args w)
    | .ready =>
      match w.wait with
      | .error _ => (.error UnitSteps.Exit.usage, [.spawned, .notified (readyStates args)])
      | .ok status =>
        (if status = some 0 then .ok () else .error UnitSteps.Exit.failed,
          [.spawned, .notified (readyStates args), .reaped])

end Program

section Rules
variable {args : SystemdExecArgs} {w : World args} {n : Nat}

/-- The command line is refused before anything runs. -/
def Refused (args : SystemdExecArgs) : Prop :=
  args.command = [] ∨ ∃ url, args.readyUrl = some url ∧ Str.startsWith url "https://" = true

def Declared (args : SystemdExecArgs) : Prop :=
  args.readyPort ≠ none ∨ args.readyUrl ≠ none ∨ args.readyFile ≠ none

/-- The child was started and its polls begin. -/
def Started (args : SystemdExecArgs) (w : World args) : Prop :=
  ¬Refused args ∧ w.spawns = true ∧ w.forwardsSignals = true

/-- At this poll every declared condition holds for the first time, in time, and the child has been
alive so far. -/
def ReadyAt (args : SystemdExecArgs) (w : World args) (n : Nat) : Prop :=
  satisfied args w n = true ∧ (∀ m ≤ n, w.tryWait m = .ok none) ∧
    ∀ m < n, satisfied args w m = false ∧ w.late m = false

/-- The child ends within the grace. -/
def EndsInGrace (w : World args) : Prop :=
  ∃ n status, w.graceWait n = .ok (some status) ∧ ∀ m ≤ n, w.graceLate m = false

theorem refused_iff : (args.command = [] || args.readyUrl.any fun url =>
    Str.startsWith url "https://") = true ↔ Refused args := by
  rw [Bool.or_eq_true, decide_eq_true_eq, Refused]
  cases args.readyUrl <;> simp

theorem declared_of_satisfied (h : satisfied args w n = true) : Declared args := by
  rw [satisfied, Bool.and_eq_true] at h
  have hsome := h.2
  rw [Bool.or_eq_true, Bool.or_eq_true] at hsome
  rcases hsome with (hport | hurl) | hfile
  · exact .inl (Option.isSome_iff_ne_none.mp hport)
  · exact .inr (.inl (Option.isSome_iff_ne_none.mp hurl))
  · exact .inr (.inr (Option.isSome_iff_ne_none.mp hfile))

theorem judge_ready : judge args w n = some .ready ↔ w.tryWait n = .ok none ∧ satisfied args w n = true := by
  rw [judge]
  cases w.tryWait n with
  | error e => simp
  | ok found =>
    cases found with
    | some status => simp
    | none => simp

theorem judge_none : judge args w n = none ↔ w.tryWait n = .ok none ∧ satisfied args w n = false := by
  rw [judge]
  cases w.tryWait n with
  | error e => simp
  | ok found =>
    cases found with
    | some status => simp
    | none => simp

theorem awaitReady_iff {verdict : Verdict} (h : verdict ≠ .late) :
    awaitReady args w = verdict ↔ Ends (judge args w) w.late 0 verdict :=
  pollFrom_eq_iff (by rw [Nat.zero_add]; exact w.budget) h

theorem ready_iff : awaitReady args w = .ready ↔ ∃ n, ReadyAt args w n := by
  rw [awaitReady_iff (by decide)]
  constructor
  · intro h
    obtain ⟨n, -, hn, hbefore⟩ := h
    obtain ⟨hwait, hholds⟩ := judge_ready.mp hn
    refine ⟨n, hholds, fun m hm => ?_, fun m hm => ?_⟩
    · rcases Nat.lt_or_eq_of_le hm with hlt | rfl
      · exact (judge_none.mp (hbefore m m.zero_le hlt).1).1
      · exact hwait
    · exact ⟨(judge_none.mp (hbefore m m.zero_le hm).1).2, (hbefore m m.zero_le hm).2⟩
  · intro h
    obtain ⟨n, hholds, hwaits, hbefore⟩ := h
    refine ⟨n, n.zero_le, judge_ready.mpr ⟨hwaits n le_rfl, hholds⟩, fun m _ hm => ?_⟩
    exact ⟨judge_none.mpr ⟨hwaits m hm.le, (hbefore m hm).1⟩, (hbefore m hm).2⟩

theorem graceJudge_true : graceJudge args w n = some true ↔
    w.graceLate n = false ∧ ∃ status, w.graceWait n = .ok (some status) := by
  rw [graceJudge]
  cases w.graceLate n with
  | true => simp
  | false =>
    cases w.graceWait n with
    | error e => simp
    | ok found => cases found <;> simp

theorem graceJudge_none : graceJudge args w n = none ↔
    w.graceLate n = false ∧ ∀ status, w.graceWait n ≠ .ok (some status) := by
  rw [graceJudge]
  cases w.graceLate n with
  | true => simp
  | false =>
    cases w.graceWait n with
    | error e => simp
    | ok found => cases found <;> simp

theorem grace_iff : pollFrom (graceJudge args w) w.graceLate false 100 0 = true ↔ EndsInGrace w := by
  rw [pollFrom_eq_iff w.grace (by decide)]
  constructor
  · intro h
    obtain ⟨n, -, hn, hbefore⟩ := h
    obtain ⟨hlate, status, hstatus⟩ := graceJudge_true.mp hn
    refine ⟨n, status, hstatus, fun m hm => ?_⟩
    rcases Nat.lt_or_eq_of_le hm with hlt | rfl
    · exact (hbefore m m.zero_le hlt).2
    · exact hlate
  · intro h
    -- the first poll that finds the child gone
    have hex : ∃ n, (∃ status, w.graceWait n = .ok (some status)) ∧ ∀ m ≤ n, w.graceLate m = false := by
      obtain ⟨n, status, hstatus, hlate⟩ := h
      exact ⟨n, ⟨status, hstatus⟩, hlate⟩
    classical
    obtain ⟨hgone, hlate⟩ := Nat.find_spec hex
    refine ⟨Nat.find hex, Nat.zero_le _, graceJudge_true.mpr ⟨hlate _ le_rfl, hgone⟩, fun m _ hm => ?_⟩
    have hearlier : ∀ k ≤ m, w.graceLate k = false := fun k hk => hlate k (hk.trans hm.le)
    refine ⟨graceJudge_none.mpr ⟨hearlier m le_rfl, fun status hstatus => ?_⟩, hearlier m le_rfl⟩
    exact Nat.find_min hex hm ⟨⟨status, hstatus⟩, hearlier⟩

/-- The run of a child that was started. -/
theorem exec_started (h : Started args w) : exec args w =
    match awaitReady args w with
    | .broken => (.error UnitSteps.Exit.usage, [.spawned])
    | .exited => (.error UnitSteps.Exit.failed, [.spawned, .reaped])
    | .late => (.error UnitSteps.Exit.timeout, .spawned :: terminateSupervisedChild args w)
    | .ready =>
      match w.wait with
      | .error _ => (.error UnitSteps.Exit.usage, [.spawned, .notified (readyStates args)])
      | .ok status =>
        (if status = some 0 then .ok () else .error UnitSteps.Exit.failed,
          [.spawned, .notified (readyStates args), .reaped]) := by
  rw [exec, if_neg (mt refused_iff.mp h.1), h.2.1, h.2.2]
  rfl

/-- Nothing is done about a child that was not started but to leave it as it is. -/
theorem exec_not_started (h : ¬Started args w) : (exec args w).1 = .error UnitSteps.Exit.usage ∧
    ((exec args w).2 = [] ∨ (exec args w).2 = [.spawned] ∧ w.forwardsSignals = false) := by
  rw [exec]
  split
  · exact ⟨rfl, .inl rfl⟩
  next hrefused =>
    cases hspawns : w.spawns with
    | false => exact ⟨rfl, .inl rfl⟩
    | true =>
      cases hforwards : w.forwardsSignals with
      | false => exact ⟨rfl, .inr ⟨rfl, rfl⟩⟩
      | true => exact absurd ⟨mt refused_iff.mpr hrefused, hspawns, hforwards⟩ h

/-- At this poll it is too late, and until then the child was alive and not ready. -/
def LateAt (args : SystemdExecArgs) (w : World args) (n : Nat) : Prop :=
  w.late n = true ∧ (∀ m ≤ n, w.tryWait m = .ok none ∧ satisfied args w m = false) ∧
    ∀ m < n, w.late m = false

theorem judge_ne_late (n : Nat) : judge args w n ≠ some .late := by
  rw [judge]
  cases w.tryWait n with
  | error e => simp
  | ok found =>
    cases found with
    | some status => simp
    | none => simp

theorem late_iff : awaitReady args w = .late ↔ ∃ n, LateAt args w n := by
  have hbudget : w.late (0 + 4 * args.timeout) = true := by
    rw [Nat.zero_add]
    exact w.budget
  rw [awaitReady, pollFrom_timeout_iff hbudget judge_ne_late]
  constructor
  · intro h
    obtain ⟨n, -, hn, hjudge, hbefore⟩ := h
    refine ⟨n, hn, fun m hm => ?_, fun m hm => (hbefore m m.zero_le hm).2⟩
    rcases Nat.lt_or_eq_of_le hm with hlt | rfl
    · exact judge_none.mp (hbefore m m.zero_le hlt).1
    · exact judge_none.mp hjudge
  · intro h
    obtain ⟨n, hn, hwaits, hbefore⟩ := h
    exact ⟨n, n.zero_le, hn, judge_none.mpr (hwaits n le_rfl), fun m _ hm =>
      ⟨judge_none.mpr (hwaits m hm.le), hbefore m hm⟩⟩

end Rules

/-- The contract of the supervisor. -/
structure Supervised (args : SystemdExecArgs) (w : World args) : Prop where
  /-- The unit is reported ready exactly where every declared condition came to hold in time, with
  the child alive until then. -/
  ready : (∃ states, .notified states ∈ (exec args w).2) ↔ Started args w ∧ ∃ n, ReadyAt args w n
  succeeds : (exec args w).1 = .ok () ↔
    (Started args w ∧ ∃ n, ReadyAt args w n) ∧ w.wait = .ok (some 0)
  /-- Without a condition a unit is never ready. -/
  undeclared : ¬Declared args → (∀ states, .notified states ∉ (exec args w).2) ∧
    (exec args w).1 ≠ .ok ()
  terminates : .signalled .term ∈ (exec args w).2 ↔ Started args w ∧ ∃ n, LateAt args w n
  kills : .signalled .kill ∈ (exec args w).2 ↔
    .signalled .term ∈ (exec args w).2 ∧ ¬EndsInGrace w
  /-- A child is left behind only where the system fails. -/
  reaps : .spawned ∈ (exec args w).2 → .reaped ∈ (exec args w).2 ∨ w.forwardsSignals = false ∨
    (∃ n, w.tryWait n = .error ()) ∨ w.wait = .error ()

section Contract
variable {args : SystemdExecArgs} {w : World args}

theorem undeclared_of_ready {n : Nat} (h : ¬Declared args) : ¬ReadyAt args w n :=
  fun hready => h (declared_of_satisfied hready.1)

theorem mem_terminate (e : Event) : e ∈ terminateSupervisedChild args w ↔
    e = .signalled .term ∨ e = .reaped ∨ e = .signalled .kill ∧ ¬EndsInGrace w := by
  rw [terminateSupervisedChild]
  by_cases h : EndsInGrace w
  · rw [if_pos (grace_iff.mpr h)]
    simp [h]
  · rw [if_neg (mt grace_iff.mp h)]
    simp only [List.mem_cons, List.not_mem_nil, or_false, h, not_false_eq_true, and_true]
    tauto

theorem exists_error_of_broken (h : awaitReady args w = .broken) : ∃ n, w.tryWait n = .error () := by
  obtain ⟨n, -, hn, -⟩ := (awaitReady_iff (by decide)).mp h
  refine ⟨n, ?_⟩
  rw [judge] at hn
  cases hwait : w.tryWait n with
  | error e => rfl
  | ok found =>
    rw [hwait] at hn
    cases found with
    | some status => cases hn
    | none =>
      dsimp only at hn
      split at hn <;> cases hn

/-- Every run of the supervisor, whatever the child and the host do, keeps the contract. -/
theorem exec_supervised (args : SystemdExecArgs) (w : World args) : Supervised args w := by
  by_cases hstarted : Started args w
  · have hready := @ready_iff args w
    have hlate := @late_iff args w
    have hrun := exec_started hstarted
    cases hverdict : awaitReady args w with
    | broken =>
      simp only [hverdict, reduceCtorEq, false_iff] at hready hlate hrun
      have herror := exists_error_of_broken hverdict
      constructor <;> simp [hrun, hready, hlate, herror]
    | exited =>
      simp only [hverdict, reduceCtorEq, false_iff] at hready hlate hrun
      constructor <;> simp [hrun, hready, hlate]
    | late =>
      simp only [hverdict, reduceCtorEq, false_iff, true_iff] at hready hlate hrun
      constructor <;> simp [hrun, hready, hlate, hstarted, mem_terminate]
    | ready =>
      simp only [hverdict, reduceCtorEq, false_iff, true_iff] at hready hlate hrun
      have hdeclared : Declared args := by
        obtain ⟨n, hn⟩ := hready
        exact declared_of_satisfied hn.1
      cases hwait : w.wait with
      | error e =>
        simp only [hwait] at hrun
        constructor <;> simp [hrun, hready, hlate, hstarted, hdeclared, hwait]
      | ok status =>
        simp only [hwait] at hrun
        constructor <;> simp [hrun, hready, hlate, hstarted, hdeclared, hwait]
  · obtain ⟨hcode, hevents⟩ := exec_not_started hstarted
    rcases hevents with hevents | ⟨hevents, hforwards⟩
    · constructor <;> simp [hcode, hevents, hstarted]
    · constructor <;> simp [hcode, hevents, hstarted, hforwards]

end Contract

end Shellflow.Supervisor
