import Shellflow.Executor.Copy

/-! The managed work directory: which hosts a run remembers to clean up. -/
namespace Shellflow

/-- The staging directory, and the hosts that are to be cleaned up. -/
structure WorkdirGuard where
  path : String
  hosts : List String

namespace WorkdirGuard

/-- Whether a path is inside the staging directory. -/
def contains (path dst : String) : Bool := dst == path || Str.startsWith dst (path ++ "/")

def touch (guard : WorkdirGuard) (hostAlias : String) : WorkdirGuard :=
  if hostAlias ∈ guard.hosts then guard else { guard with hosts := guard.hosts ++ [hostAlias] }

end WorkdirGuard

/-- The step of a plan: a copy with its entries, unless a variable in them is unresolved, and with
its hosts in the order in which they finish; or another step with its result. -/
inductive StepRun
  | copy (entries : Option (List (String × String))) (isDir : String → Bool) (opts : CopyOpts)
      (tasks : List HostTask)
  | other (error : Option RunError) (outcome : Option (List (String × HostOutcome)))

/-- The state of a run: the guard of its work directory, the copies made on hosts, and the errors
that stop it or that it goes on after. -/
structure RunState where
  guard : Option WorkdirGuard
  copies : List CopyRun
  failFast : Option RunError
  firstError : Option RunError

namespace RunState

def new (workdir : Option String) : RunState :=
  ⟨workdir.map fun path => ⟨path, []⟩, [], none, none⟩

/-- A host is recorded after its last transfer, when all of them succeeded. -/
def copyOnHost (st : RunState) (r : CopyRun) : RunState :=
  let guard := st.guard.map fun guard =>
    if r.run.outcome = .ok && r.transfers.any fun t => WorkdirGuard.contains guard.path t.dst then
      guard.touch r.task.hostAlias
    else guard
  { st with guard := guard, copies := st.copies ++ [r] }

/-- The step's own error, or the first failure of its hosts; none stands for a step that broke
down. -/
def endStep (st : RunState) (continueOnError : Bool) (error : Option RunError)
    (outcome : Option (List (String × HostOutcome))) : RunState :=
  match error with
  | some error => { st with failFast := some error }
  | none =>
    match (match outcome with
      | none => some RunError.script
      | some hosts => stepErrorIfFailed hosts) with
    | none => st
    | some error =>
      { st with
        firstError := st.firstError.or (some error)
        failFast := if continueOnError then st.failFast else some error }

def copyRuns (config : StepConfig) (entries : List (String × String)) (isDir : String → Bool)
    (opts : CopyOpts) (tasks : List HostTask) : List CopyRun :=
  tasks.map fun task => ⟨groupTransfers isDir entries, opts, config, task⟩

def runStep (st : RunState) (config : StepConfig) (continueOnError : Bool) :
    StepRun → RunState
  | .copy none _ _ _ =>
    if config.dryRun || config.check then st.endStep continueOnError none (some [])
    else st.endStep continueOnError (some .plan) (some [])
  | .copy (some entries) isDir opts tasks =>
    if config.check then st.endStep continueOnError none (some [])
    else
      let runs := copyRuns config entries isDir opts tasks
      (runs.foldl copyOnHost st).endStep continueOnError none
        (some (runs.map fun r => (r.task.hostAlias, r.run.outcome)))
  | .other error outcome => st.endStep continueOnError error outcome

/-- The steps of a plan, each with whether the run is cancelled in front of it. -/
def executePlan (config : StepConfig) (continueOnError : Bool) :
    List (Bool × StepRun) → RunState → RunState
  | [], st => st
  | (cancelled, step) :: rest, st =>
    if st.failFast.isSome || cancelled then st
    else executePlan config continueOnError rest (st.runStep config continueOnError step)

/-- Every host that had a transfer into the work directory is recorded. -/
def Covered (st : RunState) : Prop :=
  ∀ guard ∈ st.guard, ∀ r ∈ st.copies,
    (∃ t ∈ r.run.started, WorkdirGuard.contains guard.path t.dst = true) →
      r.task.hostAlias ∈ guard.hosts

instance (st : RunState) : Decidable st.Covered :=
  inferInstanceAs (Decidable (∀ guard ∈ st.guard, ∀ r ∈ st.copies,
    (∃ t ∈ r.run.started, WorkdirGuard.contains guard.path t.dst = true) →
      r.task.hostAlias ∈ guard.hosts))

end RunState

namespace CopyRun

/-- The transfers up to one into the work directory succeed, and that one is started. -/
def StartsInto (r : CopyRun) (path : String) : Prop :=
  r.task.slot = true ∧ ∃ before t run after, r.attempts = before ++ (t, run) :: after ∧
    WorkdirGuard.contains path t.dst = true ∧ run.started = true ∧
      ∀ p ∈ before, p.2.outcome = .ok

/-- All transfers succeed, and one goes into the work directory. -/
def Completes (r : CopyRun) (path : String) : Prop :=
  r.task.slot = true ∧ (∃ t ∈ r.transfers, WorkdirGuard.contains path t.dst = true) ∧
    ∀ p ∈ r.attempts, p.2.outcome = .ok

theorem startsInto_iff (r : CopyRun) (path : String) :
    r.StartsInto path ↔ ∃ t ∈ r.run.started, WorkdirGuard.contains path t.dst = true := by
  unfold StartsInto run
  by_cases hslot : r.task.slot = true
  · rw [if_pos hslot]
    constructor
    · intro h
      obtain ⟨-, before, t, run, after, hsplit, hinto, hstarted, hbefore⟩ := h
      exact ⟨t, mem_runTransfers_started.mpr ⟨before, run, after, hsplit, hstarted, hbefore⟩, hinto⟩
    · intro h
      obtain ⟨t, ht, hinto⟩ := h
      obtain ⟨before, run, after, hsplit, hstarted, hbefore⟩ := mem_runTransfers_started.mp ht
      exact ⟨hslot, before, t, run, after, hsplit, hinto, hstarted, hbefore⟩
  · rw [if_neg hslot]
    exact ⟨fun h => absurd h.1 hslot, fun h => by simp at h⟩

theorem completes_iff (r : CopyRun) (path : String) :
    r.Completes path ↔ (r.run.outcome = .ok &&
      r.transfers.any fun t => WorkdirGuard.contains path t.dst) = true := by
  unfold Completes run
  rw [Bool.and_eq_true, List.any_eq_true, decide_eq_true_iff]
  by_cases hslot : r.task.slot = true
  · rw [if_pos hslot, runTransfers_outcome_ok, and_iff_right hslot, and_comm]
  · rw [if_neg hslot]
    exact ⟨fun h => absurd h.1 hslot, fun h => by cases h.1⟩

end CopyRun
namespace RunState

/-- The recorded hosts are those that completed a copy into the work directory. -/
def Records (path : String) (st : RunState) : Prop :=
  ∃ guard, st.guard = some guard ∧ guard.path = path ∧ ∀ hostAlias,
    hostAlias ∈ guard.hosts ↔ ∃ r ∈ st.copies, r.task.hostAlias = hostAlias ∧ r.Completes path

theorem mem_touch (guard : WorkdirGuard) (touched hostAlias : String) :
    hostAlias ∈ (guard.touch touched).hosts ↔ hostAlias ∈ guard.hosts ∨ touched = hostAlias := by
  unfold WorkdirGuard.touch
  by_cases hmem : touched ∈ guard.hosts
  · rw [if_pos hmem]
    exact ⟨Or.inl, fun h => h.elim id fun h => h ▸ hmem⟩
  · rw [if_neg hmem]
    simp only [List.mem_append, List.mem_singleton]
    exact or_congr_right eq_comm

theorem records_copyOnHost {path : String} {st : RunState} (h : st.Records path) (r : CopyRun) :
    (st.copyOnHost r).Records path := by
  obtain ⟨guard, hguard, rfl, hhosts⟩ := h
  have hcopies : (st.copyOnHost r).copies = st.copies ++ [r] := rfl
  have hafter : (st.copyOnHost r).guard = st.guard.map _ := rfl
  rw [hguard, Option.map_some] at hafter
  have hsplit : ∀ hostAlias, (∃ r' ∈ st.copies ++ [r], r'.task.hostAlias = hostAlias ∧
      r'.Completes guard.path) ↔
        (∃ r' ∈ st.copies, r'.task.hostAlias = hostAlias ∧ r'.Completes guard.path) ∨
          (r.task.hostAlias = hostAlias ∧ r.Completes guard.path) := fun hostAlias => by
    simp only [List.mem_append, List.mem_singleton, or_and_right, exists_or, exists_eq_left]
  by_cases hcomplete : r.Completes guard.path
  · rw [if_pos ((r.completes_iff guard.path).mp hcomplete)] at hafter
    refine ⟨_, hafter, ?_, fun hostAlias => ?_⟩
    · unfold WorkdirGuard.touch
      split <;> rfl
    · rw [mem_touch, hcopies, hsplit, hhosts]
      exact or_congr_right (and_iff_left hcomplete).symm
  · rw [if_neg fun h => hcomplete ((r.completes_iff guard.path).mpr h)] at hafter
    refine ⟨guard, hafter, rfl, fun hostAlias => ?_⟩
    rw [hcopies, hsplit, hhosts]
    exact ⟨Or.inl, fun h => h.elim id fun h => absurd h.2 hcomplete⟩

theorem records_foldl {path : String} (runs : List CopyRun) {st : RunState}
    (h : st.Records path) : (runs.foldl copyOnHost st).Records path := by
  induction runs generalizing st with
  | nil => exact h
  | cons r runs ih => exact ih (records_copyOnHost h r)

/-- The end of a step changes the errors only. -/
theorem endStep_keeps (st : RunState) (continueOnError : Bool) (error : Option RunError)
    (outcome : Option (List (String × HostOutcome))) :
    (st.endStep continueOnError error outcome).guard = st.guard ∧
      (st.endStep continueOnError error outcome).copies = st.copies := by
  unfold endStep
  cases error with
  | some error => exact ⟨rfl, rfl⟩
  | none =>
    dsimp only
    split
    · exact ⟨rfl, rfl⟩
    · exact ⟨rfl, rfl⟩

theorem records_endStep {path : String} {st : RunState} (h : st.Records path)
    (continueOnError : Bool) (error : Option RunError)
    (outcome : Option (List (String × HostOutcome))) :
    (st.endStep continueOnError error outcome).Records path := by
  obtain ⟨hguard, hcopies⟩ := endStep_keeps st continueOnError error outcome
  unfold Records
  rw [hguard, hcopies]
  exact h

theorem records_runStep {path : String} {st : RunState} (h : st.Records path)
    (config : StepConfig) (continueOnError : Bool) (step : StepRun) :
    (st.runStep config continueOnError step).Records path := by
  unfold runStep
  cases step with
  | other error outcome => exact records_endStep h continueOnError error outcome
  | copy entries isDir opts tasks =>
    cases entries with
    | none =>
      dsimp only
      split
      · exact records_endStep h continueOnError _ _
      · exact records_endStep h continueOnError _ _
    | some entries =>
      dsimp only
      split
      · exact records_endStep h continueOnError _ _
      · exact records_endStep (records_foldl _ h) continueOnError _ _

theorem records_executePlan {path : String} (config : StepConfig) (continueOnError : Bool)
    (steps : List (Bool × StepRun)) {st : RunState} (h : st.Records path) :
    (executePlan config continueOnError steps st).Records path := by
  induction steps generalizing st with
  | nil => exact h
  | cons first rest ih =>
    unfold executePlan
    split
    · exact h
    · exact ih (records_runStep h config continueOnError first.2)

theorem records_new (path : String) : (new (some path)).Records path :=
  ⟨⟨path, []⟩, rfl, rfl, fun hostAlias => by simp [new]⟩

/-- When a run ends, the hosts it started to copy into the work directory on are all recorded,
exactly when each of them completed such a copy. -/
theorem executePlan_covered_iff (config : StepConfig) (continueOnError : Bool) (path : String)
    (steps : List (Bool × StepRun)) :
    (executePlan config continueOnError steps (.new (some path))).Covered ↔
      ∀ r ∈ (executePlan config continueOnError steps (.new (some path))).copies,
        r.StartsInto path →
          ∃ r' ∈ (executePlan config continueOnError steps (.new (some path))).copies,
            r'.task.hostAlias = r.task.hostAlias ∧ r'.Completes path := by
  obtain ⟨guard, hguard, rfl, hhosts⟩ :=
    records_executePlan config continueOnError steps (records_new path)
  unfold Covered
  constructor
  · intro h r hr hstarts
    exact (hhosts r.task.hostAlias).mp
      (h guard hguard r hr ((r.startsInto_iff guard.path).mp hstarts))
  · intro h other hother r hr hstarted
    rw [hguard, Option.mem_some_iff] at hother
    subst hother
    exact (hhosts r.task.hostAlias).mpr (h r hr ((r.startsInto_iff guard.path).mpr hstarted))

/-- One file for the work directory, on a host where the transfer times out. -/
def timedOutCopy : StepRun :=
  .copy (some [("app.conf", "/tmp/app-1/app.conf")]) (fun _ => false) ⟨false, []⟩
    [⟨"web", true, true, fun _ => .error .timeout⟩]

theorem executePlan_misses_a_host : ¬ ∀ config continueOnError path steps,
    (executePlan config continueOnError steps (.new (some path))).Covered := by
  intro hall
  have hcovered := hall ⟨false, false, false⟩ false "/tmp/app-1" [(false, timedOutCopy)]
  revert hcovered
  decide +kernel

end RunState
end Shellflow
