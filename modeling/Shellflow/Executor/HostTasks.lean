import Shellflow.Dsl.Resolve
import Shellflow.Executor.Copy
import Shellflow.Lib.FanOut

/-! One step on many hosts: a task for each of them, and `--parallel` of the tasks at once. -/
namespace Shellflow.HostTasks
open FanOut

/-- What the task of a host comes to. -/
inductive Joined
  | host (name : String) (outcome : HostOutcome)
  | panicked
deriving DecidableEq

/-- The work of a step on a host: its outcome, and the outcomes that an interrupt may leave in its
place. Some steps look for the interrupt as soon as they have their slot. -/
structure HostCommand where
  looksFirst : Bool
  outcome : ResolvedHost → HostOutcome
  interruptedAs : ResolvedHost → HostOutcome → Bool
  panics : ResolvedHost → Bool

def HostCommand.ends (c : HostCommand) (host : ResolvedHost) (late now : Bool) : Joined → Bool
  | .panicked => c.panics host
  | .host name outcome =>
    name == host.hostAlias &&
      if c.looksFirst && late then outcome == .cancelled
      else outcome == c.outcome host || (now && c.interruptedAs host outcome)

/-- The entry of a task in the step's results. -/
def entry : Joined → String × HostOutcome
  | .host name outcome => (name, outcome)
  | .panicked => ("unknown", .failed .transport)

def collectHosts (joined : List Joined) : List (String × HostOutcome) := joined.map entry

/-- `--parallel` zero means no limit. -/
def fanoutSlots (parallel : Nat) : Option Nat := if parallel = 0 then none else some parallel

/-- The tasks of a step after these moves. -/
def fanOut (c : HostCommand) (parallel : Nat) (hosts : List ResolvedHost) (acts : List (Act Joined)) :
    Option (Fan ResolvedHost Joined) :=
  Runs.exec (step c.ends) (start (fanoutSlots parallel) hosts) acts

/-- The entry that a host may have. -/
def Reported (c : HostCommand) (interrupted : Bool) (host : ResolvedHost)
    (reported : String × HostOutcome) : Prop :=
  reported = (host.hostAlias, c.outcome host) ∨
    (c.panics host = true ∧ reported = ("unknown", .failed .transport)) ∨
    (interrupted = true ∧ reported.1 = host.hostAlias ∧
      (c.looksFirst = true ∧ reported.2 = .cancelled ∨ c.interruptedAs host reported.2 = true))

/-- The error of a host's outcome. -/
def errorOf : HostOutcome → Option RunError
  | .failed error => some error
  | .timedOut => some .timeout
  | .ok | .skipped | .cancelled => none

section Ends
variable {c : HostCommand} {host : ResolvedHost} {parallel : Nat} {hosts : List ResolvedHost}
  {acts : List (Act Joined)} {f : Fan ResolvedHost Joined}

theorem fanoutSlots_ne (parallel : Nat) : fanoutSlots parallel ≠ some 0 := by
  rw [fanoutSlots]
  split
  · exact (Option.some_ne_none 0).symm
  · next h => exact fun heq => h (Option.some.inj heq)

theorem canEnd (c : HostCommand) : CanEnd c.ends := by
  intro host late now
  by_cases hlate : (c.looksFirst && late) = true
  · exact ⟨.host host.hostAlias .cancelled, by simp [HostCommand.ends, hlate]⟩
  · exact ⟨.host host.hostAlias (c.outcome host), by simp [HostCommand.ends, hlate]⟩

theorem reported_of_came {interrupted : Bool} {joined : Joined}
    (h : Came c.ends interrupted host joined) : Reported c interrupted host (entry joined) := by
  obtain ⟨late, now, hlate, hnow, hends⟩ := h
  cases joined with
  | panicked => exact .inr (.inl ⟨hends, rfl⟩)
  | host name outcome =>
    simp only [HostCommand.ends, Bool.and_eq_true, beq_iff_eq] at hends
    obtain ⟨rfl, hends⟩ := hends
    split at hends
    next hcond =>
      exact .inr (.inr ⟨hnow (hlate hcond.2), rfl, .inl ⟨hcond.1, beq_iff_eq.mp hends⟩⟩)
    next =>
      rcases Bool.or_eq_true_iff.mp hends with hends | hends
      · rw [beq_iff_eq.mp hends]
        exact .inl rfl
      · obtain ⟨hflag, hends⟩ := Bool.and_eq_true_iff.mp hends
        exact .inr (.inr ⟨hnow hflag, rfl, .inr hends⟩)

/-- A host whose task had no slot when the interrupt came. -/
theorem cancelled_of_late {joined : Joined} (hlooks : c.looksFirst = true)
    (hpanics : c.panics host = false) (h : c.ends host true true joined = true) :
    entry joined = (host.hostAlias, .cancelled) := by
  cases joined with
  | panicked =>
    rw [HostCommand.ends, hpanics] at h
    cases h
  | host name outcome =>
    simp only [HostCommand.ends, hlooks, Bool.and_self, if_true, Bool.and_eq_true, beq_iff_eq] at h
    rw [entry, h.1, h.2]

theorem fanOut_holds (hrun : fanOut c parallel hosts acts = some f) : f.Holds (fanoutSlots parallel) :=
  holds_run holds_start hrun

theorem fanOut_accounts (hrun : fanOut c parallel hosts acts = some f) : f.Accounts c.ends hosts :=
  accounts_run accounts_start hrun

theorem reports_of_finished (hrun : fanOut c parallel hosts acts = some f) (hdone : f.Finished) :
    ∃ reports, (collectHosts f.results).Perm reports ∧
      List.Forall₂ (Reported c f.interrupted) hosts reports := by
  obtain ⟨joined, hperm, hcame⟩ := results_of_finished (fanOut_accounts hrun) hdone
  exact ⟨joined.map entry, hperm.map entry,
    List.forall₂_map_right_iff.mpr (hcame.imp fun _ _ => reported_of_came)⟩

/-- A host that waited for its slot when the interrupt came is cancelled, and its command never
starts. -/
theorem cancelled_of_waiting {pre post : List (Act Joined)} {g : Fan ResolvedHost Joined}
    (hlooks : c.looksFirst = true) (hpanics : c.panics host = false)
    (hpre : fanOut c parallel hosts pre = some g) (hwaiting : .waiting host ∈ g.tasks)
    (hrun : fanOut c parallel hosts (pre ++ .interrupt :: post) = some f) (hdone : f.Finished) :
    (host.hostAlias, .cancelled) ∈ collectHosts f.results := by
  obtain ⟨g', hpre', hpost⟩ := Runs.exec_append.mp hrun
  have hsame : g' = g := Option.some.inj (hpre'.symm.trans hpre)
  subst hsame
  obtain ⟨mid, hinterrupt, hpost⟩ := Runs.exec_cons.mp hpost
  cases effect_of_step hinterrupt with
  | interrupt hfresh =>
    have hlate := late_run rfl hpost
    obtain ⟨t, ht, hstate⟩ := exists_late hlate hwaiting
    have hresult := hdone t ht
    cases t with
    | collected joined =>
      rw [← cancelled_of_late hlooks hpanics hstate]
      refine List.mem_map.mpr ⟨joined, ?_, rfl⟩
      exact (fanOut_accounts hrun).results.mem_iff.mpr (List.mem_filterMap.mpr ⟨_, ht, rfl⟩)
    | waiting | running | ended => cases hresult

/-- Every interleaving of the tasks of a step: the limit holds, nothing hangs, and each host is
reported once; what had no slot at the interrupt never starts. -/
theorem hosts_any_order (c : HostCommand) (parallel : Nat) (hosts : List ResolvedHost)
    (acts : List (Act Joined)) (f : Fan ResolvedHost Joined)
    (hrun : fanOut c parallel hosts acts = some f) :
    (0 < parallel → f.running ≤ parallel) ∧
      (¬f.Finished → ∃ a f', step c.ends f a = some f' ∧ f'.interrupted = f.interrupted) ∧
      (f.Finished → acts.length = 3 * hosts.length + f.interrupted.toNat ∧
        ∃ reports, (collectHosts f.results).Perm reports ∧
          List.Forall₂ (Reported c f.interrupted) hosts reports) ∧
      ∀ pre post g host, acts = pre ++ .interrupt :: post → fanOut c parallel hosts pre = some g →
        .waiting host ∈ g.tasks → c.looksFirst = true → c.panics host = false → f.Finished →
          (host.hostAlias, .cancelled) ∈ collectHosts f.results := by
  refine ⟨fun hlimit => ?_, fun hnot => ?_, fun hdone => ⟨?_, ?_⟩, ?_⟩
  · have hslots : fanoutSlots parallel = some parallel := if_neg hlimit.ne'
    exact running_le (hslots ▸ fanOut_holds hrun)
  · exact exists_step (fanoutSlots_ne parallel) (canEnd c) (fanOut_holds hrun) hnot
  · exact length_of_finished hrun hdone
  · exact reports_of_finished hrun hdone
  · intro pre post g host hacts hpre hwaiting hlooks hpanics hdone
    rw [hacts] at hrun
    exact cancelled_of_waiting hlooks hpanics hpre hwaiting hrun hdone

/-- Two hosts, the second of which takes too long. -/
def twoHosts : List ResolvedHost := [⟨"a", ⟨none, "h1", none⟩⟩, ⟨"b", ⟨none, "h2", none⟩⟩]

/-- A step whose script fails on one host and times out on the other. -/
def mixedCommand : HostCommand where
  looksFirst := true
  outcome host := if host.hostAlias = "a" then .failed .script else .timedOut
  interruptedAs _ outcome := outcome = .cancelled
  panics _ := false

/-- One slot, and an interrupt while the first host has it. -/
def interruptedActs : List (Act Joined) :=
  [.acquire 0, .interrupt, .finish 0 (.host "a" .cancelled), .acquire 1,
    .finish 1 (.host "b" .cancelled), .collect 1, .collect 0]

def interruptedFan : Fan ResolvedHost Joined :=
  ⟨[.collected (.host "a" .cancelled), .collected (.host "b" .cancelled)], some 1, true,
    [.host "b" .cancelled, .host "a" .cancelled]⟩

theorem hosts_any_order_interrupted :
    (0 < 1 → interruptedFan.running ≤ 1) ∧
      (¬interruptedFan.Finished → ∃ a f', step mixedCommand.ends interruptedFan a = some f' ∧
        f'.interrupted = interruptedFan.interrupted) ∧
      (interruptedFan.Finished →
        interruptedActs.length = 3 * twoHosts.length + interruptedFan.interrupted.toNat ∧
        ∃ reports, (collectHosts interruptedFan.results).Perm reports ∧
          List.Forall₂ (Reported mixedCommand interruptedFan.interrupted) twoHosts reports) ∧
      ∀ pre post g host, interruptedActs = pre ++ .interrupt :: post →
        fanOut mixedCommand 1 twoHosts pre = some g → .waiting host ∈ g.tasks →
          mixedCommand.looksFirst = true → mixedCommand.panics host = false →
            interruptedFan.Finished →
              (host.hostAlias, .cancelled) ∈ collectHosts interruptedFan.results :=
  hosts_any_order mixedCommand 1 twoHosts interruptedActs interruptedFan (by decide)

end Ends

section Errors
variable {c : HostCommand} {parallel : Nat} {hosts : List ResolvedHost}
  {acts : List (Act Joined)} {f : Fan ResolvedHost Joined}

theorem stepErrorIfFailed_eq (entries : List (String × HostOutcome)) :
    stepErrorIfFailed entries = entries.findSome? fun e => errorOf e.2 := by
  rw [stepErrorIfFailed]
  congr 1

/-- Without an interrupt every host is reported with its own outcome. -/
theorem report_eq {reports : List (String × HostOutcome)} (hpanics : ∀ host, c.panics host = false)
    (h : List.Forall₂ (Reported c false) hosts reports) :
    reports = hosts.map fun host => (host.hostAlias, c.outcome host) := by
  induction h with
  | nil => rfl
  | @cons host reported hosts reports hhost _ ih =>
    rcases hhost with rfl | ⟨hpanic, -⟩ | ⟨hflag, -⟩
    · rw [ih, List.map_cons]
    · rw [hpanics host] at hpanic
      cases hpanic
    · cases hflag

theorem mem_collected (hpanics : ∀ host, c.panics host = false)
    (hrun : fanOut c parallel hosts acts = some f) (hdone : f.Finished) (hflag : f.interrupted = false)
    (e : String × HostOutcome) :
    e ∈ collectHosts f.results ↔ ∃ host ∈ hosts, (host.hostAlias, c.outcome host) = e := by
  obtain ⟨reports, hperm, hreports⟩ := reports_of_finished hrun hdone
  rw [hflag] at hreports
  rw [hperm.mem_iff, report_eq hpanics hreports, List.mem_map]

/-- A run in which this host is the first to be collected. -/
theorem exists_first (hpanics : ∀ host, c.panics host = false) {host : ResolvedHost}
    (hhost : host ∈ hosts) (parallel : Nat) :
    ∃ acts f rest, fanOut c parallel hosts acts = some f ∧ f.Finished ∧ f.interrupted = false ∧
      collectHosts f.results = (host.hostAlias, c.outcome host) :: rest := by
  have hends : c.ends host false false (.host host.hostAlias (c.outcome host)) = true := by
    simp [HostCommand.ends]
  obtain ⟨acts, f, rest, hrun, hdone, hflag, hresults⟩ :=
    FanOut.exists_first (fanoutSlots_ne parallel) (canEnd c) hhost hends
  refine ⟨acts, f, collectHosts rest, hrun, hdone, hflag, ?_⟩
  rw [hresults]
  rfl

/-- The errors that a step can end with, whatever the order of its tasks: none where no host
failed, and else the error of any host that did, as that host may be the first. -/
theorem stepError_iff (c : HostCommand) (parallel : Nat) (hosts : List ResolvedHost)
    (error : Option RunError) (hpanics : ∀ host, c.panics host = false) :
    (∃ acts f, fanOut c parallel hosts acts = some f ∧ f.Finished ∧ f.interrupted = false ∧
        stepErrorIfFailed (collectHosts f.results) = error) ↔
      (error = none ∧ ∀ host ∈ hosts, errorOf (c.outcome host) = none) ∨
        (error ≠ none ∧ ∃ host ∈ hosts, errorOf (c.outcome host) = error) := by
  constructor
  · intro h
    obtain ⟨acts, f, hrun, hdone, hflag, herror⟩ := h
    have hmem := mem_collected hpanics hrun hdone hflag
    rw [stepErrorIfFailed_eq] at herror
    cases error with
    | none =>
      refine .inl ⟨rfl, fun host hhost => ?_⟩
      exact List.findSome?_eq_none_iff.mp herror _ ((hmem _).mpr ⟨host, hhost, rfl⟩)
    | some e =>
      obtain ⟨found, hfound, he⟩ := List.exists_of_findSome?_eq_some herror
      obtain ⟨host, hhost, rfl⟩ := (hmem found).mp hfound
      exact .inr ⟨Option.some_ne_none e, host, hhost, he⟩
  · intro h
    rcases h with ⟨rfl, hnone⟩ | ⟨hne, host, hhost, herror⟩
    · have hstart : (start (fanoutSlots parallel) hosts : Fan ResolvedHost Joined).Holds
          (fanoutSlots parallel) := holds_start
      obtain ⟨acts, f, hrun, hdone, hflag, -⟩ :=
        exists_completion (fanoutSlots_ne parallel) (canEnd c) hstart
      refine ⟨acts, f, hrun, hdone, hflag, ?_⟩
      rw [stepErrorIfFailed_eq]
      refine List.findSome?_eq_none_iff.mpr fun e he => ?_
      obtain ⟨host, hhost, rfl⟩ := (mem_collected hpanics hrun hdone hflag e).mp he
      exact hnone host hhost
    · obtain ⟨acts, f, rest, hrun, hdone, hflag, hresults⟩ := exists_first hpanics hhost parallel
      refine ⟨acts, f, hrun, hdone, hflag, ?_⟩
      obtain ⟨e, rfl⟩ := Option.ne_none_iff_exists'.mp hne
      rw [stepErrorIfFailed_eq, hresults]
      rw [List.findSome?_cons_of_isSome (by rw [herror]; rfl), herror]

/-- The same step of the same hosts ends in two ways. -/
theorem stepError_iff_mixed :
    (∃ acts f, fanOut mixedCommand 1 twoHosts acts = some f ∧ f.Finished ∧ f.interrupted = false ∧
        stepErrorIfFailed (collectHosts f.results) = some .script) ∧
      ∃ acts f, fanOut mixedCommand 1 twoHosts acts = some f ∧ f.Finished ∧ f.interrupted = false ∧
        stepErrorIfFailed (collectHosts f.results) = some .timeout :=
  ⟨(stepError_iff mixedCommand 1 twoHosts (some .script) fun _ => rfl).mpr (.inr (by decide)),
    (stepError_iff mixedCommand 1 twoHosts (some .timeout) fun _ => rfl).mpr (.inr (by decide))⟩

end Errors

end Shellflow.HostTasks
