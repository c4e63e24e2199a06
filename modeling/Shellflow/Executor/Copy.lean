import Shellflow.Text

/-! The copy step: its entries become transfers, and the transfers run one after another on every
host. -/
namespace Shellflow

inductive RunError
  | config
  | plan
  | transport
  | script
  | timeout
deriving DecidableEq, Repr

inductive HostOutcome
  | ok
  | skipped
  | failed (error : RunError)
  | timedOut
  | cancelled
deriving DecidableEq, Repr

/-- The first classified failure, in the order the hosts finished. -/
def stepErrorIfFailed (hosts : List (String × HostOutcome)) : Option RunError :=
  hosts.findSome? fun host =>
    match host.2 with
    | .failed error => some error
    | .timedOut => some .timeout
    | .ok | .skipped | .cancelled => none

/-- A group of files that travel in one invocation. -/
structure Transfer where
  srcs : List String
  dst : String
deriving DecidableEq, Repr

inductive Destination
  | file (parent base : String)
  | dir (itself : String)
deriving DecidableEq, Repr

namespace Destination

def parse (dst : String) : Destination :=
  if Str.endsWith dst "/" then
    let trimmed := String.ofList (dst.toList.rdropWhile (· == '/'))
    .dir (if trimmed = "" then "/" else trimmed)
  else
    match Str.rsplitOnceChar dst '/' with
    | some (parent, base) => if base ≠ "" then .file parent base else .file "/" dst
    | none => .file "/" dst

def directory : Destination → String
  | .file parent _ => parent
  | .dir itself => itself

end Destination

/-- The last component of a path. -/
def baseName (path : String) : String := ((Str.rsplitOnceChar path '/').map Prod.snd).getD path

/-- The transfers so far, and which of them collects the files of a directory. -/
structure Grouping where
  transfers : List Transfer
  byDir : List (String × Nat)

/-- A file that keeps its name travels with the others of its directory; a renamed file and a
directory travel alone. -/
def groupEntry (isDir : String → Bool) (g : Grouping) (entry : String × String) : Grouping :=
  let (src, dst) := entry
  let dest := Destination.parse dst
  let keepsItsName :=
    match dest with
    | .dir _ => !isDir src
    | .file _ base => baseName src == base
  if isDir src || !keepsItsName then { g with transfers := g.transfers ++ [⟨[src], dst⟩] }
  else
    match g.byDir.lookup dest.directory with
    | some i =>
      { g with transfers := g.transfers.modify i fun t => ⟨t.srcs ++ [src], dest.directory ++ "/"⟩ }
    | none =>
      ⟨g.transfers ++ [⟨[src], dst⟩], g.byDir ++ [(dest.directory, g.transfers.length)]⟩

def groupTransfers (isDir : String → Bool) (entries : List (String × String)) : List Transfer :=
  (entries.foldl (groupEntry isDir) ⟨[], []⟩).transfers

structure CopyOpts where
  delete : Bool
  excludes : List String

structure StepConfig where
  dryRun : Bool
  check : Bool
  allowUnfilteredCopy : Bool

inductive CopyFailureKind
  | timeout
  | transport
  | cancelled
deriving DecidableEq, Repr

def failureOutcome : CopyFailureKind → HostOutcome
  | .timeout => .timedOut
  | .transport => .failed .transport
  | .cancelled => .cancelled

/-- Whether a transfer was started on the host, and what the step makes of it. -/
structure HostTransfer where
  started : Bool
  outcome : HostOutcome
deriving DecidableEq, Repr

/-- Without rsync the fallback refuses what it cannot honour and does not preview. -/
def runRsyncHost (opts : CopyOpts) (config : StepConfig) (hasRsync : Bool)
    (result : Except CopyFailureKind Unit) : HostTransfer :=
  if !hasRsync && (opts.delete || !opts.excludes.isEmpty) && !config.allowUnfilteredCopy then
    ⟨false, .failed .config⟩
  else if !hasRsync && config.dryRun then ⟨false, .skipped⟩
  else
    match result with
    | .ok () => ⟨true, .ok⟩
    | .error kind => ⟨true, failureOutcome kind⟩

/-- The transfers that were started, and how the host ended. -/
structure HostRun where
  started : List Transfer
  outcome : HostOutcome

/-- One transfer after another, until one does not succeed. -/
def runTransfers : List (Transfer × HostTransfer) → HostRun
  | [] => ⟨[], .ok⟩
  | (t, run) :: rest =>
    let here := if run.started then [t] else []
    if run.outcome = .ok then
      let after := runTransfers rest
      ⟨here ++ after.started, after.outcome⟩
    else ⟨here, run.outcome⟩

/-- What one host brings to a copy step: whether it gets a fan-out slot, whether it has rsync, and
how each transfer ends there. -/
structure HostTask where
  hostAlias : String
  slot : Bool
  hasRsync : Bool
  result : Nat → Except CopyFailureKind Unit

/-- A copy step on one host. -/
structure CopyRun where
  transfers : List Transfer
  opts : CopyOpts
  config : StepConfig
  task : HostTask

namespace CopyRun

def attempts (r : CopyRun) : List (Transfer × HostTransfer) :=
  r.transfers.mapIdx fun i t => (t, runRsyncHost r.opts r.config r.task.hasRsync (r.task.result i))

/-- A host without a slot fails before its first transfer. -/
def run (r : CopyRun) : HostRun :=
  if r.task.slot then runTransfers r.attempts else ⟨[], .failed .transport⟩

end CopyRun

section Transfers

theorem runTransfers_outcome_ok {l : List (Transfer × HostTransfer)} :
    (runTransfers l).outcome = .ok ↔ ∀ p ∈ l, p.2.outcome = .ok := by
  induction l with
  | nil => simp [runTransfers]
  | cons p l ih =>
    obtain ⟨t, run⟩ := p
    rw [runTransfers, List.forall_mem_cons]
    by_cases hok : run.outcome = .ok
    · rw [if_pos hok, ih]
      exact (and_iff_right hok).symm
    · rw [if_neg hok]
      exact ⟨fun h => absurd h hok, fun h => absurd h.1 hok⟩

/-- A transfer is started when every one before it succeeded. -/
theorem mem_runTransfers_started {l : List (Transfer × HostTransfer)} {t : Transfer} :
    t ∈ (runTransfers l).started ↔ ∃ before run after, l = before ++ (t, run) :: after ∧
      run.started = true ∧ ∀ p ∈ before, p.2.outcome = .ok := by
  induction l with
  | nil => simp [runTransfers]
  | cons p l ih =>
    obtain ⟨u, first⟩ := p
    have hhere : t ∈ (if first.started then [u] else []) ↔ t = u ∧ first.started = true := by
      by_cases hs : first.started = true
      · simp [hs]
      · simp [hs]
    constructor
    · intro h
      rw [runTransfers] at h
      by_cases hok : first.outcome = .ok
      · rw [if_pos hok, List.mem_append, hhere] at h
        cases h with
        | inl h => exact ⟨[], first, l, by rw [h.1, List.nil_append], h.2, by simp⟩
        | inr h =>
          obtain ⟨before, run, after, hl, hs, hbefore⟩ := ih.mp h
          exact ⟨(u, first) :: before, run, after, by rw [hl, List.cons_append], hs,
            List.forall_mem_cons.mpr ⟨hok, hbefore⟩⟩
      · rw [if_neg hok, hhere] at h
        exact ⟨[], first, l, by rw [h.1, List.nil_append], h.2, by simp⟩
    · intro h
      obtain ⟨before, run, after, hl, hs, hbefore⟩ := h
      rw [runTransfers]
      cases before with
      | nil =>
        obtain ⟨hp, -⟩ := List.cons.inj hl
        obtain ⟨rfl, rfl⟩ := Prod.mk.inj hp
        by_cases hok : first.outcome = .ok
        · rw [if_pos hok, if_pos hs]
          exact List.mem_cons_self
        · rw [if_neg hok, if_pos hs]
          exact List.mem_singleton_self _
      | cons q before =>
        obtain ⟨hp, hl⟩ := List.cons.inj hl
        obtain ⟨hq, hbefore⟩ := List.forall_mem_cons.mp hbefore
        have hok : first.outcome = .ok := by rw [← hp] at hq; exact hq
        rw [if_pos hok]
        exact List.mem_append_right _ (ih.mpr ⟨before, run, after, hl, hs, hbefore⟩)

end Transfers
end Shellflow
