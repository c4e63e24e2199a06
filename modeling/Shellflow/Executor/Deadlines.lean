import Shellflow.Executor.CheckBudget
import Shellflow.Executor.Copy

/-! The sums and the deadlines that the executor forms from the timeout of a step. What the tokio
timers are given directly is not here: they check the addition themselves. -/
namespace Shellflow.Deadlines

/-- A sum of machine words, from the left, or a deadline that many seconds from now. -/
inductive Arith where
  | sum (terms : List UInt64)
  | deadline (secs : UInt64)
deriving DecidableEq, Repr

/-- The monotonic clock of the controller: the second of every reading, and the last second that an
instant can represent. -/
structure Clock where
  now : Nat → Nat
  latest : Nat

/-- The deadline can be represented at whatever moment it is formed. -/
def Clock.Reaches (clock : Clock) (secs : Nat) : Prop := ∀ k, clock.now k + secs ≤ clock.latest

/-- The sum stays within a machine word (so do the partial ones), and so does the instant within the
clock; the addition panics or wraps around otherwise. -/
def Arith.Fits (clock : Clock) : Arith → Prop
  | sum terms => (terms.map UInt64.toNat).sum < UInt64.size
  | deadline secs => clock.Reaches secs.toNat

structure RunFlags where
  dryRun : Bool
  diff : Bool
  check : Bool
  runsLocally : Bool
  timeout : Option UInt64

/-- The settings of a step that decide on its deadlines. -/
structure StepConfig where
  dryRun : Bool
  check : Bool
  runsLocally : Bool
  timeout : Option UInt64

def StepConfig.new (flags : RunFlags) (timeout : Option UInt64) : StepConfig :=
  ⟨flags.dryRun || flags.diff, flags.check, flags.runsLocally, timeout⟩

/-- `@timeout`, or the flag of the directive; the parser admits machine words only. -/
def stepTimeout : Step → Option Nat
  | .localBlock s => s.timeout
  | .remote s => s.timeout
  | .copy s => s.timeout
  | .wait s => s.timeout
  | .reload s => s.timeout
  | .assert s => s.timeout
  | .service s => s.timeout
  | .install s => s.timeout
  | .backup s => s.timeout
  | .credstore s => s.timeout
  | .unitInventory s => s.timeout
  | .helper s => s.timeout
  | .release s => s.timeout
  | .build s => s.timeout
  | .toolchain s => s.timeout
  | .image s => s.timeout

/-- What carries a command to its host. -/
inductive Carrier where
  | ssh
  | muxy
deriving DecidableEq, Repr

/-- What a transfer runs with; without rsync it may be refused. -/
inductive Tool where
  | rsync
  | scp
  | refused
deriving DecidableEq, Repr

/-- What a run meets on the way to a host. -/
structure Route where
  carrier : Carrier
  tool : Tool
  isDir : String → Bool

section Functions

/-- `run_piped_child`: one deadline for the payload and the wait. -/
def runPipedChild (timeout : Option UInt64) : List Arith := timeout.toList.map .deadline

/-- `wait_child`: a deadline for the wait. -/
def waitChild (timeout : Option UInt64) : List Arith := timeout.toList.map .deadline

/-- The deadline of the loop that follows a muxy session. -/
def sessionLoop (timeout : Option UInt64) : List Arith := timeout.toList.map .deadline

def carried (carrier : Carrier) (timeout : Option UInt64) : List Arith :=
  match carrier with
  | .ssh => runPipedChild timeout
  | .muxy => sessionLoop timeout

/-- The helper enforces its own budget; the transport gets a little more. -/
def helperMarginSecs : UInt64 := 30

def defaultCommandSecs : UInt64 := 300

def defaultWaitSecs : UInt64 := 300

def defaultReloadSecs : UInt64 := 120

variable (config : StepConfig) (route : Route)

def StepConfig.isNoOp : Bool := config.check || config.dryRun

/-- A command with a budget of its own on the target. -/
def budgeted (secs : UInt64) : List Arith :=
  if config.isNoOp then []
  else .sum [secs, helperMarginSecs] :: carried route.carrier (some (secs + helperMarginSecs))

def runTargetCommand : List Arith :=
  budgeted config route (config.timeout.getD defaultCommandSecs)

def runWaitStep : List Arith := budgeted config route (config.timeout.getD defaultWaitSecs)

def runReloadStep (timeout : Option UInt64) : List Arith :=
  budgeted config route (timeout.getD defaultReloadSecs)

/-- The sum of the checks, and the watchdog of their batch. -/
def runAssertStep (checks : List Assertion) : List Arith :=
  if config.isNoOp then []
  else
    [.sum (checks.map (fun check => checkBudget check config.timeout) ++ [transportMarginSecs]),
      .deadline (waitBudget checks config.timeout)]

/-- A guard is only evaluated by a real run. -/
def evaluateGuard (guarded : Bool) : List Arith :=
  if guarded && !config.isNoOp then runPipedChild config.timeout else []

/-- The syntax check of a local block has a bound of its own. -/
def runLocalBlock : List Arith := if config.isNoOp then [] else runPipedChild config.timeout

def runLocalStep (guarded : Bool) : List Arith := evaluateGuard config guarded ++ runLocalBlock config

def runSyntaxCheck : List Arith := runPipedChild config.timeout

/-- The syntax check over muxy clamps the timeout to what its request can carry. -/
def runRemoteStep (guarded : Bool) : List Arith :=
  if config.runsLocally then evaluateGuard config guarded ++ runLocalBlock config
  else if config.dryRun then runSyntaxCheck config
  else if config.check then
    match route.carrier with
    | .muxy => []
    | .ssh => runSyntaxCheck config
  else carried route.carrier config.timeout

def splitTimeout : Option UInt64 → Option UInt64 × Option UInt64
  | none => (none, none)
  | some secs =>
    let first := min (max (secs / 2) 1) secs
    (some first, some (max (secs - first) 1))

/-- The two phases of the fallback, one after the other. -/
def runScpTransfer : List Arith :=
  let (mkdir, scp) := splitTimeout config.timeout
  waitChild mkdir ++ runPipedChild scp

/-- rsync previews a dry run; the fallback cannot. -/
def runRsyncHost : List Arith :=
  match route.tool with
  | .rsync => runPipedChild config.timeout
  | .scp => if config.dryRun then [] else runScpTransfer config
  | .refused => []

def runCopyStep (copy : CopyStep) : List Arith :=
  let entries := copy.entries.map fun entry => (entry.src, entry.dst)
  if config.runsLocally then
    entries.flatMap fun _ => if config.isNoOp then [] else waitChild config.timeout
  else if config.check then []
  else (groupTransfers route.isDir entries).flatMap fun _ => runRsyncHost config route

/-- What a step forms; the children of a `@helper` step are bounded by a tokio timer. -/
def runSingleStep (flags : RunFlags) (route : Route) (step : Step) : List Arith :=
  let config := StepConfig.new flags (((stepTimeout step).map UInt64.ofNat).or flags.timeout)
  match step with
  | .localBlock s => runLocalStep config s.guard.isSome
  | .remote s => runRemoteStep config route s.guard.isSome
  | .copy s => runCopyStep config route s
  | .wait _ => runWaitStep config route
  | .reload s => runReloadStep config route (s.timeout.map UInt64.ofNat)
  | .assert s => runAssertStep config s.checks
  | .helper _ => []
  | _ => runTargetCommand config route

end Functions

/-- The most seconds a step adds to the time of day, on whatever way it takes. -/
def longestDeadline (flags : RunFlags) (step : Step) : Option Nat :=
  let timeout := ((stepTimeout step).map UInt64.ofNat).or flags.timeout
  let noOp := flags.check || (flags.dryRun || flags.diff)
  match step with
  | .localBlock _ => if noOp then none else timeout.map UInt64.toNat
  | .remote _ => if flags.runsLocally && noOp then none else timeout.map UInt64.toNat
  | .copy _ =>
    if flags.check || (flags.runsLocally && noOp) then none
    else if flags.runsLocally || (flags.dryRun || flags.diff) then timeout.map UInt64.toNat
    -- both phases of the fallback take a second at least
    else timeout.map fun secs => max secs.toNat 1
  | .helper _ => none
  | .wait _ => if noOp then none else some ((timeout.getD defaultWaitSecs).toNat + 30)
  | .reload s =>
    if noOp then none
    else some (((s.timeout.map UInt64.ofNat).getD defaultReloadSecs).toNat + 30)
  | .assert s =>
    if noOp then none
    else some ((s.checks.map fun check => (checkBudget check timeout).toNat).sum + 15)
  | _ => if noOp then none else some ((timeout.getD defaultCommandSecs).toNat + 30)

/-- Every sum and every deadline of a list is sound. -/
def AllFit (clock : Clock) (formed : List Arith) : Prop := ∀ a ∈ formed, a.Fits clock

/-- The number of seconds is a machine word, and the clock reaches that far. -/
def Admits (clock : Clock) (secs : Nat) : Prop := secs < UInt64.size ∧ clock.Reaches secs

section Fits
variable {clock : Clock} {config : StepConfig} {route : Route}

@[simp] theorem allFit_nil : AllFit clock [] := fun _ ha => absurd ha List.not_mem_nil

@[simp] theorem allFit_append {l l' : List Arith} :
    AllFit clock (l ++ l') ↔ AllFit clock l ∧ AllFit clock l' := List.forall_mem_append

@[simp] theorem allFit_cons {a : Arith} {l : List Arith} :
    AllFit clock (a :: l) ↔ a.Fits clock ∧ AllFit clock l := List.forall_mem_cons

theorem reaches_of_le {m n : Nat} (hle : m ≤ n) (h : clock.Reaches n) : clock.Reaches m :=
  fun k => (Nat.add_le_add_left hle _).trans (h k)

theorem admits_toNat (secs : UInt64) : Admits clock secs.toNat ↔ clock.Reaches secs.toNat :=
  and_iff_right secs.toNat_lt

theorem allFit_runPipedChild (timeout : Option UInt64) :
    AllFit clock (runPipedChild timeout) ↔ ∀ secs ∈ timeout.map UInt64.toNat, Admits clock secs := by
  cases timeout with
  | none => exact iff_of_true allFit_nil fun secs h => by cases h
  | some secs =>
    rw [Option.map_some]
    constructor
    · rintro h _ ⟨⟩
      exact (admits_toNat secs).mpr (h _ (List.mem_singleton_self _))
    · intro h a ha
      rw [List.mem_singleton.mp ha]
      exact (admits_toNat secs).mp (h _ rfl)

theorem allFit_carried (carrier : Carrier) (timeout : Option UInt64) :
    AllFit clock (carried carrier timeout) ↔ ∀ secs ∈ timeout.map UInt64.toNat, Admits clock secs := by
  cases carrier with
  | _ => exact allFit_runPipedChild timeout

/-- A sum that does not overflow has its value. -/
theorem allFit_budgeted (hrun : config.isNoOp = false) (secs : UInt64) :
    AllFit clock (budgeted config route secs) ↔ Admits clock (secs.toNat + 30) := by
  have hthirty : helperMarginSecs.toNat = 30 := rfl
  have hsum : (Arith.sum [secs, helperMarginSecs]).Fits clock ↔ secs.toNat + 30 < UInt64.size := by
    rw [Arith.Fits, List.map_cons, List.map_singleton, List.sum_cons, List.sum_singleton, hthirty]
  rw [budgeted, if_neg (by rw [hrun]; exact Bool.false_ne_true), allFit_cons, hsum, allFit_carried,
    Admits]
  refine and_congr_right fun hlt => ?_
  have hvalue : (secs + helperMarginSecs).toNat = secs.toNat + 30 := by
    rw [UInt64.toNat_add, hthirty, Nat.mod_eq_of_lt hlt]
  rw [Option.map_some, hvalue]
  constructor
  · exact fun h => (h _ rfl).2
  · rintro h _ ⟨⟩
    exact ⟨hlt, h⟩

theorem budgeted_noOp (hnoOp : config.isNoOp = true) (secs : UInt64) :
    budgeted config route secs = [] := if_pos hnoOp

theorem toNat_waitBudget (checks : List Assertion) (timeout : Option UInt64) :
    (waitBudget checks timeout).toNat =
      ((checks.map fun check => (checkBudget check timeout).toNat).sum + 15) % UInt64.size := by
  have hsum : ∀ acc : UInt64, (checks.foldl (fun sum check => sum + checkBudget check timeout)
      acc).toNat =
        (acc.toNat + (checks.map fun check => (checkBudget check timeout).toNat).sum) %
          UInt64.size := by
    induction checks with
    | nil =>
      intro acc
      rw [List.foldl_nil, List.map_nil, List.sum_nil, Nat.add_zero, Nat.mod_eq_of_lt acc.toNat_lt]
    | cons check checks ih =>
      intro acc
      rw [List.foldl_cons, ih, UInt64.toNat_add, List.map_cons, List.sum_cons, ← Nat.add_assoc,
        Nat.mod_add_mod]
  have hzero : (0 : UInt64).toNat = 0 := rfl
  have hmargin : transportMarginSecs.toNat = 15 := rfl
  rw [waitBudget, UInt64.toNat_add, hsum, hzero, hmargin, Nat.zero_add, Nat.mod_add_mod]

theorem allFit_runAssertStep (hrun : config.isNoOp = false) (checks : List Assertion) :
    AllFit clock (runAssertStep config checks) ↔ Admits clock
      ((checks.map fun check => (checkBudget check config.timeout).toNat).sum + 15) := by
  have hmargin : transportMarginSecs.toNat = 15 := rfl
  rw [runAssertStep, if_neg (by rw [hrun]; exact Bool.false_ne_true), allFit_cons, allFit_cons,
    Arith.Fits, List.map_append, List.sum_append, List.map_map, List.map_singleton,
    List.sum_singleton, hmargin, Admits]
  refine and_congr_right fun hlt => ?_
  rw [and_iff_left allFit_nil, Arith.Fits, toNat_waitBudget]
  have hvalue := Nat.mod_eq_of_lt hlt
  rw [Function.comp_def] at hvalue
  rw [hvalue]

theorem allFit_runLocalStep (hrun : config.isNoOp = false) (guarded : Bool) :
    AllFit clock (runLocalStep config guarded) ↔
      ∀ secs ∈ config.timeout.map UInt64.toNat, Admits clock secs := by
  rw [runLocalStep, allFit_append, runLocalBlock,
    if_neg (by rw [hrun]; exact Bool.false_ne_true), allFit_runPipedChild, evaluateGuard]
  refine and_iff_right_of_imp fun h => ?_
  split
  · exact (allFit_runPipedChild _).mpr h
  · exact allFit_nil

theorem runLocalStep_noOp (hnoOp : config.isNoOp = true) (guarded : Bool) :
    runLocalStep config guarded = [] := by
  rw [runLocalStep, evaluateGuard, runLocalBlock, if_pos hnoOp, hnoOp, Bool.not_true,
    Bool.and_false, if_neg Bool.false_ne_true, List.append_nil]

theorem toNat_min (a b : UInt64) : (min a b).toNat = min a.toNat b.toNat := by
  have hmin : min a b = if a ≤ b then a else b := rfl
  have hle : a ≤ b ↔ a.toNat ≤ b.toNat := UInt64.le_iff_toNat_le
  rw [hmin]
  by_cases h : a ≤ b
  · rw [if_pos h, Nat.min_eq_left (hle.mp h)]
  · rw [if_neg h, Nat.min_eq_right (Nat.le_of_not_le (mt hle.mpr h))]

theorem toNat_max (a b : UInt64) : (max a b).toNat = max a.toNat b.toNat := by
  have hmax : max a b = if a ≤ b then b else a := rfl
  have hle : a ≤ b ↔ a.toNat ≤ b.toNat := UInt64.le_iff_toNat_le
  rw [hmax]
  by_cases h : a ≤ b
  · rw [if_pos h, Nat.max_eq_right (hle.mp h)]
  · rw [if_neg h, Nat.max_eq_left (Nat.le_of_not_le (mt hle.mpr h))]

/-- The first phase has half of the timeout, the second one what is left of it. -/
theorem splitTimeout_some (secs : UInt64) : ∃ first second : UInt64,
    splitTimeout (some secs) = (some first, some second) ∧
      first.toNat = min (max (secs.toNat / 2) 1) secs.toNat ∧
        second.toNat = max (secs.toNat - first.toNat) 1 := by
  have hone : (1 : UInt64).toNat = 1 := rfl
  have htwo : (2 : UInt64).toNat = 2 := rfl
  have hfirst : (min (max (secs / 2) 1) secs).toNat = min (max (secs.toNat / 2) 1) secs.toNat := by
    rw [toNat_min, toNat_max, UInt64.toNat_div, hone, htwo]
  have hle : min (max (secs / 2) 1) secs ≤ secs := by
    rw [UInt64.le_iff_toNat_le, hfirst]
    exact Nat.min_le_right _ _
  refine ⟨_, _, rfl, hfirst, ?_⟩
  rw [toNat_max, UInt64.toNat_sub_of_le _ _ hle, hone]

/-- No phase is longer than the timeout, and the second one has a second at least. -/
theorem allFit_runScpTransfer_of_admits
    (h : ∀ secs ∈ config.timeout.map fun secs => max secs.toNat 1, Admits clock secs) :
    AllFit clock (runScpTransfer config) := by
  cases htimeout : config.timeout with
  | none =>
    rw [runScpTransfer, htimeout]
    exact allFit_nil
  | some secs =>
    rw [htimeout, Option.map_some] at h
    have hreach : clock.Reaches (max secs.toNat 1) := (h _ rfl).2
    obtain ⟨first, second, hsplit, hfirst, hsecond⟩ := splitTimeout_some secs
    have hfirst_le : first.toNat ≤ max secs.toNat 1 := by omega
    have hsecond_le : second.toNat ≤ max secs.toNat 1 := by omega
    rw [runScpTransfer, htimeout, hsplit]
    refine allFit_append.mpr ⟨fun a ha => ?_, fun a ha => ?_⟩
    · rw [List.mem_singleton.mp ha]
      exact reaches_of_le hfirst_le hreach
    · rw [List.mem_singleton.mp ha]
      exact reaches_of_le hsecond_le hreach

/-- Without a second to split, the second phase takes one of its own. -/
theorem reaches_one_of_runScpTransfer {secs : UInt64} (htimeout : config.timeout = some secs)
    (hzero : secs.toNat = 0) (h : AllFit clock (runScpTransfer config)) : clock.Reaches 1 := by
  obtain ⟨first, second, hsplit, -, hsecond⟩ := splitTimeout_some secs
  have hone : second.toNat = 1 := by omega
  rw [runScpTransfer, htimeout, hsplit] at h
  have hphase : clock.Reaches second.toNat := (allFit_append.mp h).2 _ (List.mem_singleton_self _)
  rwa [hone] at hphase

theorem allFit_flatMap {α : Type} {l : List α} (hl : l ≠ []) (formed : List Arith) :
    AllFit clock (l.flatMap fun _ => formed) ↔ AllFit clock formed := by
  constructor
  · intro h a ha
    obtain ⟨x, hx⟩ := List.exists_mem_of_ne_nil l hl
    exact h a (List.mem_flatMap.mpr ⟨x, hx, ha⟩)
  · intro h a ha
    obtain ⟨x, -, ha⟩ := List.mem_flatMap.mp ha
    exact h a ha

/-- An entry never takes a transfer away. -/
theorem length_groupEntry (isDir : String → Bool) (g : Grouping) (entry : String × String) :
    g.transfers.length ≤ (groupEntry isDir g entry).transfers.length := by
  fun_cases groupEntry isDir g entry with
  | case1 => simp
  | case2 => simp
  | case3 => simp

theorem groupTransfers_ne (isDir : String → Bool) {entries : List (String × String)}
    (hne : entries ≠ []) : groupTransfers isDir entries ≠ [] := by
  have hgrows : ∀ (l : List (String × String)) (g : Grouping),
      g.transfers.length ≤ (l.foldl (groupEntry isDir) g).transfers.length := by
    intro l
    induction l with
    | nil => exact fun g => Nat.le_refl _
    | cons entry l ih => exact fun g => (length_groupEntry isDir g entry).trans (ih _)
  cases entries with
  | nil => exact absurd rfl hne
  | cons entry entries =>
    have hfirst : 0 < (groupEntry isDir ⟨[], []⟩ entry).transfers.length := by
      fun_cases groupEntry isDir ⟨[], []⟩ entry with
      | case1 => simp
      | case2 _ _ _ _ _ _ h => cases h
      | case3 => simp
    exact List.ne_nil_of_length_pos (hfirst.trans_le (hgrows entries _))

/-- Some way to a host. -/
def plainRoute : Route := ⟨.ssh, .rsync, fun _ => false⟩

instance : Nonempty Route := ⟨plainRoute⟩

/-- A command with a budget of its own: the budget and its margin. -/
theorem fits_budgeted (config : StepConfig) (secs : UInt64) :
    (∀ route, AllFit clock (budgeted config route secs)) ↔
      ∀ total ∈ (if config.isNoOp then none else some (secs.toNat + 30)), Admits clock total := by
  cases hrun : config.isNoOp with
  | true =>
    refine iff_of_true (fun route => ?_) fun total h => by cases h
    rw [budgeted_noOp hrun]
    exact allFit_nil
  | false =>
    constructor
    · rintro h _ ⟨⟩
      exact (allFit_budgeted hrun secs).mp (h plainRoute)
    · exact fun h route => (allFit_budgeted hrun secs).mpr (h _ rfl)

theorem fits_runAssertStep (config : StepConfig) (checks : List Assertion) :
    AllFit clock (runAssertStep config checks) ↔
      ∀ total ∈ (if config.isNoOp then none else
          some ((checks.map fun check => (checkBudget check config.timeout).toNat).sum + 15)),
        Admits clock total := by
  cases hrun : config.isNoOp with
  | true =>
    refine iff_of_true ?_ fun total h => by cases h
    rw [runAssertStep, if_pos hrun]
    exact allFit_nil
  | false =>
    rw [allFit_runAssertStep hrun]
    constructor
    · rintro h _ ⟨⟩
      exact h
    · exact fun h => h _ rfl

theorem fits_runLocalStep (config : StepConfig) (guarded : Bool) :
    AllFit clock (runLocalStep config guarded) ↔
      ∀ secs ∈ (if config.isNoOp then none else config.timeout.map UInt64.toNat),
        Admits clock secs := by
  cases hrun : config.isNoOp with
  | true =>
    refine iff_of_true ?_ fun total h => by cases h
    rw [runLocalStep_noOp hrun]
    exact allFit_nil
  | false => exact allFit_runLocalStep hrun guarded

/-- A remote step: its timeout, whatever carries the block. -/
theorem fits_runRemoteStep (config : StepConfig) (guarded : Bool) :
    (∀ route, AllFit clock (runRemoteStep config route guarded)) ↔
      ∀ secs ∈ (if config.runsLocally && config.isNoOp then none
          else config.timeout.map UInt64.toNat), Admits clock secs := by
  cases hlocal : config.runsLocally with
  | true =>
    have hsteps : ∀ route, runRemoteStep config route guarded = runLocalStep config guarded :=
      fun route => if_pos hlocal
    rw [Bool.true_and, ← fits_runLocalStep config guarded]
    exact ⟨fun h => hsteps plainRoute ▸ h plainRoute, fun h route => (hsteps route).symm ▸ h⟩
  | false =>
    rw [Bool.false_and, if_neg Bool.false_ne_true]
    constructor
    · intro h
      have hplain := h plainRoute
      rw [runRemoteStep, hlocal, if_neg Bool.false_ne_true] at hplain
      -- over ssh every way of a remote step has the timeout as its deadline
      split at hplain
      · exact (allFit_runPipedChild _).mp hplain
      · split at hplain
        · exact (allFit_runPipedChild _).mp hplain
        · exact (allFit_carried _ _).mp hplain
    · intro h route
      rw [runRemoteStep, hlocal, if_neg Bool.false_ne_true]
      split
      · exact (allFit_runPipedChild _).mpr h
      · split
        · cases route.carrier with
          | ssh => exact (allFit_runPipedChild _).mpr h
          | muxy => exact allFit_nil
        · exact (allFit_carried _ _).mpr h

/-- A transfer of a real run: both phases of the fallback take a second at least. -/
theorem fits_runRsyncHost (config : StepConfig) (hdryRun : config.dryRun = false)
    (isDir : String → Bool) :
    (∀ carrier tool, AllFit clock (runRsyncHost config ⟨carrier, tool, isDir⟩)) ↔
      ∀ secs ∈ config.timeout.map fun secs => max secs.toNat 1, Admits clock secs := by
  have hscp : ∀ carrier, runRsyncHost config ⟨carrier, .scp, isDir⟩ = runScpTransfer config :=
    fun carrier => if_neg (by rw [hdryRun]; exact Bool.false_ne_true)
  constructor
  · intro h
    cases htimeout : config.timeout with
    | none => exact fun secs hsecs => by cases hsecs
    | some secs =>
      rw [Option.map_some]
      rintro _ ⟨⟩
      have hrsync : Admits clock secs.toNat :=
        (allFit_runPipedChild config.timeout).mp (h .ssh .rsync) _ (by rw [htimeout]; rfl)
      have hone : secs.toNat = 0 → clock.Reaches 1 := fun hzero =>
        reaches_one_of_runScpTransfer htimeout hzero (hscp .ssh ▸ h .ssh .scp)
      rcases Nat.eq_zero_or_pos secs.toNat with hzero | hpos
      · rw [hzero]
        exact ⟨by decide, hone hzero⟩
      · rw [Nat.max_eq_left hpos]
        exact hrsync
  · intro h carrier tool
    cases tool with
    | rsync =>
      refine (allFit_runPipedChild config.timeout).mpr fun secs hsecs => ?_
      obtain ⟨timeout, htimeout, rfl⟩ := Option.mem_map.mp hsecs
      have hmax : Admits clock (max timeout.toNat 1) := h _ (Option.mem_map.mpr ⟨_, htimeout, rfl⟩)
      exact (admits_toNat timeout).mpr (reaches_of_le (Nat.le_max_left _ _) hmax.2)
    | scp =>
      rw [hscp]
      exact allFit_runScpTransfer_of_admits h
    | refused => exact allFit_nil

/-- A copy on the controller: one child for each entry. -/
theorem fits_runCopyStep_local (config : StepConfig) (hlocal : config.runsLocally = true)
    (copy : CopyStep) (route : Route) :
    AllFit clock (runCopyStep config route copy) ↔
      ∀ secs ∈ (if config.isNoOp then none else config.timeout.map UInt64.toNat),
        Admits clock secs := by
  have hentries : copy.entries.map (fun entry => (entry.src, entry.dst)) ≠ [] :=
    mt List.map_eq_nil_iff.mp copy.entries_ne
  rw [runCopyStep, if_pos hlocal, allFit_flatMap hentries]
  cases hrun : config.isNoOp with
  | true => exact iff_of_true allFit_nil fun secs h => by cases h
  | false => exact allFit_runPipedChild config.timeout

/-- A copy to the hosts: one child, or two, for each transfer. -/
theorem fits_runCopyStep (config : StepConfig) (hlocal : config.runsLocally = false)
    (copy : CopyStep) :
    (∀ route, AllFit clock (runCopyStep config route copy)) ↔
      ∀ secs ∈ (if config.check then none
          else if config.dryRun then config.timeout.map UInt64.toNat
          else config.timeout.map fun secs => max secs.toNat 1), Admits clock secs := by
  have hentries : copy.entries.map (fun entry => (entry.src, entry.dst)) ≠ [] :=
    mt List.map_eq_nil_iff.mp copy.entries_ne
  cases hcheck : config.check with
  | true =>
    refine iff_of_true (fun route => ?_) fun secs h => by cases h
    rw [runCopyStep, hlocal, if_neg Bool.false_ne_true, if_pos hcheck]
    exact allFit_nil
  | false =>
    have htransfers : ∀ route, AllFit clock (runCopyStep config route copy) ↔
        AllFit clock (runRsyncHost config route) := by
      intro route
      rw [runCopyStep, hlocal, if_neg Bool.false_ne_true, hcheck, if_neg Bool.false_ne_true]
      exact allFit_flatMap (groupTransfers_ne route.isDir hentries) _
    rw [forall_congr' htransfers, if_neg Bool.false_ne_true]
    cases hdryRun : config.dryRun with
    | true =>
      rw [if_pos rfl, ← allFit_runPipedChild]
      refine ⟨fun h => h plainRoute, fun h route => ?_⟩
      cases htool : route.tool with
      | rsync =>
        rw [runRsyncHost, htool]
        exact h
      | scp =>
        rw [runRsyncHost, htool, hdryRun]
        exact allFit_nil
      | refused =>
        rw [runRsyncHost, htool]
        exact allFit_nil
    | false =>
      rw [if_neg Bool.false_ne_true, ← fits_runRsyncHost config hdryRun fun _ => false]
      exact ⟨fun h carrier tool => h _, fun h route => h route.carrier route.tool⟩

/-- One step, on whatever way it takes. -/
theorem fits_runSingleStep (flags : RunFlags) (step : Step) :
    (∀ route, AllFit clock (runSingleStep flags route step)) ↔
      ∀ secs ∈ longestDeadline flags step, Admits clock secs := by
  have hcommand := @fits_budgeted clock
    (.new flags (((stepTimeout step).map UInt64.ofNat).or flags.timeout))
    ((((stepTimeout step).map UInt64.ofNat).or flags.timeout).getD defaultCommandSecs)
  cases step with
  | localBlock s => exact (forall_const Route).trans (fits_runLocalStep _ _)
  | remote s => exact fits_runRemoteStep _ _
  | copy s =>
    cases hlocal : flags.runsLocally with
    | true =>
      refine ((forall_congr' fun route => fits_runCopyStep_local _ hlocal s route).trans
        (forall_const Route)).trans ?_
      rw [longestDeadline, hlocal, StepConfig.isNoOp, StepConfig.new]
      cases flags.check <;> cases flags.dryRun || flags.diff <;> exact Iff.rfl
    | false =>
      refine (fits_runCopyStep _ hlocal s).trans ?_
      rw [longestDeadline, hlocal, StepConfig.new]
      cases flags.check <;> cases flags.dryRun || flags.diff <;> exact Iff.rfl
  | wait s => exact fits_budgeted _ _
  | reload s => exact fits_budgeted _ _
  | assert s => exact (forall_const Route).trans (fits_runAssertStep _ s.checks)
  | helper s => exact iff_of_true (fun _ => allFit_nil) fun secs h => by cases h
  | service s => exact hcommand
  | install s => exact hcommand
  | backup s => exact hcommand
  | credstore s => exact hcommand
  | unitInventory s => exact hcommand
  | release s => exact hcommand
  | build s => exact hcommand
  | toolchain s => exact hcommand
  | image s => exact hcommand

end Fits

/-- No sum and no deadline of a run overflows exactly if no step asks for more seconds than a machine
word and the clock can hold. -/
theorem deadlines_fit_iff (flags : RunFlags) (clock : Clock) (steps : List Step) :
    (∀ step ∈ steps, ∀ route, AllFit clock (runSingleStep flags route step)) ↔
      ∀ step ∈ steps, ∀ secs ∈ longestDeadline flags step, Admits clock secs :=
  forall₂_congr fun step _ => fits_runSingleStep flags step

/-- A run without flags. -/
def plainFlags : RunFlags := ⟨false, false, false, false, none⟩

/-- A controller that was started long ago. -/
def longClock : Clock := ⟨fun k => 1000000 + k, 9223372036854775807⟩

/-- The longest timeout that the parser admits. -/
def longestScript : String :=
  "# @server a h\n# @timeout 18446744073709551615\n# @wait_active app @a\n"

theorem deadlines_overflow : ¬ ∀ text plan, parseScript text = .ok plan →
    ∀ step ∈ plan.steps, ∀ route, AllFit longClock (runSingleStep plainFlags route step) := by
  intro hall
  have hbad : ((parseScript longestScript).toOption.any fun plan => plan.steps.any fun step =>
      runSingleStep plainFlags plainRoute step ==
        [.sum [18446744073709551615, 30], .deadline 29]) = true := by
    decide +kernel
  cases h : parseScript longestScript with
  | error e =>
    rw [h] at hbad
    cases hbad
  | ok plan =>
    rw [h] at hbad
    obtain ⟨step, hstep, hformed⟩ := List.any_eq_true.mp hbad
    have hfit := hall longestScript plan h step hstep plainRoute
    rw [eq_of_beq hformed] at hfit
    have hlt : 18446744073709551615 + (30 + 0) < UInt64.size := (allFit_cons.mp hfit).1
    exact absurd hlt (by decide)

end Shellflow.Deadlines
