import Shellflow.Executor.Copy
import Shellflow.Executor.PortVerdict
import Shellflow.Lib.ExitTrap
import Shellflow.Muxy.Payload

/-! The guard of a block runs in the shell of the block, and reports through the exit code of that
shell. The block is any code: it may leave the shell in any way, with any trap. -/
namespace Shellflow
open ExitTrap
open Shell (Cmd Tools Ends eval)
variable {W : Type*}

inductive SshOutcome
  | transport
  | script
  | timedOut
  | cancelled
  | skipped
deriving DecidableEq, Repr

def classifySsh : SshOutcome → HostOutcome
  | .transport => .failed .transport
  | .script => .failed .script
  | .timedOut => .timedOut
  | .cancelled => .cancelled
  | .skipped => .skipped

/-- How a child with a pipe to its stdin ends; a child killed by a signal has no code. -/
inductive PipedRun
  | completed (code : Option Nat)
  | timedOut
  | pipeBroken
  | cancelled
deriving DecidableEq, Repr

def sshGuardSkipExit : Nat := 42

/-- A child that could not be started or waited for is none. -/
def runSshChild (run : Option PipedRun) (hasGuard : Bool) : Except SshOutcome Unit :=
  match run with
  | none => .error .transport
  | some (.completed code) =>
    if code = some 0 then .ok ()
    else if code = some 255 then .error .transport
    else if hasGuard ∧ code = some sshGuardSkipExit then .error .skipped
    else .error .script
  | some .timedOut => .error .timedOut
  | some .pipeBroken => .error .transport
  | some .cancelled => .error .cancelled

/-- What is reported for a host. -/
def hostOutcome : Except SshOutcome Unit → HostOutcome
  | .ok _ => .ok
  | .error outcome => classifySsh outcome

/-- `rc=$?; if [ "$rc" = 42 ]; then exit 1; fi` -/
def exitTrap : Cmd :=
  .seq (.assign "rc" (.bare .status))
    (.when (.simple [litWord "[", quotedVar "rc", litWord "=", litWord "42", litWord "]"])
      (litWords ["exit", "1"]))

def guardTest (guard : String) : Script := .quiet (.seq .semicolon (.set "+u") (.user guard))

def guardHeader (guard : String) : Script :=
  .seq .newline (.trapExit exitTrap)
    (.ifFails (guardTest guard) (.seq .semicolon .untrap (.exit sshGuardSkipExit)))

def guardedBlock (guard script : String) : Script :=
  .seq .newline (guardHeader guard) (.user script)

/-- The script that is run is the one the payload spells. -/
theorem render_guardedBlock (guard script : String) :
    (guardedBlock guard script).render = foldedGuard guard ++ script := by
  have htrap : exitTrap.render = "rc=$?; if [ \"$rc\" = 42 ]; then exit 1; fi" := by decide +kernel
  apply String.toList_inj.mp
  unfold guardedBlock guardHeader guardTest foldedGuard
  rw [Script.render, Script.render, Script.render, Script.render, Script.render, htrap]
  rw [show (Script.seq .semicolon Script.untrap (.exit sshGuardSkipExit)).render =
    "trap - EXIT; exit 42" by decide +kernel]
  simp [Script.render, Separator.render]
  rfl

/-- What becomes of the ssh child of a step: it reports how the remote shell ended, the connection
is lost, it is killed, or it is not waited for to its end. -/
inductive ChildFate
  | reports
  | lost
  | killed
  | timedOut
  | pipeBroken
  | cancelled
  | failed
deriving DecidableEq, Repr

/-- The exit code of ssh for a remote shell. -/
def sshCode : Left → Nat
  | .code n => n
  | .signal _ => 255

/-- The child that reports ends with the remote shell, or never. -/
def ChildFate.run (remote : Option Left) : ChildFate → Option (Option PipedRun)
  | reports => remote.map fun left => some (.completed (some (sshCode left)))
  | lost => some (some (.completed (some 255)))
  | killed => some (some (.completed none))
  | timedOut => some (some .timedOut)
  | pipeBroken => some (some .pipeBroken)
  | cancelled => some (some .cancelled)
  | failed => some none

section Verdict
variable (tools : Tools W) (fuel : Nat) (meaning : String → Code W)

/-- The outcome of a guarded step on a host whose shell starts as `p`. -/
def guardedOutcome (guard script : String) (fate : ChildFate) (p : Proc W) : Option HostOutcome :=
  let remote := ((guardedBlock guard script).run tools fuel meaning p).bind (left tools fuel)
  (fate.run (remote.map Prod.fst)).map fun run => hostOutcome (runSshChild run true)

/-- The shell when the guard is tested. -/
def trapped (p : Proc W) : Proc W := (p.setTrap (some (.cmd exitTrap))).setStatus 0

/-- The guard ends with the status `n`, and the shell goes on as `p'`. -/
def GuardEnds (guard : String) (p : Proc W) (n : Nat) (p' : Proc W) : Prop :=
  (guardTest guard).run tools fuel meaning (trapped p) = some (.next, p') ∧ p'.state.status = n

def GuardFails (guard : String) (p : Proc W) : Prop :=
  ∃ n p', GuardEnds tools fuel meaning guard p n p' ∧ n ≠ 0

/-- The guard passes, and the block ends in the way `r`. -/
def BlockEnds (guard script : String) (p : Proc W) (r : Ending × Proc W) : Prop :=
  ∃ p', GuardEnds tools fuel meaning guard p 0 p' ∧ meaning script (p'.setStatus 0) = some r

/-- The shell is left through the trap of the payload, and `[` is the command of that name. -/
def ThroughTrap (r : Ending × Proc W) : Prop :=
  (∀ status, r.1 ≠ .replaced status) ∧ r.2.trap = some (.cmd exitTrap) ∧ r.2.state.funs "[" = none

/-- The block replaces the shell or takes the trap away, and the code that is left is the one of
the guard. -/
def Slips (r : Ending × Proc W) : Prop :=
  ¬ ThroughTrap r ∧ (left tools fuel r).map Prod.fst = some (.code sshGuardSkipExit)

end Verdict

section Rules
variable {tools : Tools W} {fuel : Nat} {meaning : String → Code W}

/-- The test of the trap, which compares the code as a text. -/
theorem trapTest_ends {s : Shell.State W} {code : Nat} (hfuns : s.funs "[" = none)
    (hrc : s.vars "rc" = some (toString code)) :
    Ends tools (.simple [litWord "[", quotedVar "rc", litWord "=", litWord "42", litWord "]"]) "" s
      fun o => o = Shell.finish s (Shell.statusOf (decide (code = sshGuardSkipExit))) [] := by
  have hwords : Shell.expandWords (eval tools 0) ""
      [litWord "[", quotedVar "rc", litWord "=", litWord "42", litWord "]"] s =
      some ⟨["[", toString code, "=", "42", "]"], s.world, [], none⟩ := by
    simp [litWord, quotedVar, Shell.expandWords, Shell.expandText, Shell.expandSegs,
      Shell.expandSeg, Shell.expandParts, Shell.expandPart, Shell.Expansion.join,
      Shell.Word.fields, Shell.State.setWorld, hrc]
  have hcode : (toString code == "42") = decide (code = sshGuardSkipExit) := by
    rw [Bool.eq_iff_iff, beq_iff_eq, decide_eq_true_iff]
    refine ⟨fun htext => ?_, fun hstatus => by rw [hstatus]; rfl⟩
    have hnumber := congrArg Shell.number htext
    rwa [Shell.number_toString, show Shell.number "42" = some sshGuardSkipExit by decide +kernel,
      Option.some_inj] at hnumber
  have hrun : Shell.runSimple tools (eval tools 0) ["[", toString code, "=", "42", "]"] "" s =
      some (Shell.finish s (Shell.statusOf (decide (code = sshGuardSkipExit))) []) := by
    rw [← hcode]
    simp [Shell.runSimple, hfuns, Shell.runPlain, Shell.test]
  exact Ends.plain hwords hrun rfl

/-- On the code 42 the trap ends the shell with 1. -/
theorem exitTrap_exits {s : Shell.State W} (htest : s.funs "[" = none)
    (hcode : s.status = sshGuardSkipExit) :
    Ends tools exitTrap "" s fun o => o.flow = .exit ∧ o.state.status = 1 := by
  have hassign : Shell.expandText (eval tools 0) "" (.bare .status) s =
      some ⟨toString s.status, s.world, [], none⟩ := rfl
  refine Ends.seq (Ends.assign hassign ⟨rfl, ?_⟩)
  refine Ends.when_true ((trapTest_ends (by exact htest) rfl).weaken fun o ho => ?_)
  rw [ho, hcode]
  exact ⟨rfl, rfl, (litWords_ends rfl).weaken fun o ho => by rw [ho]; exact ⟨rfl, rfl⟩⟩

/-- On any other code the trap lets the shell end as it is. -/
theorem exitTrap_keeps {s : Shell.State W} (htest : s.funs "[" = none)
    (hcode : s.status ≠ sshGuardSkipExit) : Ends tools exitTrap "" s fun o => o.flow ≠ .exit := by
  have hassign : Shell.expandText (eval tools 0) "" (.bare .status) s =
      some ⟨toString s.status, s.world, [], none⟩ := rfl
  refine Ends.seq (Ends.assign hassign ⟨rfl, ?_⟩)
  refine Ends.when_false ((trapTest_ends (by exact htest) rfl).weaken fun o ho => ?_)
  rw [ho, decide_eq_false hcode]
  exact ⟨rfl, Nat.one_ne_zero, nofun⟩

/-- The trap of the payload never leaves the code of the guard. -/
theorem left_ne_of_throughTrap {r : Ending × Proc W} (h : ThroughTrap r) :
    (left tools fuel r).map Prod.fst ≠ some (.code sshGuardSkipExit) := by
  obtain ⟨ending, p⟩ := r
  obtain ⟨hreplaced, htrap, htest⟩ := h
  have hleave : ∀ (own : Left) (r : Left × W), p.leave tools fuel own = some r →
      r.1 ≠ .code sshGuardSkipExit := by
    intro own r hr
    refine leave_ne_of_remaps htrap (by decide : 1 % 256 ≠ sshGuardSkipExit) ?_ ?_ hr
    · intro o ho
      obtain ⟨n, o', ho', hexit⟩ := exitTrap_exits (s := p.state.setStatus sshGuardSkipExit) htest rfl
      rwa [Shell.eval_unique ho ho']
    · intro status o hne ho
      obtain ⟨n, o', ho', hkeep⟩ := exitTrap_keeps (s := p.state.setStatus status) htest hne
      rwa [Shell.eval_unique ho ho']
  intro hcode
  obtain ⟨r, hr, hfst⟩ := Option.map_eq_some_iff.mp hcode
  cases ending with
  | next => exact hleave _ r hr hfst
  | exit => exact hleave _ r hr hfst
  | interrupted signal => exact hleave _ r hr hfst
  | replaced status => exact hreplaced status rfl
  | killed signal =>
    rw [left, Option.some_inj] at hr
    rw [← hr] at hfst
    cases hfst

/-- Only a child that reports the code 42 is a skip. -/
theorem skipped_iff (fate : ChildFate) (remote : Option Left) :
    ((fate.run remote).map fun run => hostOutcome (runSshChild run true)) = some .skipped ↔
      fate = .reports ∧ remote = some (.code sshGuardSkipExit) := by
  cases fate with
  | reports =>
    cases remote with
    | none => exact ⟨nofun, nofun⟩
    | some l =>
      cases l with
      | signal n => exact ⟨nofun, nofun⟩
      | code n =>
        by_cases hzero : n = 0
        · subst hzero
          exact ⟨nofun, nofun⟩
        by_cases hlost : n = 255
        · subst hlost
          exact ⟨nofun, nofun⟩
        by_cases hskip : n = sshGuardSkipExit
        · subst hskip
          exact ⟨fun _ => ⟨rfl, rfl⟩, fun _ => rfl⟩
        · simp [ChildFate.run, sshCode, runSshChild, hzero, hlost, hskip, hostOutcome, classifySsh]
  | lost => exact ⟨nofun, nofun⟩
  | killed => exact ⟨nofun, nofun⟩
  | timedOut => exact ⟨nofun, nofun⟩
  | pipeBroken => exact ⟨nofun, nofun⟩
  | cancelled => exact ⟨nofun, nofun⟩
  | failed => exact ⟨nofun, nofun⟩

theorem guardHeader_fails {guard : String} {p p' : Proc W} {n : Nat}
    (h : GuardEnds tools fuel meaning guard p n p') (hn : n ≠ 0) :
    (guardHeader guard).run tools fuel meaning p =
      some (.exit, ((p'.setTrap none).setStatus 0).setStatus sshGuardSkipExit) := by
  rw [guardHeader, Script.run_seq rfl, Script.run]
  change Option.bind ((guardTest guard).run tools fuel meaning (trapped p)) _ = _
  rw [h.1, Option.bind_some, if_neg (not_not_intro rfl), if_neg (h.2 ▸ hn)]
  rfl

theorem guardHeader_passes {guard : String} {p p' : Proc W}
    (h : GuardEnds tools fuel meaning guard p 0 p') :
    (guardHeader guard).run tools fuel meaning p = some (.next, p'.setStatus 0) := by
  rw [guardHeader, Script.run_seq rfl, Script.run]
  change Option.bind ((guardTest guard).run tools fuel meaning (trapped p)) _ = _
  rw [h.1, Option.bind_some, if_neg (not_not_intro rfl), if_pos h.2]

theorem guardHeader_hangs {guard : String} {p : Proc W}
    (h : (guardTest guard).run tools fuel meaning (trapped p) = none) :
    (guardHeader guard).run tools fuel meaning p = none := by
  rw [guardHeader, Script.run_seq rfl, Script.run]
  change Option.bind ((guardTest guard).run tools fuel meaning (trapped p)) _ = _
  rw [h, Option.bind_none]

/-- The shell of a failed guard leaves with the code of the guard. -/
theorem remote_of_fails {guard script : String} {p : Proc W}
    (h : GuardFails tools fuel meaning guard p) :
    (((guardedBlock guard script).run tools fuel meaning p).bind (left tools fuel)).map Prod.fst =
      some (.code sshGuardSkipExit) := by
  obtain ⟨n, p', hends, hn⟩ := h
  rw [guardedBlock, Script.run_seq_stop (guardHeader_fails hends hn) nofun, Option.bind_some,
    left_untrapped rfl]
  rfl

/-- The shell of a guard that passes leaves as the block does. -/
theorem remote_of_passes {guard script : String} {p p' : Proc W}
    (h : GuardEnds tools fuel meaning guard p 0 p') :
    ((guardedBlock guard script).run tools fuel meaning p).bind (left tools fuel) =
      (meaning script (p'.setStatus 0)).bind (left tools fuel) := by
  rw [guardedBlock, Script.run_seq (guardHeader_passes h), Script.run]

/-- The guard fails, or passes, or never ends. -/
theorem guard_cases (guard : String) (p : Proc W) :
    GuardFails tools fuel meaning guard p ∨ (∃ p', GuardEnds tools fuel meaning guard p 0 p') ∨
      (guardTest guard).run tools fuel meaning (trapped p) = none := by
  cases hrun : (guardTest guard).run tools fuel meaning (trapped p) with
  | none => exact .inr (.inr rfl)
  | some r =>
    obtain ⟨ending, p'⟩ := r
    obtain ⟨hnext, -⟩ := subshell_eq_some hrun
    dsimp only at hnext
    subst hnext
    by_cases hzero : p'.state.status = 0
    · exact .inr (.inl ⟨p', hrun, hzero⟩)
    · exact .inl ⟨_, p', ⟨hrun, rfl⟩, hzero⟩

theorem GuardEnds.unique {guard : String} {p p₁ p₂ : Proc W} {m n : Nat}
    (h : GuardEnds tools fuel meaning guard p m p₁) (h' : GuardEnds tools fuel meaning guard p n p₂) :
    m = n ∧ p₁ = p₂ := by
  have heq := h.1.symm.trans h'.1
  obtain rfl : p₁ = p₂ := (Prod.mk.inj (Option.some.inj heq)).2
  exact ⟨h.2.symm.trans h'.2, rfl⟩

theorem slips_iff {r : Ending × Proc W} :
    Slips tools fuel r ↔ (left tools fuel r).map Prod.fst = some (.code sshGuardSkipExit) :=
  ⟨fun h => h.2, fun h => ⟨fun hthrough => left_ne_of_throughTrap hthrough h, h⟩⟩

theorem guardedOutcome_skipped_iff (guard script : String) (fate : ChildFate) (p : Proc W) :
    guardedOutcome tools fuel meaning guard script fate p = some .skipped ↔ fate = .reports ∧
      (((guardedBlock guard script).run tools fuel meaning p).bind (left tools fuel)).map Prod.fst =
        some (.code sshGuardSkipExit) := skipped_iff _ _

/-- A child that is not heard to its end has an outcome all the same. -/
theorem guardedOutcome_of_unheard (guard script : String) {fate : ChildFate} (p : Proc W)
    (h : fate ≠ .reports) : ∃ outcome, guardedOutcome tools fuel meaning guard script fate p =
      some outcome := by
  cases fate with
  | reports => exact absurd rfl h
  | _ => exact ⟨_, rfl⟩

/-- A block that ran is not reported as skipped, exactly when it does not slip past the trap. -/
theorem not_skipped_iff_of_passes {guard script : String} {fate : ChildFate} {p p' : Proc W}
    (h : GuardEnds tools fuel meaning guard p 0 p') :
    guardedOutcome tools fuel meaning guard script fate p ≠ some .skipped ↔
      ∀ r, BlockEnds tools fuel meaning guard script p r → fate = .reports →
        ¬ Slips tools fuel r := by
  rw [Ne, guardedOutcome_skipped_iff, remote_of_passes h]
  constructor
  · rintro hnot r ⟨p₁, hends, hblock⟩ hfate hslips
    obtain ⟨-, rfl⟩ := hends.unique h
    refine hnot ⟨hfate, ?_⟩
    rw [hblock, Option.bind_some]
    exact slips_iff.mp hslips
  · rintro hblocks ⟨hfate, hcode⟩
    cases hblock : meaning script (p'.setStatus 0) with
    | none =>
      rw [hblock] at hcode
      cases hcode
    | some r =>
      rw [hblock, Option.bind_some] at hcode
      exact hblocks r ⟨p', h, hblock⟩ hfate (slips_iff.mpr hcode)

/-- A guard that never ends is not reported as failed. -/
theorem not_skipped_of_hangs {guard script : String} {fate : ChildFate} {p : Proc W}
    (h : (guardTest guard).run tools fuel meaning (trapped p) = none) :
    guardedOutcome tools fuel meaning guard script fate p ≠ some .skipped := by
  rw [Ne, guardedOutcome_skipped_iff, guardedBlock, Script.run_seq_none (guardHeader_hangs h)]
  exact fun hcode => nomatch hcode.2

end Rules

/-- A host is reported as skipped exactly when its guard failed, if a failed guard is heard of and
the block does not end with the code of the guard outside of the trap. -/
theorem guardedOutcome_exact_iff (tools : Tools W) (fuel : Nat) (meaning : String → Code W)
    (guard script : String) (fate : ChildFate) (p : Proc W) :
    (∀ outcome, guardedOutcome tools fuel meaning guard script fate p = some outcome →
      (outcome = .skipped ↔ GuardFails tools fuel meaning guard p)) ↔
      (GuardFails tools fuel meaning guard p → fate = .reports) ∧
        ∀ r, BlockEnds tools fuel meaning guard script p r → fate = .reports →
          ¬ Slips tools fuel r := by
  have hpassing : ¬ GuardFails tools fuel meaning guard p →
      ((∀ outcome, guardedOutcome tools fuel meaning guard script fate p = some outcome →
        (outcome = .skipped ↔ GuardFails tools fuel meaning guard p)) ↔
        guardedOutcome tools fuel meaning guard script fate p ≠ some .skipped) := by
    intro hnot
    simp only [hnot, iff_false]
    exact ⟨fun hall hskip => hall _ hskip rfl, fun hne outcome ho hskip => hne (hskip ▸ ho)⟩
  have hcases : GuardFails tools fuel meaning guard p ∨ _ := guard_cases guard p
  rcases hcases with hfails | ⟨p', hpasses⟩ | hhangs
  · have hskipped : guardedOutcome tools fuel meaning guard script fate p = some .skipped ↔
        fate = .reports := by
      rw [guardedOutcome_skipped_iff, remote_of_fails hfails, eq_self, and_true]
    constructor
    · intro hall
      refine ⟨fun _ => ?_, ?_⟩
      · by_contra hunheard
        obtain ⟨outcome, ho⟩ : ∃ outcome, guardedOutcome tools fuel meaning guard script fate p =
            some outcome := guardedOutcome_of_unheard guard script p hunheard
        rw [(hall outcome ho).mpr hfails] at ho
        exact hunheard (hskipped.mp ho)
      · rintro r ⟨p', hends, -⟩
        obtain ⟨n, p₁, hfailed, hn⟩ := hfails
        exact absurd (hfailed.unique hends).1 hn
    · rintro ⟨hheard, -⟩ outcome ho
      rw [hskipped.mpr (hheard hfails), Option.some_inj] at ho
      exact ⟨fun _ => hfails, fun _ => ho.symm⟩
  · have hnot : ¬ GuardFails tools fuel meaning guard p := by
      rintro ⟨n, p₁, hfailed, hn⟩
      exact hn (hfailed.unique hpasses).1
    rw [hpassing hnot, not_skipped_iff_of_passes hpasses]
    exact ⟨fun h => ⟨fun hfails => absurd hfails hnot, h⟩, fun h => h.2⟩
  · have hnever : ∀ n p', ¬ GuardEnds tools fuel meaning guard p n p' := by
      rintro n p' ⟨hrun, -⟩
      rw [hhangs] at hrun
      cases hrun
    have hnot : ¬ GuardFails tools fuel meaning guard p := fun ⟨n, p', hends, _⟩ => hnever n p' hends
    rw [hpassing hnot]
    refine ⟨fun _ => ⟨fun hfails => absurd hfails hnot, ?_⟩, fun _ => not_skipped_of_hangs hhangs⟩
    rintro r ⟨p', hends, -⟩
    exact absurd hends (hnever 0 p')

/-- A target whose guard `true` passes, and a block that takes the trap away and exits with 42. -/
def escapingBlock : Script := .seq .semicolon .untrap (.exit sshGuardSkipExit)

def escapeMeaning (text : String) : Code Unit := fun p =>
  if text = "true" then some (.next, p.setStatus 0)
  else escapingBlock.run (fun _ _ w => ⟨w, [], 127⟩) 0 (fun _ _ => none) p

def freshShell : Proc Unit := ⟨none, ⟨fun _ => none, [], fun _ => none, 0, ()⟩⟩

/-- The block `trap - EXIT; exit 42` runs, and is reported as skipped. -/
theorem guardedOutcome_skips_a_run_block :
    escapingBlock.render = "trap - EXIT; exit 42" ∧
    ¬ ∀ (tools : Tools Unit) (fuel : Nat) (meaning : String → Code Unit) (guard script : String)
      (fate : ChildFate) (p : Proc Unit), ∀ outcome,
        guardedOutcome tools fuel meaning guard script fate p = some outcome →
          (outcome = .skipped ↔ GuardFails tools fuel meaning guard p) := by
  refine ⟨by decide +kernel, fun hall => ?_⟩
  have hfails := (hall (fun _ _ w => ⟨w, [], 127⟩) 0 escapeMeaning "true" "trap - EXIT; exit 42"
    .reports freshShell .skipped rfl).mp rfl
  obtain ⟨n, p', ⟨hrun, hstatus⟩, hn⟩ := hfails
  refine hn ?_
  rw [← hstatus, ← (Prod.mk.inj (Option.some.inj hrun)).2]
  rfl

end Shellflow
