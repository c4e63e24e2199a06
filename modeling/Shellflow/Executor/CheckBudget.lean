import Mathlib.Algebra.GroupWithZero.Nat
import Shellflow.Dsl.NamedSteps
import Shellflow.Executor.AssertCommands
import Shellflow.Executor.HealthVerdict
import Shellflow.Lib.ShellStill

/-! The time the transport gives to the checks of one step, and the time their commands wait on the
target. A `Port` check has one budget and waits for each of its ports. -/
namespace Shellflow
open Shell

section Budget

/-- The margin the transport gets on top of the budgets of the checks. -/
def transportMarginSecs : UInt64 := 15

/-- The budget one check may spend waiting. -/
def checkBudget (check : Assertion) (stepTimeout : Option UInt64) : UInt64 :=
  match check with
  | .port _ _ => stepTimeout.getD (UInt64.ofNat defaultPortTimeoutSecs)
  | .health _ _ _ _ _ => stepTimeout.getD (UInt64.ofNat defaultHealthTimeoutSecs)
  | _ => 0

/-- The sum wraps around in a release build. -/
def waitBudget (checks : List Assertion) (stepTimeout : Option UInt64) : UInt64 :=
  checks.foldl (fun sum check => sum + checkBudget check stepTimeout) 0 + transportMarginSecs

/-- The command of a check, with the timeout of its step. -/
def checkCommand (stepTimeout : Option UInt64) (check : Assertion) : Cmd :=
  commandFor check (stepTimeout.map UInt64.toNat)

end Budget

/-- A target whose programs answer by their arguments, their input and the time. Only `sleep` lets
time pass; the world is the number of seconds that have passed. -/
structure WaitTarget where
  start : Nat
  answer : List String → String → Nat → Chunks × Nat
  code : ∀ args input now, ThreeDigits (textOf .out (answer ("curl" :: args) input now).1)
  silent : ∀ args input now, textOf .out (answer ("wget" :: args) input now).1 = ""
  noNumber : ∀ a b input now, number a = none → (answer ["[", a, "-ge", b, "]"] input now).2 ≠ 0

namespace WaitTarget

def tools (t : WaitTarget) : Tools Nat := fun argv input now =>
  match argv with
  | ["date", "+%s"] => ⟨now, [(.out, toString (t.start + now) ++ "\n")], 0⟩
  | ["sleep", secs] => ⟨now + (number secs).getD 0, [], 0⟩
  | argv => ⟨now, (t.answer argv input now).1, (t.answer argv input now).2⟩

/-- No socket is ever found on the target. -/
def Deaf (t : WaitTarget) : Prop := ∀ args input now, (t.answer ("grep" :: args) input now).2 ≠ 0

end WaitTarget

/-- On no target does the command wait longer than this. -/
def WaitsAtMost (c : Cmd) (secs : Nat) : Prop :=
  ∀ (t : WaitTarget) (s : Shell.State Nat), s.funs = (fun _ => none) →
    Ends t.tools c "" s fun o => o.state.world ≤ s.world + secs

/-- The waits of the commands, one after another, fit the budget. -/
def BudgetCovers (checks : List Assertion) (stepTimeout : Option UInt64) (budget : UInt64) : Prop :=
  ∃ waits : List Nat,
    List.Forall₂ (fun check secs => WaitsAtMost (checkCommand stepTimeout check) secs) checks waits ∧
      waits.sum ≤ budget.toNat

section Target
variable (t : WaitTarget)

theorem tools_other {name : String} (hdate : name ≠ "date") (hsleep : name ≠ "sleep")
    (args : List String) (input : String) (now : Nat) :
    t.tools (name :: args) input now =
      ⟨now, (t.answer (name :: args) input now).1, (t.answer (name :: args) input now).2⟩ := by
  unfold WaitTarget.tools
  split
  · next h => exact absurd (List.cons.inj h).1 hdate
  · next h => exact absurd (List.cons.inj h).1 hsleep
  · rfl

theorem tools_date (input : String) (now : Nat) :
    t.tools ["date", "+%s"] input now = ⟨now, [(.out, toString (t.start + now) ++ "\n")], 0⟩ := rfl

theorem tools_sleep (input : String) (now : Nat) :
    t.tools ["sleep", "2"] input now = ⟨now + 2, [], 0⟩ := by
  have htwo : number "2" = some 2 := number_toString 2
  simp [WaitTarget.tools, htwo]

theorem onlySleeps_tools : OnlySleeps t.tools id := by
  intro argv input now hsleep
  unfold WaitTarget.tools
  split
  · rfl
  · exact absurd rfl hsleep
  · rfl

theorem tellsTime_tools : TellsTime t.tools fun now => t.start + now := by
  intro input now
  simp [tools_date, textOf]

theorem healthTools_tools : HealthTools t.tools where
  seconds := fun input now => ⟨t.start + now, tellsTime_tools t input now⟩
  code := fun args input now => by
    rw [tools_other t (by decide) (by decide)]
    exact t.code args input now
  silent := fun args input now => by
    rw [tools_other t (by decide) (by decide)]
    exact t.silent args input now
  noNumber := fun a b input now h => by
    rw [tools_other t (by decide) (by decide)]
    exact t.noNumber a b input now h

end Target

section PortWait
variable (t : WaitTarget) {i : String} {s : Shell.State Nat}

/-- The wait sleeps two seconds at a time, so it passes an odd deadline by one. -/
def evenSecs (secs : Nat) : Nat := 2 * ((secs + 1) / 2)

theorem probeRun_target (flags port input : String) (now : Nat) :
    (probeRun t.tools flags port input now).world = now ∧
      (t.Deaf → (probeRun t.tools flags port input now).status ≠ 0) := by
  have hsockets : (t.tools ["ss", flags] input now).world = now := by
    rw [tools_other t (by decide) (by decide)]
  rw [probeRun, hsockets, tools_other t (by decide) (by decide)]
  exact ⟨rfl, fun hdeaf => hdeaf _ _ _⟩

theorem afterDate_target (input : String) (now : Nat) : afterDate t.tools input now = now := rfl

/-- The wait is over when the deadline has passed; on a deaf target it takes that long. -/
theorem waitLoop_waits (flags : String) {port : String} {d last : Nat} (n : Nat)
    (hn : d - (t.start + s.world) = n) (hs : Programs s) (hp : s.vars "p" = some port)
    (hd : s.vars "d" = some (toString d)) :
    LoopEnds t.tools (litWords [":"]) (waitRound flags) i last s fun o => o.flow = .ret ∧
      o.state.funs = s.funs ∧ o.state.world ≤ s.world + evenSecs n ∧
        (t.Deaf → o.state.world = s.world + evenSecs n) := by
  induction n using Nat.strong_induction_on generalizing s last with
  | _ n ih =>
    have hcolon : runSimple t.tools (eval t.tools 0) [":"] i s = some (finish s 0 []) := rfl
    refine LoopEnds.step ((litWords_ends hcolon).weaken fun o ho => ?_)
    subst ho
    refine ⟨rfl, rfl, ?_⟩
    have hround := waitRound_runs (i := i) (s := s.setStatus 0) (tellsTime_tools t) hs flags hp hd
    refine hround.weaken fun r hr => ?_
    obtain ⟨hsame, hround⟩ := hr
    obtain ⟨hprobed, hdeaf⟩ := probeRun_target t flags port i s.world
    cases hround with
    | found hflow hstatus hzero hworld =>
      have hstop : r.flow ≠ .next := by rw [hflow]; decide
      rw [if_pos hstop]
      have hnow : r.state.world = s.world := hworld.trans hprobed
      refine ⟨by simp [leaveLoop, hflow], hsame.funs, ?_, fun h => absurd hzero (hdeaf h)⟩
      exact hnow.le.trans (Nat.le_add_right _ _)
    | late hflow hstatus hne hpast hworld =>
      have hstop : r.flow ≠ .next := by rw [hflow]; decide
      rw [if_pos hstop]
      have hnow : r.state.world = s.world := hworld.trans hprobed
      have hpast' : d ≤ t.start + s.world := hpast.trans_eq (congrArg (t.start + ·) hprobed)
      have hzero : n = 0 := by omega
      subst hzero
      exact ⟨by simp [leaveLoop, hflow], hsame.funs, hnow.le, fun _ => hnow⟩
    | slept hflow hne hbefore hworld =>
      rw [if_neg (not_not.mpr hflow)]
      have hnow : r.state.world = s.world + 2 := by
        rw [hworld, tools_sleep, afterDate_target]
        exact congrArg (· + 2) hprobed
      have hbefore' : t.start + s.world < d := hbefore.trans_eq' (congrArg (t.start + ·) hprobed)
      have hrest : LoopEnds t.tools (litWords [":"]) (waitRound flags) i r.state.status r.state _ :=
        ih (d - (t.start + r.state.world)) (by omega) rfl (fun f hf => by
          rw [hsame.funs]; exact hs f hf) (by rw [hsame.vars]; exact hp) (by rw [hsame.vars]; exact hd)
      obtain ⟨m, k, q, hq, hret, hfuns, hle, heq⟩ := hrest
      have hstep : r.state.world + evenSecs (d - (t.start + r.state.world)) = s.world + evenSecs n := by
        unfold evenSecs
        omega
      rw [hstep] at hle heq
      exact ⟨m, k, q, hq, hret, hfuns.trans hsame.funs, hle, heq⟩

theorem portCheck_waits {flags : String} (budget port : Nat) (hs : Programs s)
    (hf : s.funs "sfw_wait_port" = some (waitPort flags)) :
    Ends t.tools (portCheck (toString budget) port) i s fun o => o.flow = .next ∧
      o.state.funs = s.funs ∧ o.state.world ≤ s.world + evenSecs budget ∧
        (t.Deaf → o.state.world = s.world + evenSecs budget) := by
  have hwait : Ends t.tools (waitPort flags) i (s.setArgs [toString port, toString budget]) fun o =>
      o.flow = .ret ∧ o.state.funs = s.funs ∧ o.state.world ≤ s.world + evenSecs budget ∧
        (t.Deaf → o.state.world = s.world + evenSecs budget) := by
    refine waitPort_runs (Q := fun o => o.flow = .ret ∧ o.state.funs = s.funs ∧
      o.state.world ≤ s.world + evenSecs budget ∧
        (t.Deaf → o.state.world = s.world + evenSecs budget))
      (s := s.setArgs [toString port, toString budget]) (tellsTime_tools t) hs rfl
      (fun _ _ hQ => hQ) fun u hfuns hp hd hworld => ?_
    have hnow : u.world = s.world := hworld
    have hs' : Programs u := fun f hprog => by rw [hfuns]; exact hs f hprog
    have hbudget : t.start + s.world + budget - (t.start + u.world) = budget := by
      rw [hnow]
      omega
    have hloop : LoopEnds t.tools (litWords [":"]) (waitRound flags) i 0 u _ :=
      waitLoop_waits t flags budget hbudget hs' hp hd
    rw [hnow, hfuns] at hloop
    exact hloop
  have hcheck := portCheck_runs (P := fun now _ => now ≤ s.world + evenSecs budget ∧
    (t.Deaf → now = s.world + evenSecs budget)) hs hf hwait
  refine hcheck.weaken fun o ho => ?_
  obtain ⟨hflow, hfuns, k, hpost, -⟩ := ho
  exact ⟨hflow, hfuns, hpost⟩

/-- The ports of one check wait one after another. -/
theorem portChecks_wait {flags : String} (budget : Nat) (ports : List Nat) (hs : Programs s)
    (hf : s.funs "sfw_wait_port" = some (waitPort flags)) :
    Ends t.tools (seqAll (ports.map (portCheck (toString budget)))) i s fun o =>
      o.state.world ≤ s.world + ports.length * evenSecs budget ∧
        (t.Deaf → o.state.world = s.world + ports.length * evenSecs budget) := by
  induction ports generalizing s with
  | nil =>
    have hskip : Still t.tools id s.funs (.simple []) := Still.skip
    refine (hskip i s rfl).weaken fun o ho => ?_
    have hnow : o.state.world = s.world := ho.1
    simp [hnow]
  | cons port ports ih =>
    have hfirst := portCheck_waits (i := i) t budget port hs hf
    cases ports with
    | nil =>
      refine hfirst.weaken fun o ho => ?_
      simpa using ho.2.2
    | cons next ports =>
      refine Ends.seq (hfirst.weaken fun o ho => ?_)
      obtain ⟨hflow, hfuns, hle, heq⟩ := ho
      have hs' : Programs o.state := fun f hprog => by rw [hfuns]; exact hs f hprog
      refine ⟨hflow, (ih hs' (by rw [hfuns]; exact hf)).weaken fun r hr => ?_⟩
      obtain ⟨hle', heq'⟩ := hr
      rw [List.length_cons, Nat.succ_mul]
      refine ⟨by rw [Outcome.after_state]; omega, fun h => ?_⟩
      have hfirst' := heq h
      have hrest' := heq' h
      rw [Outcome.after_state]
      omega

end PortWait

section AtOnce
variable {W : Type*} {tools : Tools W} {time : W → Nat} {funs : String → Option Cmd}

@[simp] theorem plain_litWord (text : String) : (litWord text).plain = true := rfl

theorem plain_quoteSegs (cur s : List Char) : (quoteSegs cur s).all Seg.plain = true := by
  induction s generalizing cur with
  | nil => rfl
  | cons c s ih =>
    rw [quoteSegs]
    split
    · rw [List.all_cons, List.all_cons, ih]
      rfl
    · exact ih _

@[simp] theorem plain_quotedText (value : String) : (quotedText value).all Seg.plain = true :=
  plain_quoteSegs [] value.toList

@[simp] theorem plain_joined (segs : List Seg) : (Word.joined segs).plain = segs.all Seg.plain := rfl

@[simp] theorem plain_single (text : String) : (Seg.single text).plain = true := rfl

@[simp] theorem plain_quotedWord (value : String) : (quotedWord value).plain = true :=
  plain_quotedText value

@[simp] theorem plain_quotedVar (name : String) : (quotedVar name).plain = true := rfl

theorem plain_optionWords (options : List (String × String)) :
    (optionWords options).all Word.plain = true := by
  induction options with
  | nil => rfl
  | cons o options ih =>
    have hcons : optionWords (o :: options) = litWord o.1 :: quotedWord o.2 :: optionWords options := rfl
    simp [hcons, ih]

theorem still_seqAll {cs : List Cmd} (h : ∀ c ∈ cs, Still tools time funs c) :
    Still tools time funs (seqAll cs) := by
  induction cs with
  | nil => exact Still.skip
  | cons c cs ih =>
    cases cs with
    | nil => exact h c List.mem_cons_self
    | cons d cs => exact Still.seq (h c List.mem_cons_self) (ih fun e he => h e (List.mem_cons_of_mem c he))

/-- A program of the host: it is neither `sleep` nor a function of the shell. -/
theorem still_words (h : OnlySleeps tools time) {name : String} {texts : List String}
    (hname : name ∉ special) (hsleep : name ≠ "sleep") (hf : funs name = none) :
    Still tools time funs (litWords (name :: texts)) :=
  Still.program h hname hsleep hf (by simp)

theorem still_echoText (h : OnlySleeps tools time) (hf : funs "echo" = none) (text : String) :
    Still tools time funs (echoText text) :=
  Still.program h (by decide) (by decide) hf rfl

theorem still_systemctlCheck (h : OnlySleeps tools time) (hf : ∀ f, funs f = none)
    (verb said unit state : String) :
    Still tools time funs (systemctlCheck verb said unit state) := by
  have hstate : ∀ rest : List Part, rest.all Part.plain = true →
      Still tools time funs (echoState unit said rest) := by
    intro rest hrest
    exact Still.program h (by decide) (by decide) (hf "echo") (by simp [Seg.plain, Part.plain, hrest])
  have hquery : Still tools time funs
      (.simple [litWord "systemctl", litWord verb, quotedWord unit]) :=
    Still.program h (by decide) (by decide) (hf "systemctl") (by simp)
  have htest : Still tools time funs
      (.simple [litWord "[", quotedVar "s", litWord "=", quotedWord state, litWord "]"]) :=
    Still.program h (by decide) (by decide) (hf "[") (by simp)
  have hfalse : Still tools time funs (litWords ["false"]) :=
    still_words h (by decide) (by decide) (hf "false")
  exact Still.seq (Still.assign_subst (Still.redirect hquery))
    (Still.cond htest (hstate [] rfl) (Still.seq (hstate _ rfl) hfalse))

theorem still_helperCheck (h : OnlySleeps tools time) (hf : ∀ f, funs f = none)
    (verb directive operand : String) {options : List Word} (hoptions : options.all Word.plain = true) :
    Still tools time funs (helperCheck verb directive operand options) := by
  have htest : Still tools time funs
      (.simple [litWord "[", litWord "-x", quotedWord helperPath, litWord "]"]) :=
    Still.program h (by decide) (by decide) (hf "[") (by simp)
  have hexec : Still tools time funs (.simple (litWord "exec" :: quotedWord helperPath ::
      ([litWord "host", litWord verb, quotedWord operand] ++ options))) :=
    Still.exec h (fun ev i s => expandText_quotedText ev i helperPath s) rfl (by decide)
      (by simp [hoptions])
  have hfalse : Still tools time funs (litWords ["false"]) :=
    still_words h (by decide) (by decide) (hf "false")
  exact Still.seq (Still.when htest hexec) (Still.seq (still_echoText h (hf "echo") _) hfalse)

theorem still_renderedCommand (h : OnlySleeps tools time) (hf : ∀ f, funs f = none) (path : String) :
    Still tools time funs (renderedCommand path) := by
  have htest : Still tools time funs (testFile path) :=
    Still.program h (by decide) (by decide) (hf "sudo")
      (by simp)
  have hgrep : Still tools time funs (grepFile renderedPattern path) :=
    Still.program h (by decide) (by decide) (hf "sudo")
      (by simp)
  have hecho : ∀ text, Still tools time funs (echoQuoted path text) := fun text =>
    Still.program h (by decide) (by decide) (hf "echo")
      (by simp)
  have hfalse : Still tools time funs (litWords ["false"]) :=
    still_words h (by decide) (by decide) (hf "false")
  exact Still.cond (Still.and htest (Still.not (Still.redirect hgrep))) (hecho _)
    (Still.seq (hecho _) hfalse)

theorem still_probeSockets (h : OnlySleeps tools time) (hss : funs "ss" = none)
    (hgrep : funs "grep" = none) (flags : String) : Still tools time funs (probeSockets flags) :=
  Still.pipe (Still.redirect (still_words h (by decide) (by decide) hss))
    (Still.program h (by decide) (by decide) hgrep rfl)

/-- The programs of a `PortFree` check, none of which is its function. -/
theorem still_occupant (h : OnlySleeps tools time)
    (hf : ∀ f, f ≠ "sfw_occupant" → funs f = none) : Still tools time funs occupant := by
  have hgrep : ∀ before after, Still tools time funs
      (.simple [litWord "grep", litWord "-E", portPattern before after]) := fun _ _ =>
    Still.program h (by decide) (by decide) (hf "grep" (by decide)) rfl
  have hhead : ∀ count, Still tools time funs (litWords ["head", count]) := fun _ =>
    still_words h (by decide) (by decide) (hf "head" (by decide))
  have hss : Still tools time funs (litWords ["ss", "-ltnp"]) :=
    still_words h (by decide) (by decide) (hf "ss" (by decide))
  have hsudo : Still tools time funs (litWords ["sudo", "-n", "nft", "list", "ruleset"]) :=
    still_words h (by decide) (by decide) (hf "sudo" (by decide))
  have hnft : Still tools time funs (litWords ["nft", "list", "ruleset"]) :=
    still_words h (by decide) (by decide) (hf "nft" (by decide))
  have hpodman : Still tools time funs (.simple [litWord "podman", litWord "ps", litWord "--format",
      .joined [.single "\x7b\x7b.Names\x7d\x7d \x7b\x7b.Ports\x7d\x7d"]]) :=
    Still.program h (by decide) (by decide) (hf "podman" (by decide)) rfl
  have htrue : Still tools time funs (litWords ["true"]) :=
    still_words h (by decide) (by decide) (hf "true" (by decide))
  have hbehind : ∀ {c : Cmd} before after count, Still tools time funs c → Still tools time funs
      (.pipe c (.pipe (.simple [litWord "grep", litWord "-E", portPattern before after])
        (litWords ["head", count]))) :=
    fun before after count hc => Still.pipe hc (Still.pipe (hgrep before after) (hhead count))
  refine Still.seq (Still.assign rfl) (Still.seq (hbehind _ _ _ (Still.redirect hss)) ?_)
  refine Still.seq (hbehind _ _ _ (Still.subshell (Still.or (Still.redirect hsudo)
    (Still.redirect hnft)))) ?_
  refine Still.seq (hbehind _ _ _ (Still.subshell (Still.or (Still.redirect hpodman) htrue))) ?_
  exact Still.ret "0"

theorem still_portFreeCheck (h : OnlySleeps tools time)
    (hf : ∀ f, f ≠ "sfw_occupant" → funs f = none) (hown : funs "sfw_occupant" = some occupant)
    (port : Nat) : Still tools time funs (portFreeCheck port) := by
  have hecho : ∀ text, Still tools time funs (echoText text) :=
    still_echoText h (hf "echo" (by decide))
  have hcall : Still tools time funs (litWords ["sfw_occupant", toString port]) :=
    Still.call (by decide) hown rfl (still_occupant h hf)
  have hfalse : Still tools time funs (litWords ["false"]) :=
    still_words h (by decide) (by decide) (hf "false" (by decide))
  exact Still.cond (still_probeSockets h (hf "ss" (by decide)) (hf "grep" (by decide)) _)
    (Still.seq (hecho _) (Still.seq hcall hfalse)) (hecho _)

end AtOnce

section Waits

@[simp] theorem setFun_self {W : Type*} (s : Shell.State W) (name : String) (c : Cmd) :
    (s.setFun name c).funs name = some c := if_pos rfl

theorem waitsAtMost_of_still {c : Cmd} (secs : Nat)
    (h : ∀ t : WaitTarget, Still t.tools id (fun _ => none) c) : WaitsAtMost c secs := by
  intro t s hs
  refine (h t "" s hs).weaken fun o ho => ?_
  have hnow : o.state.world = s.world := ho.1
  exact hnow.le.trans (Nat.le_add_right _ _)

theorem waitsAtMost_portFree (ports : List Nat) (secs : Nat) :
    WaitsAtMost (portFreeCommand ports) secs := by
  intro t s hs
  refine Ends.seq (Ends.fn ⟨rfl, ?_⟩)
  have hf : ∀ f, f ≠ "sfw_occupant" → (s.setFun "sfw_occupant" occupant).funs f = none := by
    intro f hne
    exact (if_neg hne).trans (congrFun hs f)
  have hchecks : Still t.tools id (s.setFun "sfw_occupant" occupant).funs
      (seqAll (ports.map portFreeCheck)) := by
    refine still_seqAll fun c hc => ?_
    obtain ⟨port, -, rfl⟩ := List.mem_map.mp hc
    exact still_portFreeCheck (onlySleeps_tools t) hf (setFun_self s _ _) port
  refine (hchecks "" ((s.setFun "sfw_occupant" occupant).setStatus 0) rfl).weaken fun o ho => ?_
  have hnow : o.state.world = s.world := ho.1
  exact hnow.le.trans (Nat.le_add_right _ _)

/-- A target on which nothing ever listens or answers. -/
def deafTarget : WaitTarget where
  start := 0
  answer := fun argv _ _ =>
    match argv with
    | "curl" :: _ => ([(.out, "000")], 0)
    | "grep" :: _ => ([], 1)
    | "[" :: _ => ([], 2)
    | _ => ([], 0)
  code := fun _ _ _ => threeDigits_000
  silent := fun _ _ _ => rfl
  noNumber := fun _ _ _ _ _ => Nat.succ_ne_zero 1

theorem deaf_deafTarget : deafTarget.Deaf := fun _ _ _ => Nat.one_ne_zero

/-- A `Port` check waits for each of its ports as long as the timeout says. -/
theorem waitsAtMost_port {ports : List Nat} {udp : Bool} {stepTimeout : Option Nat} {secs : Nat} :
    WaitsAtMost (portCommand ports udp stepTimeout) secs ↔
      ports.length * evenSecs (stepTimeout.getD defaultPortTimeoutSecs) ≤ secs := by
  have hrun : ∀ (t : WaitTarget) (s : Shell.State Nat), s.funs = (fun _ => none) →
      Ends t.tools (portCommand ports udp stepTimeout) "" s fun o =>
        o.state.world ≤ s.world +
            ports.length * evenSecs (stepTimeout.getD defaultPortTimeoutSecs) ∧
          (t.Deaf → o.state.world = s.world +
            ports.length * evenSecs (stepTimeout.getD defaultPortTimeoutSecs)) := by
    intro t s hs
    refine Ends.seq (Ends.fn ⟨rfl, ?_⟩)
    generalize (if udp then "-uln" else "-tln") = flags
    have hs' : Programs ((s.setFun "sfw_wait_port" (waitPort flags)).setStatus 0) :=
      programs_setFun (fun f => congrFun hs f) (by decide)
    have hown := setFun_self s "sfw_wait_port" (waitPort flags)
    exact portChecks_wait t _ ports hs' hown
  constructor
  · intro h
    obtain ⟨n, o, ho, hle, heq⟩ := hrun deafTarget (startShell 0) rfl
    have hsecs := (h deafTarget (startShell 0) rfl).of_eval ho
    rw [heq deaf_deafTarget] at hsecs
    simpa [startShell] using hsecs
  · intro h t s hs
    refine (hrun t s hs).weaken fun o ho => ho.1.trans ?_
    exact Nat.add_le_add_left h _

end Waits

section Declared
open Fallible

/-- A check that some directive declares. -/
def Declared (check : Assertion) : Prop :=
  ∃ entry ∈ State.assertionParsers, ∃ payload line target,
    entry.2 payload line = .ok (target, check)

/-- The directive of a check. -/
def Assertion.keyword : Assertion → String
  | .unitState _ _ => "assert"
  | .enabled _ _ => "assert_enabled"
  | .health _ _ _ _ _ => "assert_health"
  | .port _ _ => "assert_port"
  | .portFree _ => "assert_port_free"
  | .rendered _ => "assert_rendered"
  | .noLeak _ _ => "assert_no_leak"
  | .digest _ _ _ => "assert_digest"
  | .credstore _ => "assert_credstore"

theorem keyword_of_parse {entry : String × (String → Nat → Except ParseError (Option String × Assertion))}
    {payload : String} {line : Nat} {target : Option String} {check : Assertion}
    (hentry : entry ∈ State.assertionParsers) (h : entry.2 payload line = .ok (target, check)) :
    entry.1 = check.keyword := by
  simp only [State.assertionParsers, List.mem_cons, List.not_mem_nil, or_false] at hentry
  rcases hentry with rfl | rfl | rfl | rfl | rfl | rfl | rfl | rfl | rfl
  · obtain ⟨_, -, h⟩ := bind_eq_ok.mp h
    obtain ⟨_, -, h⟩ := bind_eq_ok.mp h
    obtain ⟨_, -, h⟩ := bind_eq_ok.mp h
    obtain ⟨_, -, h⟩ := bind_eq_ok.mp h
    cases h
    rfl
  · obtain ⟨_, -, h⟩ := bind_eq_ok.mp h
    obtain ⟨_, -, h⟩ := bind_eq_ok.mp h
    obtain ⟨_, -, h⟩ := bind_eq_ok.mp h
    obtain ⟨_, -, h⟩ := bind_eq_ok.mp h
    cases h
    rfl
  · obtain ⟨_, -, h⟩ := bind_eq_ok.mp h
    cases h
    rfl
  · obtain ⟨_, -, h⟩ := bind_eq_ok.mp h
    cases h
    rfl
  · obtain ⟨_, -, h⟩ := bind_eq_ok.mp h
    obtain ⟨_, -, h⟩ := bind_eq_ok.mp h
    obtain ⟨_, -, h⟩ := bind_eq_ok.mp h
    obtain ⟨_, -, h⟩ := bind_eq_ok.mp h
    obtain ⟨_, -, h⟩ := bind_eq_ok.mp h
    cases h
    rfl
  · obtain ⟨⟨_, _⟩, -, h⟩ := bind_eq_ok.mp h
    obtain ⟨_, -, h⟩ := bind_eq_ok.mp h
    obtain ⟨_, -, h⟩ := bind_eq_ok.mp h
    cases h
    rfl
  · obtain ⟨⟨_, _⟩, -, h⟩ := bind_eq_ok.mp h
    obtain ⟨_, -, h⟩ := bind_eq_ok.mp h
    obtain ⟨_, -, h⟩ := bind_eq_ok.mp h
    obtain ⟨_, -, h⟩ := bind_eq_ok.mp h
    cases h
    rfl
  · obtain ⟨⟨_, _⟩, -, h⟩ := bind_eq_ok.mp h
    obtain ⟨⟨_, _⟩, -, h⟩ := bind_eq_ok.mp h
    obtain ⟨_, -, h⟩ := bind_eq_ok.mp h
    obtain ⟨_, -, h⟩ := bind_eq_ok.mp h
    cases h
    rfl
  · obtain ⟨⟨_, _⟩, -, h⟩ := bind_eq_ok.mp h
    obtain ⟨_, -, h⟩ := bind_eq_ok.mp h
    obtain ⟨_, -, h⟩ := bind_eq_ok.mp h
    cases h
    rfl

theorem lookup_assertionParsers
    {entry : String × (String → Nat → Except ParseError (Option String × Assertion))}
    (hentry : entry ∈ State.assertionParsers) :
    State.assertionParsers.lookup entry.1 = some entry.2 := by
  simp only [State.assertionParsers, List.mem_cons, List.not_mem_nil, or_false] at hentry
  rcases hentry with rfl | rfl | rfl | rfl | rfl | rfl | rfl | rfl | rfl <;> rfl

/-- The parser of its directive has built the check. -/
theorem parse_of_declared {check : Assertion} (h : Declared check) :
    ∃ parse payload line target, State.assertionParsers.lookup check.keyword = some parse ∧
      parse payload line = .ok (target, check) := by
  obtain ⟨entry, hentry, payload, line, target, h⟩ := h
  exact ⟨entry.2, payload, line, target,
    keyword_of_parse hentry h ▸ lookup_assertionParsers hentry, h⟩

theorem statusPatterns_of_declared {url : String} {expect : List String} {method body : Option String}
    {headers : List String} (h : Declared (.health url expect method body headers)) :
    StatusPatterns expect := by
  obtain ⟨parse, payload, line, target, hlookup, h⟩ := parse_of_declared h
  cases hlookup
  exact statusPatterns_of_parse h

end Declared

section Covers

/-- The ports a check waits for. -/
def Assertion.portGroup : Assertion → Option (List Nat)
  | .port ports _ => some ports
  | _ => none

/-- The status codes a health check accepts. -/
def Assertion.healthExpect : Assertion → Option (List String)
  | .health _ expect _ _ _ => some expect
  | _ => none

/-- The ports of the `Port` checks, check by check. -/
def portGroups (checks : List Assertion) : List (List Nat) := checks.filterMap Assertion.portGroup

def timeoutSecs (stepTimeout : Option UInt64) : Nat := (stepTimeout.getD 60).toNat

/-- How long the wait of a check without a health probe can get. -/
def longestWait (stepTimeout : Option UInt64) (check : Assertion) : Nat :=
  (check.portGroup.getD []).length * evenSecs (timeoutSecs stepTimeout)

theorem timeoutSecs_eq (stepTimeout : Option UInt64) :
    (stepTimeout.map UInt64.toNat).getD defaultPortTimeoutSecs = timeoutSecs stepTimeout := by
  cases stepTimeout <;> rfl

/-- What is resolved in a check is neither its ports nor what it accepts. -/
theorem interpolateCheck_keeps {check resolved : Assertion} {vars : String → Option String}
    (h : interpolateCheck check vars = .ok resolved) :
    resolved.portGroup = check.portGroup ∧ resolved.healthExpect = check.healthExpect := by
  have hmap : ∀ {text : String} {f : String → Assertion},
      (interpolate text vars).map f = .ok resolved → ∃ value, f value = resolved := by
    intro text f h
    obtain ⟨value, -, hvalue⟩ := Fallible.map_eq_ok.mp h
    exact ⟨value, hvalue⟩
  cases check with
  | rendered path | enabled unit state | noLeak unit lines | digest path sha256 localPath
    | health url expect method body headers =>
    obtain ⟨value, rfl⟩ := hmap h
    exact ⟨rfl, rfl⟩
  | unitState unit state | port ports udp | portFree ports | credstore service =>
    cases h
    exact ⟨rfl, rfl⟩

/-- How long the command of one check waits. -/
theorem waitsAtMost_iff {check : Assertion} (stepTimeout : Option UInt64) {secs : Nat}
    (hexpect : ∀ expect, check.healthExpect = some expect → StatusPatterns expect) :
    WaitsAtMost (checkCommand stepTimeout check) secs ↔
      check.healthExpect = none ∧ longestWait stepTimeout check ≤ secs := by
  have hnone : ∀ {c : Cmd}, (∀ t : WaitTarget, Still t.tools id (fun _ => none) c) →
      (WaitsAtMost c secs ↔ (none : Option (List String)) = none ∧
        ([] : List Nat).length * evenSecs (timeoutSecs stepTimeout) ≤ secs) := by
    intro c hc
    simp [waitsAtMost_of_still secs hc]
  have hfree : ∀ f : String, (fun _ => none : String → Option Cmd) f = none := fun _ => rfl
  cases check with
  | unitState unit state =>
    exact hnone fun t => still_systemctlCheck (onlySleeps_tools t) hfree _ _ _ _
  | enabled unit state =>
    exact hnone fun t => still_systemctlCheck (onlySleeps_tools t) hfree _ _ _ _
  | rendered path => exact hnone fun t => still_renderedCommand (onlySleeps_tools t) hfree path
  | noLeak unit lines =>
    exact hnone fun t => still_helperCheck (onlySleeps_tools t) hfree _ _ _ rfl
  | digest path sha256 localPath =>
    exact hnone fun t => still_helperCheck (onlySleeps_tools t) hfree _ _ _ (plain_optionWords _)
  | credstore service =>
    exact hnone fun t => still_helperCheck (onlySleeps_tools t) hfree _ _ _ rfl
  | portFree ports =>
    have hlong : longestWait stepTimeout (.portFree ports) = 0 := Nat.zero_mul _
    rw [hlong]
    exact ⟨fun _ => ⟨rfl, Nat.zero_le _⟩, fun _ => waitsAtMost_portFree ports secs⟩
  | port ports udp =>
    have hwait : WaitsAtMost (checkCommand stepTimeout (.port ports udp)) secs ↔
        ports.length * evenSecs ((stepTimeout.map UInt64.toNat).getD defaultPortTimeoutSecs) ≤ secs :=
      waitsAtMost_port
    rw [hwait, timeoutSecs_eq]
    exact ⟨fun h => ⟨rfl, h⟩, fun h => h.2⟩
  | health url expect method body headers =>
    refine ⟨fun h => ?_, fun h => by cases h.1⟩
    have hhangs := healthCommand_hangs (i := "") (s := startShell 0) (healthTools_tools deafTarget)
      (hexpect expect rfl) url method body headers (stepTimeout.map UInt64.toNat) rfl
    exact absurd (h deafTarget (startShell 0) rfl) hhangs.not_ends

/-- Bounds for each element fit a total if and only if the least ones do. -/
theorem exists_bounds_iff {α : Type*} {R : α → Nat → Prop} {ok : α → Prop} {f : α → Nat}
    {l : List α} (h : ∀ a ∈ l, ∀ n, R a n ↔ ok a ∧ f a ≤ n) (total : Nat) :
    (∃ ns : List Nat, List.Forall₂ R l ns ∧ ns.sum ≤ total) ↔
      (∀ a ∈ l, ok a) ∧ (l.map f).sum ≤ total := by
  constructor
  · rintro ⟨ns, hall, hsum⟩
    induction hall generalizing total with
    | nil => exact ⟨by simp, Nat.zero_le _⟩
    | @cons a n l ns ha hall ih =>
      obtain ⟨hok, hle⟩ := (h a List.mem_cons_self n).mp ha
      rw [List.sum_cons] at hsum
      obtain ⟨hoks, hrest⟩ := ih (fun b hb => h b (List.mem_cons_of_mem a hb)) (total - n) (by omega)
      refine ⟨List.forall_mem_cons.mpr ⟨hok, hoks⟩, ?_⟩
      rw [List.map_cons, List.sum_cons]
      omega
  · rintro ⟨hok, hsum⟩
    refine ⟨l.map f, List.forall₂_map_right_iff.mpr (List.forall₂_same.mpr fun a ha => ?_), hsum⟩
    exact (h a ha (f a)).mpr ⟨hok a ha, Nat.le_refl _⟩

theorem sum_longestWait (stepTimeout : Option UInt64) (checks : List Assertion) :
    (checks.map (longestWait stepTimeout)).sum =
      (portGroups checks).flatten.length * evenSecs (timeoutSecs stepTimeout) := by
  induction checks with
  | nil => simp [portGroups]
  | cons check checks ih =>
    rw [List.map_cons, List.sum_cons, ih, longestWait, portGroups, portGroups, List.filterMap_cons]
    cases check.portGroup with
    | none => simp
    | some ports => simp [Nat.add_mul]

theorem toNat_checkBudget (stepTimeout : Option UInt64) {check : Assertion}
    (h : check.healthExpect = none) :
    (checkBudget check stepTimeout).toNat =
      check.portGroup.toList.length * timeoutSecs stepTimeout := by
  cases check with
  | health url expect method body headers => cases h
  | port ports udp => exact (Nat.one_mul _).symm
  | unitState | enabled | rendered | noLeak | digest | credstore | portFree =>
    exact (Nat.zero_mul _).symm

theorem length_portGroups_cons (check : Assertion) (checks : List Assertion) :
    (portGroups (check :: checks)).length =
      check.portGroup.toList.length + (portGroups checks).length := by
  rw [portGroups, List.filterMap_cons]
  cases check.portGroup with
  | none => exact (Nat.zero_add _).symm
  | some ports => exact Nat.add_comm _ _

/-- The budget of a step without health checks. -/
theorem toNat_waitBudget (stepTimeout : Option UInt64) {checks : List Assertion}
    (h : ∀ check ∈ checks, check.healthExpect = none) :
    (waitBudget checks stepTimeout).toNat =
      ((portGroups checks).length * timeoutSecs stepTimeout + 15) % UInt64.size := by
  have hsum : ∀ acc : UInt64, (checks.foldl (fun sum check => sum + checkBudget check stepTimeout)
      acc).toNat = (acc.toNat + (portGroups checks).length * timeoutSecs stepTimeout) % UInt64.size := by
    induction checks with
    | nil =>
      intro acc
      simp [portGroups, Nat.mod_eq_of_lt acc.toNat_lt]
    | cons check checks ih =>
      intro acc
      obtain ⟨hcheck, hrest⟩ := List.forall_mem_cons.mp h
      rw [List.foldl_cons, ih hrest, UInt64.toNat_add, toNat_checkBudget stepTimeout hcheck,
        length_portGroups_cons, Nat.add_mul, ← Nat.add_assoc]
      exact Nat.mod_add_mod _ _ _
  have hzero : (0 : UInt64).toNat = 0 := rfl
  rw [waitBudget, UInt64.toNat_add, hsum 0, hzero, Nat.zero_add]
  exact Nat.mod_add_mod _ _ _

/-- What a check keeps when it is resolved, the checks of a step keep. -/
theorem resolveChecks_map {checks resolved : List Assertion} {vars : String → Option String}
    {β : Type} (g : Assertion → β)
    (hg : ∀ check result, interpolateCheck check vars = .ok result → g result = g check)
    (h : resolveChecks checks vars = .ok resolved) : resolved.map g = checks.map g := by
  have hpairs := Fallible.mapM_forall₂ h
  clear h
  induction hpairs with
  | nil => rfl
  | cons hcheck _ ih => rw [List.map_cons, List.map_cons, hg _ _ hcheck, ih]

/-- The transport waits long enough unless a check probes a URL, whose wait never ends, or the ports
together need more time than their checks are given. -/
theorem budget_covers_iff (checks : List Assertion) (hdeclared : ∀ check ∈ checks, Declared check)
    (vars : String → Option String) (resolved : List Assertion)
    (hresolved : resolveChecks checks vars = .ok resolved) (stepTimeout : Option UInt64) :
    BudgetCovers resolved stepTimeout (waitBudget checks stepTimeout) ↔
      (∀ check ∈ checks, check.healthExpect = none) ∧
        (portGroups checks).flatten.length * evenSecs (timeoutSecs stepTimeout) ≤
          ((portGroups checks).length * timeoutSecs stepTimeout + 15) % UInt64.size := by
  have hexpects : resolved.map Assertion.healthExpect = checks.map Assertion.healthExpect :=
    resolveChecks_map _ (fun _ _ h => (interpolateCheck_keeps h).2) hresolved
  have hgroups : resolved.map Assertion.portGroup = checks.map Assertion.portGroup :=
    resolveChecks_map _ (fun _ _ h => (interpolateCheck_keeps h).1) hresolved
  have hpatterns : ∀ check ∈ resolved, ∀ expect, check.healthExpect = some expect →
      StatusPatterns expect := by
    intro check hcheck expect hexpect
    have hmem : some expect ∈ checks.map Assertion.healthExpect := by
      rw [← hexpects, ← hexpect]
      exact List.mem_map_of_mem hcheck
    obtain ⟨declared, hdecl, hsame⟩ := List.mem_map.mp hmem
    have hof := hdeclared declared hdecl
    cases declared with
    | health url codes method body headers =>
      cases hsame
      exact statusPatterns_of_declared hof
    | unitState | enabled | port | portFree | rendered | noLeak | digest | credstore => cases hsame
  have hok : (∀ check ∈ resolved, check.healthExpect = none) ↔
      ∀ check ∈ checks, check.healthExpect = none := by
    rw [← List.forall_mem_map (P := fun e => e = none), hexpects, List.forall_mem_map]
  have hports : portGroups resolved = portGroups checks := by
    have hmap : ∀ l : List Assertion, portGroups l = (l.map Assertion.portGroup).filterMap id :=
      fun l => by rw [List.filterMap_map]; rfl
    rw [hmap, hmap, hgroups]
  have hbounds := exists_bounds_iff (f := longestWait stepTimeout) (fun check hcheck _ =>
    waitsAtMost_iff stepTimeout (hpatterns check hcheck)) (waitBudget checks stepTimeout).toNat
  rw [BudgetCovers, hbounds, hok, sum_longestWait, hports]
  refine and_congr_right fun hnone => ?_
  rw [toNat_waitBudget stepTimeout hnone]

theorem declared_ports :
    ∀ check ∈ [Assertion.port [8080] false, .portFree [9090]], Declared check := by
  rw [List.forall_mem_cons, List.forall_mem_singleton]
  refine ⟨⟨("assert_port", parseAssertPort), ?_, "8080", 1, none, by decide +kernel⟩,
    ⟨("assert_port_free", parseAssertPortFree), ?_, "9090", 1, none, by decide +kernel⟩⟩
  · simp [State.assertionParsers]
  · simp [State.assertionParsers]

theorem budget_covers_one_port :
    BudgetCovers [.port [8080] false, .portFree [9090]] (some 31)
        (waitBudget [.port [8080] false, .portFree [9090]] (some 31)) ↔
      (∀ check ∈ [Assertion.port [8080] false, .portFree [9090]], check.healthExpect = none) ∧
        (portGroups [.port [8080] false, .portFree [9090]]).flatten.length *
            evenSecs (timeoutSecs (some 31)) ≤
          ((portGroups [.port [8080] false, .portFree [9090]]).length * timeoutSecs (some 31) + 15) %
            UInt64.size :=
  budget_covers_iff _ declared_ports (fun _ => none) _ rfl (some 31)

/-- Two ports of one check may take a minute each, and the transport gives up after 75 seconds. -/
theorem budget_misses_two_ports :
    Declared (.port [8080, 9090] false) ∧
      waitBudget [.port [8080, 9090] false] none = 75 ∧
      ¬ BudgetCovers [.port [8080, 9090] false] none (waitBudget [.port [8080, 9090] false] none) := by
  refine ⟨⟨("assert_port", parseAssertPort), by simp [State.assertionParsers], "8080,9090", 1, none,
    by decide +kernel⟩, rfl, ?_⟩
  rintro ⟨waits, hwaits, hsum⟩
  cases hwaits with
  | cons hfirst hrest =>
    cases hrest
    have hlong := waitsAtMost_port.mp hfirst
    have hneed : [8080, 9090].length * evenSecs ((none : Option Nat).getD defaultPortTimeoutSecs) = 120 :=
      rfl
    have hbudget : (waitBudget [.port [8080, 9090] false] none).toNat = 75 := rfl
    rw [List.sum_singleton, hbudget] at hsum
    have hgap : 120 ≤ 75 := hneed ▸ hlong.trans hsum
    exact absurd hgap (by decide)

end Covers

end Shellflow
