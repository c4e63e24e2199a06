import Shellflow.Executor.AssertPorts

/-! What a port check does, whatever the programs of the target do: each step is given by the
programs it runs. -/
namespace Shellflow
open Shell
variable {W : Type*}

/-- The programs of a check, none of which is a function of the shell. -/
def programs : List String := ["ss", "grep", "date", "sleep", "[", "echo", "false"]

def Programs (s : Shell.State W) : Prop := ∀ f ∈ programs, s.funs f = none

section Steps
variable {tools : Tools W} {clock : W → Nat} {i : String} {s : Shell.State W}

theorem expandWords_lit (ev : Eval W) (i : String) (texts : List String) (s : Shell.State W) :
    expandWords ev i (texts.map litWord) s = some ⟨texts, s.world, [], none⟩ := by
  induction texts with
  | nil => rfl
  | cons text texts ih =>
    rw [List.map_cons, expandWords]
    simp [litWord, expandText, expandSegs, expandSeg, Expansion.join, Word.fields, ih]

/-- A command whose words are literals runs as the program its first word names. -/
theorem litWords_ends {argv : List String} {o : Outcome W}
    (hr : runSimple tools (eval tools 0) argv i s = some o) :
    Ends tools (litWords argv) i s fun r => r = o :=
  Ends.plain (expandWords_lit _ i argv s) hr rfl

/-- The search of the sockets for a port. -/
def probeRun (tools : Tools W) (flags port input : String) (w : W) : ToolRun W :=
  let sockets := tools ["ss", flags] input w
  tools ["grep", "-qE", ":" ++ (port ++ "[[:space:]]")] (textOf .out sockets.out) sockets.world

/-- The world after the clock was read. -/
def afterDate (tools : Tools W) (input : String) (w : W) : W := (tools ["date", "+%s"] input w).world

/-- `date` prints the seconds of a clock. -/
def TellsTime (tools : Tools W) (clock : W → Nat) : Prop :=
  ∀ input w, textOf .out (tools ["date", "+%s"] input w).out = toString (clock w) ++ "\n"

theorem probeSockets_runs (hs : Programs s) (flags : String) {port : String}
    (hp : (s.vars "p").getD "" = port) :
    Ends tools (probeSockets flags) i s fun o => o.flow = .next ∧
      o.state = (s.setWorld (probeRun tools flags port i s.world).world).setStatus
        (probeRun tools flags port i s.world).status := by
  have hss : runSimple tools (eval tools 0) ["ss", flags] i s =
      some (runTool tools ["ss", flags] i s) := by
    simp [runSimple, hs "ss" (by decide), runPlain]
  refine Ends.pipe (Ends.redirect ((litWords_ends hss).weaken fun o ho => ?_))
  subst ho
  rw [textOf_errNull]
  have hwords : ∀ (i : String) (w : W),
      expandWords (eval tools 0) i [litWord "grep", litWord "-qE", portPattern ":" "[[:space:]]"]
        (s.setWorld w) =
      some ⟨["grep", "-qE", ":" ++ (port ++ "[[:space:]]")], w, [], none⟩ := by
    intro i w
    simp [litWord, portPattern, expandWords, expandText, expandSegs, expandSeg, expandParts,
      expandPart, Expansion.join, Word.fields, Shell.State.setWorld, hp]
  have hgrep : ∀ (i : String) (w : W),
      runSimple tools (eval tools 0) ["grep", "-qE", ":" ++ (port ++ "[[:space:]]")] i
        (s.setWorld w) =
      some (runTool tools ["grep", "-qE", ":" ++ (port ++ "[[:space:]]")] i (s.setWorld w)) := by
    intro i w
    simp [runSimple, Shell.State.setWorld, hs "grep" (by decide), runPlain]
  exact Ends.plain (hwords _ _) (hgrep _ _) ⟨rfl, rfl⟩

/-- `$(date +%s)` is the time in seconds. -/
theorem expandClock (h : TellsTime tools clock) (hs : Programs s) :
    ∃ n e, expandPart (eval tools n) i (.subst readClock) s = some e ∧
      e.text = toString (clock s.world) ∧ e.world = afterDate tools i s.world := by
  have hdate : runSimple tools (eval tools 0) ["date", "+%s"] i s =
      some (runTool tools ["date", "+%s"] i s) := by
    simp [runSimple, hs "date" (by decide), runPlain]
  obtain ⟨n, o, ho, hrun⟩ := litWords_ends hdate
  subst hrun
  refine ⟨n, _, by rw [expandPart, readClock, ho, Option.map_some], ?_, rfl⟩
  have htext : textOf .out (runTool tools ["date", "+%s"] i s).out =
      toString (clock s.world) ++ "\n" := h _ _
  dsimp only
  rw [htext, trimNewlines_line (getLast?_toString_ne _)]

theorem deadlineTest_runs (h : TellsTime tools clock) (hs : Programs s) {d : Nat}
    (hd : s.vars "d" = some (toString d)) :
    Ends tools deadlineTest i s fun o => o.flow = .next ∧
      o.state = (s.setWorld (afterDate tools i s.world)).setStatus
        (statusOf (decide (d ≤ clock s.world))) := by
  obtain ⟨n, e, he, htext, hworld⟩ := expandClock (i := i) h hs
  have hbound : expandWords (eval tools n) i [litWord "-ge", quotedVar "d", litWord "]"]
      (s.setWorld e.world) = some ⟨["-ge", toString d, "]"], e.world, [], none⟩ := by
    simp [litWord, quotedVar, expandWords, expandText, expandSegs, expandSeg, expandParts,
      expandPart, Expansion.join, Word.fields, Shell.State.setWorld, hd]
  have hwords : expandWords (eval tools n) i [litWord "[", .joined [.double [.subst readClock]],
        litWord "-ge", quotedVar "d", litWord "]"] s =
      some ⟨["[", e.text, "-ge", toString d, "]"], e.world, [] ++ (e.out ++ []),
        ((none : Option Nat).or e.status).or none⟩ :=
    expandWords_joined (x := ⟨"[", s.world, [], none⟩) (by simp [expandText, expandSegs,
      expandSeg, Expansion.join]) (expandWords_joined (expandText_quoted he) hbound)
  have htest : runSimple tools (eval tools 0) ["[", e.text, "-ge", toString d, "]"] i
        (s.setWorld e.world) =
      some (finish (s.setWorld e.world) (statusOf (decide (d ≤ clock s.world))) []) := by
    have hnone : (s.setWorld e.world).funs "[" = none := hs "[" (by decide)
    rw [htext, runSimple_plain (by decide) hnone]
    simp [runPlain]
  refine Ends.simple hwords htest ⟨rfl, ?_⟩
  rw [← hworld]
  rfl

theorem return_ends {text : String} {k : Nat} (hk : number text = some k) :
    Ends tools (litWords ["return", text]) i s fun o => o = ⟨s.setStatus k, [], .ret⟩ := by
  have hrun : runSimple tools (eval tools 0) ["return", text] i s =
      some ⟨s.setStatus k, [], .ret⟩ := by
    simp [runSimple, statusArg, hk]
  exact litWords_ends hrun

/-- Nothing but the world and the status has changed. -/
structure SameShell (s t : Shell.State W) : Prop where
  vars : t.vars = s.vars
  funs : t.funs = s.funs
  args : t.args = s.args

/-- How one round of the wait ends: with a listening port, after the deadline, or asleep. -/
inductive RoundEnds (tools : Tools W) (clock : W → Nat) (probed : ToolRun W) (d : Nat) (input : String)
    (o : Outcome W) : Prop
  | found (hflow : o.flow = .ret) (hstatus : o.state.status = 0) (hprobed : probed.status = 0)
      (hworld : o.state.world = probed.world)
  | late (hflow : o.flow = .ret) (hstatus : o.state.status = 1) (hprobed : probed.status ≠ 0)
      (hd : d ≤ clock probed.world) (hworld : o.state.world = afterDate tools input probed.world)
  | slept (hflow : o.flow = .next) (hprobed : probed.status ≠ 0) (hd : clock probed.world < d)
      (hworld : o.state.world =
        (tools ["sleep", "2"] input (afterDate tools input probed.world)).world)

theorem waitRound_runs (h : TellsTime tools clock) (hs : Programs s) (flags : String) {port : String}
    {d : Nat} (hp : s.vars "p" = some port) (hd : s.vars "d" = some (toString d)) :
    Ends tools (waitRound flags) i s fun o => SameShell s o.state ∧
      RoundEnds tools clock (probeRun tools flags port i s.world) d i o := by
  have hport : (s.vars "p").getD "" = port := by rw [hp, Option.getD_some]
  have hprobe : Ends tools (probeSockets flags) i s _ := probeSockets_runs hs flags hport
  generalize probeRun tools flags port i s.world = probed at hprobe ⊢
  by_cases hfound : probed.status = 0
  · refine Ends.seq_stop (Ends.when_true (hprobe.weaken fun o ho => ?_))
    obtain ⟨hflow, hstate⟩ := ho
    refine ⟨hflow, by rw [hstate]; exact hfound, ?_⟩
    refine (return_ends (k := 0) (by decide)).weaken fun r hr => ?_
    subst hr
    rw [hstate]
    exact ⟨by simp, ⟨rfl, rfl, rfl⟩, .found rfl rfl hfound rfl⟩
  · refine Ends.seq (Ends.when_false (hprobe.weaken fun o ho => ?_))
    obtain ⟨hflow, hstate⟩ := ho
    refine ⟨hflow, by rw [hstate]; exact hfound, rfl, ?_⟩
    have hstart : (finish o.state 0 o.out).state = (s.setWorld probed.world).setStatus 0 := by
      rw [finish, hstate]
      rfl
    rw [hstart]
    have htest : Ends tools deadlineTest i ((s.setWorld probed.world).setStatus 0) fun r =>
        r.flow = .next ∧ r.state = (s.setWorld (afterDate tools i probed.world)).setStatus
          (statusOf (decide (d ≤ clock probed.world))) :=
      deadlineTest_runs (s := (s.setWorld probed.world).setStatus 0) h hs hd
    by_cases hpast : d ≤ clock probed.world
    · rw [decide_eq_true hpast] at htest
      refine Ends.seq_stop (Ends.when_true (htest.weaken fun r hr => ?_))
      obtain ⟨hflow', hstate'⟩ := hr
      refine ⟨hflow', by rw [hstate']; rfl, ?_⟩
      refine (return_ends (k := 1) (by decide)).weaken fun q hq => ?_
      subst hq
      rw [hstate']
      exact ⟨by simp, ⟨rfl, rfl, rfl⟩, .late rfl rfl hfound hpast rfl⟩
    · rw [decide_eq_false hpast] at htest
      refine Ends.seq (Ends.when_false (htest.weaken fun r hr => ?_))
      obtain ⟨hflow', hstate'⟩ := hr
      have hone : r.state.status = 1 := by rw [hstate']; rfl
      refine ⟨hflow', by rw [hone]; decide, rfl, ?_⟩
      have hasleep : (finish r.state 0 r.out).state =
          (s.setWorld (afterDate tools i probed.world)).setStatus 0 := by
        rw [finish, hstate']
        rfl
      rw [hasleep]
      have hsleep : runSimple tools (eval tools 0) ["sleep", "2"] i
          ((s.setWorld (afterDate tools i probed.world)).setStatus 0) =
          some (runTool tools ["sleep", "2"] i
            ((s.setWorld (afterDate tools i probed.world)).setStatus 0)) :=
        runSimple_plain (by decide) (hs "sleep" (by decide))
      refine (litWords_ends hsleep).weaken fun q hq => ?_
      subst hq
      exact ⟨⟨rfl, rfl, rfl⟩, .slept rfl hfound (not_le.mp hpast) rfl⟩

/-- The wait is its loop, with the port and the deadline in the variables. -/
theorem waitPort_runs (h : TellsTime tools clock) (hs : Programs s) {flags port : String}
    {budget : Nat} {Q : Outcome W → Prop} (hargs : s.args = [port, toString budget])
    (hQ : ∀ o out, Q o → Q (o.after out))
    (hloop : ∀ t : Shell.State W, t.funs = s.funs → t.vars "p" = some port →
      t.vars "d" = some (toString (clock s.world + budget)) →
      t.world = afterDate tools i s.world →
      LoopEnds tools (litWords [":"]) (waitRound flags) i 0 t Q) :
    Ends tools (waitPort flags) i s Q := by
  have hp : Ends tools (.assign "p" (.joined [.double [.arg 1]])) i s fun o =>
      o = finish (s.setVar "p" port) 0 [] := by
    have hone : expandPart (eval tools 0) i (.arg 1) s = some ⟨port, s.world, [], none⟩ := by
      simp [expandPart, hargs]
    exact Ends.assign (expandText_quoted hone) rfl
  refine Ends.seq (hp.weaken fun o ho => ?_)
  subst ho
  refine ⟨rfl, ?_⟩
  have hs' : Programs (finish (s.setVar "p" port) 0 []).state := hs
  obtain ⟨n, e, he, htext, hworld⟩ := expandClock (i := i) h hs'
  have hvalue : expandText (eval tools n) i (.bare (.sum (.subst readClock) (.arg 2)))
        (finish (s.setVar "p" port) 0 []).state =
      some ⟨toString (clock s.world + budget), e.world, e.out ++ [],
        (none : Option Nat).or e.status⟩ := by
    have htwo : expandPart (eval tools n) i (.arg 2)
          ((finish (s.setVar "p" port) 0 []).state.setWorld e.world) =
        some ⟨toString budget, e.world, [], none⟩ := by
      simp [expandPart, finish, Shell.State.setVar, Shell.State.setStatus, Shell.State.setWorld, hargs]
    rw [expandText, expandPart, he, Option.bind_some, htwo, Option.map_some, htext,
      number_toString, number_toString]
    rfl
  have hd : Ends tools (.assign "d" (.bare (.sum (.subst readClock) (.arg 2)))) i
      (finish (s.setVar "p" port) 0 []).state fun o => o.flow = .next ∧ o.state.funs = s.funs ∧
        o.state.vars "p" = some port ∧
        o.state.vars "d" = some (toString (clock s.world + budget)) ∧
        o.state.world = afterDate tools i s.world :=
    Ends.assign hvalue ⟨rfl, rfl, rfl, rfl, hworld⟩
  refine Ends.seq (hd.weaken fun o ho => ?_)
  obtain ⟨hflow, hfuns, hport, hdeadline, hdated⟩ := ho
  refine ⟨hflow, Ends.loop ?_⟩
  obtain ⟨m, k, r, hr, hpost⟩ := hloop o.state hfuns hport hdeadline hdated
  exact ⟨m, k, r, hr, hQ _ _ (hQ _ _ hpost)⟩

theorem echoText_ends (hs : Programs s) (text : String) :
    Ends tools (echoText text) i s fun o => o = finish s 0 [(.out, text ++ "\n")] := by
  have hwords : expandWords (eval tools 0) i [litWord "echo", .joined [.single text]] s =
      some ⟨["echo", text], s.world, [], none⟩ := by
    simp [litWord, expandWords, expandText, expandSegs, expandSeg, Expansion.join, Word.fields]
  have hrun : runSimple tools (eval tools 0) ["echo", text] i s =
      some (finish s 0 [(.out, text ++ "\n")]) := by
    rw [runSimple_plain (by decide) (hs "echo" (by decide))]
    simp [runPlain, Str.join]
  exact Ends.plain hwords hrun rfl

theorem false_ends (hs : Programs s) :
    Ends tools (litWords ["false"]) i s fun o => o = finish s 1 [] := by
  have hrun : runSimple tools (eval tools 0) ["false"] i s = some (finish s 1 []) := by
    rw [runSimple_plain (by decide) (hs "false" (by decide))]
    rfl
  exact litWords_ends hrun

theorem digits_toString (port : Nat) : ∀ c ∈ (toString port).toList, c.isDigit = true :=
  fun _ => Str.isDigit_of_mem_toString

/-- The check of one port: its wait, and a message that the world does not notice. -/
theorem portCheck_runs (hs : Programs s) {flags : String} {budget port : Nat}
    {P : W → Nat → Prop} (hf : s.funs "sfw_wait_port" = some (waitPort flags))
    (hwait : Ends tools (waitPort flags) i (s.setArgs [toString port, toString budget]) fun o =>
      o.flow = .ret ∧ o.state.funs = s.funs ∧ P o.state.world o.state.status) :
    Ends tools (portCheck (toString budget) port) i s fun o => o.flow = .next ∧
      o.state.funs = s.funs ∧ ∃ k, P o.state.world k ∧ o.state.status = statusOf (k = 0) := by
  have hcall : Ends tools (litWords ["sfw_wait_port", toString port, toString budget]) i s
      fun o => o.flow = .next ∧ o.state.funs = s.funs ∧ P o.state.world o.state.status := by
    refine Ends.call (expandWords_lit _ i _ s) (by decide) hf (hwait.weaken fun o ho => ?_)
    obtain ⟨hflow, hfuns, hpost⟩ := ho
    exact ⟨if_pos hflow, hfuns, hpost⟩
  refine Ends.cond (hcall.weaken fun o ho => ?_)
  obtain ⟨hflow, hfuns, hpost⟩ := ho
  have hs' : Programs o.state := fun f hprog => by rw [hfuns, hs f hprog]
  refine ⟨hflow, ?_⟩
  by_cases hzero : o.state.status = 0
  · rw [if_pos hzero]
    refine (echoText_ends hs' _).weaken fun r hr => ?_
    subst hr
    exact ⟨rfl, hfuns, o.state.status, hpost, by simp [finish, Shell.State.setStatus, statusOf, hzero]⟩
  · rw [if_neg hzero]
    refine Ends.seq ((echoText_ends hs' _).weaken fun r hr => ?_)
    subst hr
    have hs'' : Programs (finish o.state 0 [(.out, "port " ++ toString port ++
        " is not listening after " ++ toString budget ++ "s" ++ "\n")]).state := hs'
    refine ⟨rfl, (false_ends hs'').weaken fun q hq => ?_⟩
    subst hq
    exact ⟨rfl, hfuns, o.state.status, hpost, by simp [finish, Shell.State.setStatus, statusOf, hzero]⟩

end Steps

end Shellflow
