import Shellflow.Executor.PortWait

/-! What a port check reports. The wait of one port ends with the right status; the checks of
several ports run one after another, so the section reports the status of the last one. -/
namespace Shellflow
open Shell
variable {W : Type*}

/-- The blanks `[[:space:]]` matches inside a line. -/
def lineBlanks : List Char := [' ', '\t', Char.ofNat 11, Char.ofNat 12, '\r']

/-- Some row of a socket table has `:port` in front of a blank. -/
def listed (table port : String) : Bool :=
  lineBlanks.any fun c => Str.contains table (":" ++ (port ++ String.singleton c))

/-- The flags of the two checks, by socket family. -/
def socketFlags (udp : Bool) : List String := if udp then ["-uln"] else ["-tln", "-ltn"]

/-- The programs of a target: `ss` prints the sockets, `grep -q` searches its input, `date` tells
the seconds and `sleep` lets them pass. The sockets stay as they are while the check runs. -/
structure ProbeTools (tools : Tools W) (clock : W → Nat) (table : String → String)
    (listening : Bool → Nat → Bool) : Prop where
  sockets : ∀ flags input w, textOf .out (tools ["ss", flags] input w).out = table flags
  search : ∀ port : String, (∀ c ∈ port.toList, c.isDigit = true) → ∀ input w,
    (tools ["grep", "-qE", ":" ++ (port ++ "[[:space:]]")] input w).status =
      statusOf (listed input port)
  seconds : ∀ input w,
    textOf .out (tools ["date", "+%s"] input w).out = toString (clock w) ++ "\n"
  pause : ∀ input w, clock w + 2 ≤ clock (tools ["sleep", "2"] input w).world
  steady : ∀ argv input w, clock w ≤ clock (tools argv input w).world
  /-- A row names its own port in front of a blank. -/
  rows : ∀ udp, ∀ flags ∈ socketFlags udp, ∀ port : Nat,
    listed (table flags) (toString port) = listening udp port
  /-- No row has a colon in front of a blank. -/
  plain : ∀ udp, ∀ flags ∈ socketFlags udp, listed (table flags) "" = false

/-- The same shell later on: nothing but the world and the status has changed. -/
structure Later (clock : W → Nat) (s t : Shell.State W) : Prop where
  vars : t.vars = s.vars
  funs : t.funs = s.funs
  args : t.args = s.args
  clock : clock s.world ≤ clock t.world

section Steps
variable {tools : Tools W} {clock : W → Nat} {table : String → String}
  {listening : Bool → Nat → Bool} {i : String} {s : Shell.State W}

theorem Later.refl (s : Shell.State W) : Later clock s s := ⟨rfl, rfl, rfl, Nat.le_refl _⟩

theorem Later.trans {s t u : Shell.State W} (h : Later clock s t) (h' : Later clock t u) :
    Later clock s u :=
  ⟨h'.vars.trans h.vars, h'.funs.trans h.funs, h'.args.trans h.args, h.clock.trans h'.clock⟩

theorem Later.programs {s t : Shell.State W} (h : Later clock s t) (hs : Programs s) : Programs t := by
  intro f hf
  rw [h.funs]
  exact hs f hf

theorem SameShell.later {s t : Shell.State W} (h : SameShell s t) (hclock : clock s.world ≤ clock t.world) :
    Later clock s t := ⟨h.vars, h.funs, h.args, hclock⟩

theorem ProbeTools.tellsTime (h : ProbeTools tools clock table listening) : TellsTime tools clock :=
  h.seconds

theorem probeRun_status (h : ProbeTools tools clock table listening) (flags : String) {port : String}
    (hdigits : ∀ c ∈ port.toList, c.isDigit = true) (w : W) :
    (probeRun tools flags port i w).status = statusOf (listed (table flags) port) := by
  rw [probeRun, h.sockets]
  exact h.search port hdigits _ _

theorem probeRun_clock (h : ProbeTools tools clock table listening) (flags port : String) (w : W) :
    clock w ≤ clock (probeRun tools flags port i w).world :=
  (h.steady _ _ _).trans (h.steady _ _ _)

/-- One round of the wait: it returns with the verdict, or two seconds pass before the deadline. -/
theorem waitRound_ends (h : ProbeTools tools clock table listening) (hs : Programs s)
    (flags : String) {port : String} {d : Nat} (hp : s.vars "p" = some port)
    (hdigits : ∀ c ∈ port.toList, c.isDigit = true) (hd : s.vars "d" = some (toString d)) :
    Ends tools (waitRound flags) i s fun o => Later clock s o.state ∧
      (o.flow = .ret ∧ o.state.status = statusOf (listed (table flags) port) ∨
        o.flow = .next ∧ clock s.world < d ∧ clock s.world + 2 ≤ clock o.state.world) := by
  refine (waitRound_runs h.tellsTime hs flags hp hd).weaken fun o ho => ?_
  obtain ⟨hsame, hround⟩ := ho
  have hprobed := probeRun_status (i := i) h flags hdigits s.world
  have hclock := probeRun_clock (i := i) h flags port s.world
  cases hround with
  | found hflow hstatus hzero hworld =>
    rw [← hworld] at hclock
    exact ⟨hsame.later hclock, .inl ⟨hflow, hstatus.trans (hzero.symm.trans hprobed)⟩⟩
  | late hflow hstatus hne hpast hworld =>
    have hdated := h.steady ["date", "+%s"] i (probeRun tools flags port i s.world).world
    have hworld' : o.state.world = (tools ["date", "+%s"] i _).world := hworld
    rw [← hworld'] at hdated
    refine ⟨hsame.later (hclock.trans hdated), .inl ⟨hflow, ?_⟩⟩
    rw [hstatus]
    rw [hprobed] at hne
    cases hlisted : listed (table flags) port with
    | true => exact absurd (by rw [hlisted]; rfl) hne
    | false => rfl
  | slept hflow hne hbefore hworld =>
    have hdated := h.steady ["date", "+%s"] i (probeRun tools flags port i s.world).world
    have hpause := h.pause i (afterDate tools i (probeRun tools flags port i s.world).world)
    rw [← hworld] at hpause
    have hstart : clock s.world ≤
        clock (afterDate tools i (probeRun tools flags port i s.world).world) := hclock.trans hdated
    exact ⟨hsame.later (by omega), .inr ⟨hflow, by omega, by omega⟩⟩

/-- The wait ends when the clock has reached the deadline, if not before. -/
theorem waitLoop_ends (h : ProbeTools tools clock table listening) (flags : String)
    {port : String} {d last : Nat} (hdigits : ∀ c ∈ port.toList, c.isDigit = true) (n : Nat) {s : Shell.State W}
    (hn : d - clock s.world = n) (hs : Programs s) (hp : s.vars "p" = some port)
    (hd : s.vars "d" = some (toString d)) :
    LoopEnds tools (litWords [":"]) (waitRound flags) i last s fun o =>
      Later clock s o.state ∧ o.flow = .ret ∧
        o.state.status = statusOf (listed (table flags) port) := by
  induction n using Nat.strong_induction_on generalizing s last with
  | _ n ih =>
    have hcolon : runSimple tools (eval tools 0) [":"] i s = some (finish s 0 []) := rfl
    refine LoopEnds.step ((litWords_ends hcolon).weaken fun o ho => ?_)
    subst ho
    refine ⟨rfl, rfl, ?_⟩
    have hround := waitRound_ends (i := i) (s := s.setStatus 0) h hs flags hp hdigits hd
    refine hround.weaken fun r hr => ?_
    obtain ⟨hlater, hr⟩ := hr
    have hstart : Later clock s r.state := ⟨hlater.vars, hlater.funs, hlater.args, hlater.clock⟩
    cases hr with
    | inl hret =>
      obtain ⟨hflow, hstatus⟩ := hret
      have hstop : r.flow ≠ .next := by rw [hflow]; decide
      rw [if_pos hstop]
      exact ⟨hstart, by simp [leaveLoop, hflow], hstatus⟩
    | inr hnext =>
      obtain ⟨hflow, hbefore, hpass⟩ := hnext
      rw [if_neg (not_not.mpr hflow)]
      have hless : d - clock r.state.world < n := by
        have hb : clock s.world < d := hbefore
        have hq : clock s.world + 2 ≤ clock r.state.world := hpass
        omega
      have hrest : LoopEnds tools (litWords [":"]) (waitRound flags) i r.state.status r.state _ :=
        ih _ hless rfl (hstart.programs hs) (by rw [hstart.vars, hp]) (by rw [hstart.vars, hd])
      obtain ⟨m, k, q, hq, hlaterq, hret⟩ := hrest
      exact ⟨m, k, q, hq, hstart.trans hlaterq, hret⟩

theorem waitPort_ends (h : ProbeTools tools clock table listening) (hs : Programs s)
    (flags : String) {port : String} {budget : Nat} (hargs : s.args = [port, toString budget])
    (hdigits : ∀ c ∈ port.toList, c.isDigit = true) :
    Ends tools (waitPort flags) i s fun o => o.flow = .ret ∧ o.state.funs = s.funs ∧
      o.state.status = statusOf (listed (table flags) port) := by
  refine waitPort_runs h.tellsTime hs hargs (fun _ _ hQ => hQ) fun t hfuns hp hd _ => ?_
  have ht : Programs t := fun f hprog => by rw [hfuns, hs f hprog]
  have hloop : LoopEnds tools (litWords [":"]) (waitRound flags) i 0 t _ :=
    waitLoop_ends h flags hdigits _ rfl ht hp hd
  obtain ⟨m, k, r, hr, hlater, hret, hstatus⟩ := hloop
  exact ⟨m, k, r, hr, hret, hlater.funs.trans hfuns, hstatus⟩

/-- The check of one port ends with its verdict. -/
theorem portCheck_ends (h : ProbeTools tools clock table listening) {udp : Bool}
    {flags : String} (hflags : flags ∈ socketFlags udp) (budget port : Nat) (hs : Programs s)
    (hf : s.funs "sfw_wait_port" = some (waitPort flags)) :
    Ends tools (portCheck (toString budget) port) i s fun o => o.flow = .next ∧
      o.state.funs = s.funs ∧ o.state.status = statusOf (listening udp port) := by
  have hwait := waitPort_ends (i := i) (s := s.setArgs [toString port, toString budget]) h hs flags
    rfl (digits_toString port)
  rw [h.rows udp flags hflags port] at hwait
  have hcheck := portCheck_runs (P := fun _ k => k = statusOf (listening udp port)) hs hf hwait
  refine hcheck.weaken fun o ho => ?_
  obtain ⟨hflow, hfuns, k, hk, hstatus⟩ := ho
  refine ⟨hflow, hfuns, ?_⟩
  rw [hstatus, hk]
  cases listening udp port <;> rfl

/-- A sequence of checks ends with the status of the last one. -/
theorem seqAll_ends {check : Nat → Cmd} (ok : Nat → Bool) {I : Shell.State W → Prop}
    (hcheck : ∀ port s, I s → Ends tools (check port) i s fun o =>
      o.flow = .next ∧ I o.state ∧ o.state.status = statusOf (ok port))
    (ports : List Nat) (hne : ports ≠ []) (hs : I s) :
    Ends tools (seqAll (ports.map check)) i s fun o =>
      o.state.status = statusOf (ok (ports.getLast hne)) := by
  induction ports generalizing s with
  | nil => exact absurd rfl hne
  | cons port ports ih =>
    cases ports with
    | nil => exact (hcheck port s hs).weaken fun o ho => ho.2.2
    | cons next ports =>
      refine Ends.seq ((hcheck port s hs).weaken fun o ho => ⟨ho.1, ?_⟩)
      rw [List.getLast_cons (List.cons_ne_nil next ports)]
      exact ih (List.cons_ne_nil next ports) ho.2.1

theorem probeSockets_ends (h : ProbeTools tools clock table listening) (hs : Programs s)
    (flags : String) {port : String} (hp : (s.vars "p").getD "" = port)
    (hdigits : ∀ c ∈ port.toList, c.isDigit = true) :
    Ends tools (probeSockets flags) i s fun o => o.flow = .next ∧ Later clock s o.state ∧
      o.state.status = statusOf (listed (table flags) port) := by
  refine (probeSockets_runs hs flags hp).weaken fun o ho => ?_
  obtain ⟨hflow, hstate⟩ := ho
  rw [hstate]
  exact ⟨hflow, ⟨rfl, rfl, rfl, probeRun_clock h flags port s.world⟩,
    probeRun_status h flags hdigits s.world⟩

/-- The variable `p` is unset, so the search never matches and the port is called free. -/
theorem portFreeCheck_ends (h : ProbeTools tools clock table listening) (port : Nat)
    (hs : Programs s) (hp : s.vars "p" = none) :
    Ends tools (portFreeCheck port) i s fun o => o.flow = .next ∧
      (Programs o.state ∧ o.state.vars "p" = none) ∧ o.state.status = 0 := by
  have hempty : (s.vars "p").getD "" = "" := by rw [hp, Option.getD_none]
  have hprobe := probeSockets_ends (i := i) h hs "-ltn" hempty (by simp)
  rw [h.plain false "-ltn" (by decide)] at hprobe
  refine Ends.cond (hprobe.weaken fun o ho => ?_)
  obtain ⟨hflow, hlater, hstatus⟩ := ho
  have hone : o.state.status ≠ 0 := by rw [hstatus]; decide
  rw [if_neg hone]
  refine ⟨hflow, (echoText_ends (hlater.programs hs) _).weaken fun r hr => ?_⟩
  subst hr
  refine ⟨rfl, ⟨hlater.programs hs, ?_⟩, rfl⟩
  exact (congrFun hlater.vars "p").trans hp

end Steps

section Verdict
variable {tools : Tools W} {clock : W → Nat} {table : String → String}
  {listening : Bool → Nat → Bool} {i : String} {s : Shell.State W}

/-- The shell that runs the sections of a batch: it has no functions, and `p` is unset. -/
structure BatchShell (s : Shell.State W) : Prop where
  funs : NoFuns s
  unset : s.vars "p" = none

def startShell (world : W) : Shell.State W := ⟨fun _ => none, [], fun _ => none, 0, world⟩

theorem batchShell_start (world : W) : BatchShell (startShell world) := ⟨fun _ => rfl, rfl⟩

/-- Each section leaves the shell as the next one needs it. -/
theorem batchShell_section (b : Batch) (id : String) {cmd : Cmd} {k : Nat} (hs : BatchShell s)
    (h : Ends tools cmd "" s fun o => o.state.status = k) :
    Ends tools (sectionCmd b id cmd) i s fun o => BatchShell o.state := by
  refine (sectionCmd_ends b id hs.funs h).weaken fun o ho => ⟨fun f => ?_, ?_⟩
  · rw [ho.1.funs]
    exact hs.funs f
  · rw [ho.1.vars "p" (by decide) (by decide)]
    exact hs.unset

/-- The id of a check's section. -/
def checkId (idx : Nat) : String := "c" ++ toString idx

theorem newline_notMem_checkId (idx : Nat) : '\n' ∉ (checkId idx).toList := by
  rw [checkId, String.toList_append, List.mem_append, not_or]
  refine ⟨by decide, fun h => ?_⟩
  exact isDigit_ne (Str.isDigit_of_mem_toString h) rfl rfl

theorem programs_setFun {name : String} {body : Cmd} (hs : NoFuns s) (hname : name ∉ programs) :
    Programs ((s.setFun name body).setStatus 0) := by
  intro f hf
  have hne : f ≠ name := fun he => hname (he ▸ hf)
  exact (if_neg hne).trans (hs f)

/-- The section of a `Port` check reports the status of the last port. -/
theorem portCommand_reports (h : ProbeTools tools clock table listening) (b : Batch) (idx : Nat)
    (hs : BatchShell s) (udp : Bool) (stepTimeout : Option Nat) (ports : List Nat)
    (hne : ports ≠ []) :
    Reports tools b (checkId idx) (portCommand ports udp stepTimeout) i s
      (statusOf (listening udp (ports.getLast hne)) : Nat) := by
  have hflags : (if udp then "-uln" else "-tln") ∈ socketFlags udp := by cases udp <;> decide
  refine reports_of_ends b (newline_notMem_checkId idx) ?_ hs.funs (Ends.seq (Ends.fn ⟨rfl, ?_⟩))
  · cases listening udp (ports.getLast hne) <;> decide
  · refine seqAll_ends (listening udp) (I := fun t => Programs t ∧
      t.funs "sfw_wait_port" = some (waitPort (if udp then "-uln" else "-tln")))
      (fun port t ht => ?_) ports hne ⟨programs_setFun hs.funs (by decide), rfl⟩
    refine (portCheck_ends h hflags _ port ht.1 ht.2).weaken fun o ho => ?_
    obtain ⟨hflow, hfuns, hstatus⟩ := ho
    refine ⟨hflow, ⟨fun f hf => ?_, ?_⟩, hstatus⟩
    · rw [hfuns, ht.1 f hf]
    · rw [hfuns, ht.2]

/-- The section of a `PortFree` check always reports success. -/
theorem portFreeCommand_reports (h : ProbeTools tools clock table listening) (b : Batch)
    (idx : Nat) (hs : BatchShell s) {ports : List Nat} (hne : ports ≠ []) :
    Reports tools b (checkId idx) (portFreeCommand ports) i s 0 := by
  have hends : Ends tools (portFreeCommand ports) "" s fun o => o.state.status = 0 := by
    refine Ends.seq (Ends.fn ⟨rfl, ?_⟩)
    refine seqAll_ends (fun _ => true) (I := fun t => Programs t ∧ t.vars "p" = none)
      (fun port t ht => portFreeCheck_ends h port ht.1 ht.2) ports hne
      ⟨programs_setFun hs.funs (by decide), hs.unset⟩
  exact reports_of_ends b (newline_notMem_checkId idx) (by decide) hs.funs hends

/-- A section reports success exactly when every port is as asserted, if and only if a `Port`
check does not end with an open port after a closed one, and a `PortFree` check has no occupied
port. -/
theorem portSections_verdict_iff (h : ProbeTools tools clock table listening) (b : Batch)
    (idx : Nat) (hs : BatchShell s) (stepTimeout : Option Nat) (ports : List Nat)
    (hne : ports ≠ []) :
    (∀ udp, (∃ rc, Reports tools b (checkId idx) (portCommand ports udp stepTimeout) i s rc) ∧
      ((Reports tools b (checkId idx) (portCommand ports udp stepTimeout) i s 0 ↔
          ∀ port ∈ ports, listening udp port = true) ↔
        (listening udp (ports.getLast hne) = true → ∀ port ∈ ports, listening udp port = true))) ∧
    (∃ rc, Reports tools b (checkId idx) (portFreeCommand ports) i s rc) ∧
      ((Reports tools b (checkId idx) (portFreeCommand ports) i s 0 ↔
          ∀ port ∈ ports, listening false port = false) ↔
        ∀ port ∈ ports, listening false port = false) := by
  have hfree := portFreeCommand_reports (i := i) h b idx hs hne
  refine ⟨fun udp => ?_, ⟨0, hfree⟩, by simp [hfree]⟩
  have hport := portCommand_reports (i := i) h b idx hs udp stepTimeout ports hne
  refine ⟨⟨_, hport⟩, ?_⟩
  have hlast : Reports tools b (checkId idx) (portCommand ports udp stepTimeout) i s 0 ↔
      listening udp (ports.getLast hne) = true := by
    cases hopen : listening udp (ports.getLast hne) with
    | true =>
      rw [hopen] at hport
      simp only [iff_true]
      exact hport
    | false =>
      rw [hopen] at hport
      refine ⟨fun hzero => ?_, fun hfalse => by cases hfalse⟩
      exact absurd (hzero.unique hport) (by decide)
  have hmem : (∀ port ∈ ports, listening udp port = true) →
      listening udp (ports.getLast hne) = true :=
    fun hall => hall _ (List.getLast_mem hne)
  rw [hlast]
  exact ⟨fun hiff => hiff.mp, fun himp => ⟨himp, hmem⟩⟩

section Example

/-- One listening socket, on port 443. -/
def oneSocket : String := "LISTEN 0 128 0.0.0.0:443 0.0.0.0:*\n"

/-- A target whose clock is its whole state. -/
def clockTools : Tools Nat := fun argv input now =>
  match argv with
  | ["ss", _] => ⟨now, [(.out, oneSocket)], 0⟩
  | ["grep", "-qE", pattern] =>
    ⟨now, [], statusOf (listed input
      (String.ofList ((pattern.toList.drop 1).reverse.drop 11).reverse))⟩
  | ["date", "+%s"] => ⟨now, [(.out, toString now ++ "\n")], 0⟩
  | ["sleep", "2"] => ⟨now + 2, [], 0⟩
  | _ => ⟨now, [], 127⟩

def onPort (_ : Bool) (port : Nat) : Bool := listed oneSocket (toString port)

theorem clockTools_probe : ProbeTools clockTools id (fun _ => oneSocket) onPort where
  sockets := fun _ _ _ => by simp [clockTools, textOf]
  search := fun port _ input now => by simp [clockTools]
  seconds := fun _ now => by simp [clockTools, textOf]
  pause := fun _ now => Nat.le_refl _
  steady := fun argv input now => by
    unfold clockTools
    split <;> simp
  rows := fun _ _ _ _ => rfl
  plain := fun _ _ _ => by decide +kernel

end Example

/-- A closed port in front of an open one is reported as success. -/
theorem portSections_verdict_iff_lastOpen :
    (Reports clockTools (Batch.new 7 9) (checkId 0) (portCommand [80, 443] false (some 4)) ""
        (startShell 0) 0 ↔ ∀ port ∈ [80, 443], onPort false port = true) ↔
      (onPort false 443 = true → ∀ port ∈ [80, 443], onPort false port = true) :=
  ((portSections_verdict_iff clockTools_probe (Batch.new 7 9) 0 (batchShell_start 0) (some 4)
    [80, 443] (by decide)).1 false).2

theorem portSection_ignores_a_closed_port :
    ¬ ((Reports clockTools (Batch.new 7 9) (checkId 0) (portCommand [80, 443] false (some 4)) ""
          (startShell 0) 0 ↔ ∀ port ∈ [80, 443], onPort false port = true) ∧
        (Reports clockTools (Batch.new 7 9) (checkId 0) (portFreeCommand [443]) ""
          (startShell 0) 0 ↔ ∀ port ∈ [443], onPort false port = false)) := by
  intro h
  have hopen : onPort false 443 = true := by decide +kernel
  have hreport := portCommand_reports (i := "") clockTools_probe (Batch.new 7 9) 0
    (batchShell_start 0) false (some 4) [80, 443] (by decide)
  rw [List.getLast_cons_cons, List.getLast_singleton, hopen] at hreport
  have hclosed := h.1.mp hreport 80 (by decide)
  revert hclosed
  decide +kernel

end Verdict

end Shellflow
