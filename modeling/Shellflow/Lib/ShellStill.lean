import Shellflow.Lib.ShellRules

/-! Commands that end and let no time pass: they run programs that do not wait, and no loops. -/
namespace Shell
universe u
variable {W : Type u} {tools : Tools W}

def Part.plain : Part → Bool
  | .subst _ => false
  | .sum _ _ => false
  | _ => true

def Seg.plain : Seg → Bool
  | .double parts => parts.all Part.plain
  | _ => true

/-- A word without a command substitution. -/
def Word.plain : Word → Bool
  | .bare part => part.plain
  | .joined segs => segs.all Seg.plain
  | .escaped _ part _ => part.plain

section Plain
variable (ev : Eval W) (i : String) (s : State W)

theorem expandPart_of_plain {p : Part} (h : p.plain = true) :
    ∃ text, expandPart ev i p s = some ⟨text, s.world, [], none⟩ := by
  cases p with
  | lit text => exact ⟨_, rfl⟩
  | var name => exact ⟨_, rfl⟩
  | braced name => exact ⟨_, rfl⟩
  | arg k => exact ⟨_, rfl⟩
  | status => exact ⟨_, rfl⟩
  | subst cmd => cases h
  | sum a b => cases h

theorem expandParts_of_plain {ps : List Part} (h : ps.all Part.plain = true) :
    ∃ text, expandParts ev i ps s = some ⟨text, s.world, [], none⟩ := by
  induction ps with
  | nil => exact ⟨"", rfl⟩
  | cons p ps ih =>
    rw [List.all_cons, Bool.and_eq_true] at h
    obtain ⟨a, ha⟩ := expandPart_of_plain ev i s h.1
    obtain ⟨b, hb⟩ := ih h.2
    exact ⟨a ++ b, by rw [expandParts, ha, Option.bind_some, State.setWorld_self, hb]; rfl⟩

theorem expandSeg_of_plain {g : Seg} (h : g.plain = true) :
    ∃ text, expandSeg ev i g s = some ⟨text, s.world, [], none⟩ := by
  cases g with
  | lit text => exact ⟨_, rfl⟩
  | single text => exact ⟨_, rfl⟩
  | double parts => exact expandParts_of_plain ev i s h
  | escaped c => exact ⟨_, rfl⟩

theorem expandSegs_of_plain {gs : List Seg} (h : gs.all Seg.plain = true) :
    ∃ text, expandSegs ev i gs s = some ⟨text, s.world, [], none⟩ := by
  induction gs with
  | nil => exact ⟨"", rfl⟩
  | cons g gs ih =>
    rw [List.all_cons, Bool.and_eq_true] at h
    obtain ⟨a, ha⟩ := expandSeg_of_plain ev i s h.1
    obtain ⟨b, hb⟩ := ih h.2
    exact ⟨a ++ b, by rw [expandSegs, ha, Option.bind_some, State.setWorld_self, hb]; rfl⟩

theorem expandText_of_plain {w : Word} (h : w.plain = true) :
    ∃ text, expandText ev i w s = some ⟨text, s.world, [], none⟩ := by
  cases w with
  | bare part => exact expandPart_of_plain ev i s h
  | joined segs => exact expandSegs_of_plain ev i s h
  | escaped a part b =>
    obtain ⟨text, htext⟩ := expandPart_of_plain ev i s h
    exact ⟨_, expandText_escaped htext⟩

theorem expandWords_of_plain {ws : List Word} (h : ws.all Word.plain = true) :
    ∃ argv, expandWords ev i ws s = some ⟨argv, s.world, [], none⟩ := by
  induction ws with
  | nil => exact ⟨[], rfl⟩
  | cons w ws ih =>
    rw [List.all_cons, Bool.and_eq_true] at h
    obtain ⟨text, htext⟩ := expandText_of_plain ev i s h.1
    obtain ⟨argv, hargv⟩ := ih h.2
    exact ⟨w.fields text ++ argv,
      by rw [expandWords, htext, Option.bind_some, State.setWorld_self, hargv]; rfl⟩

/-- A program that is named by a literal word. -/
theorem expandWords_program {name : String} {ws : List Word} (h : ws.all Word.plain = true) :
    ∃ args, expandWords ev i (.joined [.lit name] :: ws) s = some ⟨name :: args, s.world, [], none⟩ := by
  obtain ⟨args, hargs⟩ := expandWords_of_plain ev i s h
  have hname : expandText ev i (.joined [.lit name]) s = some ⟨name, s.world, [], none⟩ := by
    simp [expandText, expandSegs, expandSeg, Expansion.join]
  exact ⟨args, expandWords_joined hname hargs⟩

end Plain

theorem Ends.program {name : String} {ws : List Word} {i : String} {s : State W}
    (hname : name ∉ special) (hf : s.funs name = none) (hws : ws.all Word.plain = true) :
    Ends tools (.simple (.joined [.lit name] :: ws)) i s fun o =>
      ∃ args, o = runPlain tools name args i s := by
  obtain ⟨args, hargs⟩ := expandWords_program (eval tools 0) i s hws
  exact Ends.plain hargs (runSimple_plain hname hf) ⟨args, rfl⟩

/-- No program but `sleep` lets time pass. -/
def OnlySleeps (tools : Tools W) (time : W → Nat) : Prop :=
  ∀ argv input w, argv.head? ≠ some "sleep" → time (tools argv input w).world = time w

/-- The command ends at the time it started at, in a shell with these functions. -/
def Still (tools : Tools W) (time : W → Nat) (funs : String → Option Cmd) (c : Cmd) : Prop :=
  ∀ i s, s.funs = funs →
    Ends tools c i s fun o => time o.state.world = time s.world ∧ o.state.funs = funs

namespace Still
variable {time : W → Nat} {funs : String → Option Cmd} {a b c t e : Cmd}

theorem runPlain_still (h : OnlySleeps tools time) {name : String} (hname : name ≠ "sleep")
    (args : List String) (i : String) (s : State W) :
    time (runPlain tools name args i s).state.world = time s.world ∧
      (runPlain tools name args i s).state.funs = s.funs := by
  have htool : time (runTool tools (name :: args) i s).state.world = time s.world :=
    h _ _ _ fun hsleep => hname (Option.some.inj hsleep)
  unfold runPlain
  split
  · exact ⟨rfl, rfl⟩
  · exact ⟨rfl, rfl⟩
  · exact ⟨rfl, rfl⟩
  · split
    · exact ⟨rfl, rfl⟩
    · exact ⟨rfl, rfl⟩
  · split
    · exact ⟨rfl, rfl⟩
    · exact ⟨htool, rfl⟩
  · exact ⟨htool, rfl⟩

theorem program (h : OnlySleeps tools time) {name : String} {ws : List Word}
    (hname : name ∉ special) (hsleep : name ≠ "sleep") (hf : funs name = none)
    (hws : ws.all Word.plain = true) : Still tools time funs (.simple (.joined [.lit name] :: ws)) := by
  rintro i s rfl
  refine (Ends.program hname hf hws).weaken fun o ho => ?_
  obtain ⟨args, rfl⟩ := ho
  exact runPlain_still h hsleep args i s

theorem call {name : String} {ws : List Word} (hname : name ∉ special) (hf : funs name = some c)
    (hws : ws.all Word.plain = true) (hc : Still tools time funs c) :
    Still tools time funs (.simple (.joined [.lit name] :: ws)) := by
  rintro i s rfl
  obtain ⟨args, hargs⟩ := expandWords_program (eval tools 0) i s hws
  exact Ends.call hargs hname hf ((hc i (s.setArgs args) rfl).weaken fun _ ho => ho)

theorem assign {name : String} {w : Word} (hw : w.plain = true) :
    Still tools time funs (.assign name w) := by
  rintro i s rfl
  obtain ⟨text, htext⟩ := expandText_of_plain (eval tools 0) i s hw
  exact Ends.assign htext ⟨rfl, rfl⟩

theorem assign_subst {name : String} (hc : Still tools time funs c) :
    Still tools time funs (.assign name (.bare (.subst c))) :=
  fun i s hs => Ends.assign_subst ((hc i s hs).weaken fun _ ho => ⟨ho.1, hs⟩)

theorem redirect {rs : List Redir} (hc : Still tools time funs c) :
    Still tools time funs (.redirect c rs) :=
  fun i s hs => Ends.redirect ((hc (inputFor rs i) s hs).weaken fun _ ho => ho)

theorem pipe (ha : Still tools time funs a) (hb : Still tools time funs b) :
    Still tools time funs (.pipe a b) := by
  intro i s hs
  refine Ends.pipe ((ha i s hs).weaken fun o ho => ?_)
  refine (hb (textOf .out o.out) (s.setWorld o.state.world) hs).weaken fun r hr => ?_
  exact ⟨hr.1.trans ho.1, hs⟩

theorem subshell (hc : Still tools time funs c) : Still tools time funs (.subshell c) := by
  intro i s hs
  obtain ⟨n, o, ho, htime, -⟩ := hc i s hs
  exact ⟨n + 1, ⟨s.leave o.state, o.out, .next⟩, by rw [eval_subshell, ho, Option.map_some], htime, hs⟩

theorem not (hc : Still tools time funs c) : Still tools time funs (.not c) := by
  intro i s hs
  obtain ⟨n, o, ho, htime, hfuns⟩ := hc i s hs
  refine ⟨n + 1, _, by rw [eval_not, ho, Option.map_some], ?_⟩
  split
  · exact ⟨htime, hfuns⟩
  · exact ⟨htime, hfuns⟩

theorem seq (ha : Still tools time funs a) (hb : Still tools time funs b) :
    Still tools time funs (.seq a b) := by
  intro i s hs
  obtain ⟨n, o, ho, htime, hfuns⟩ := ha i s hs
  by_cases hflow : o.flow = .next
  · refine Ends.seq ⟨n, o, ho, hflow, (hb i o.state hfuns).weaken fun r hr => ?_⟩
    exact ⟨hr.1.trans htime, hr.2⟩
  · exact Ends.seq_stop ⟨n, o, ho, hflow, htime, hfuns⟩

/-- A continuation of a test, with the fuel it is given. -/
def Goes (time : W → Nat) (funs : String → Option Cmd) (w : W)
    (run : Nat → State W → Option (Outcome W)) : Prop :=
  ∀ s : State W, time s.world = time w → s.funs = funs →
    ∃ n r, run n s = some r ∧ time r.state.world = time w ∧ r.state.funs = funs

theorem goes (w : W) (i : String) (hc : Still tools time funs c) :
    Goes time funs w fun n => eval tools n c i := by
  intro s hs hfuns
  obtain ⟨n, r, hr, htime, hkeep⟩ := hc i s hfuns
  exact ⟨n, r, hr, htime.trans hs, hkeep⟩

theorem goes_on (w : W) (status : State W → Nat) :
    Goes time funs w fun _ s => some ⟨s.setStatus (status s), [], .next⟩ :=
  fun _ hs hfuns => ⟨0, _, rfl, hs, hfuns⟩

theorem choose {o : Outcome W} {w : W} {yes no : Nat → State W → Option (Outcome W)}
    (ho : time o.state.world = time w) (hfuns : o.state.funs = funs)
    (hyes : Goes time funs w yes) (hno : Goes time funs w no) :
    ∃ n r, Shell.choose o (yes n) (no n) = some r ∧ time r.state.world = time w ∧
      r.state.funs = funs := by
  by_cases hflow : o.flow = .next
  · by_cases hstatus : o.state.status = 0
    · obtain ⟨n, r, hr, hkept⟩ := hyes o.state ho hfuns
      refine ⟨n, r.after o.out, ?_, hkept⟩
      rw [Shell.choose, if_neg (not_not_intro hflow), if_pos hstatus, hr, Option.map_some]
    · obtain ⟨n, r, hr, hkept⟩ := hno o.state ho hfuns
      refine ⟨n, r.after o.out, ?_, hkept⟩
      rw [Shell.choose, if_neg (not_not_intro hflow), if_neg hstatus, hr, Option.map_some]
  · exact ⟨0, o, by rw [Shell.choose, if_pos hflow], ho, hfuns⟩

/-- A conditional of any shape: a still test and a choice after it. -/
theorem branch {yes no : Nat → State W → Option (Outcome W)} {i : String} {s : State W}
    (heval : ∀ n, eval tools (n + 1) e i s =
      (eval tools n c i s).bind fun o => Shell.choose o (yes n) (no n))
    (hyes_le : ∀ n m s, n ≤ m → Le (yes n s) (yes m s))
    (hno_le : ∀ n m s, n ≤ m → Le (no n s) (no m s))
    (hc : Still tools time funs c) (hs : s.funs = funs)
    (hyes : Goes time funs s.world yes) (hno : Goes time funs s.world no) :
    Ends tools e i s fun o => time o.state.world = time s.world ∧ o.state.funs = funs := by
  obtain ⟨n, o, ho, htime, hfuns⟩ := hc i s hs
  obtain ⟨m, r, hr, hkept⟩ := choose htime hfuns hyes hno
  refine ⟨max n m + 1, r, ?_, hkept⟩
  rw [heval, eval_of_le ho (Nat.le_max_left n m), Option.bind_some]
  have hm : m ≤ max n m := Nat.le_max_right n m
  exact choose_le (fun s => hyes_le m _ s hm) (fun s => hno_le m _ s hm) r hr

theorem eval_le (c : Cmd) (i : String) (n m : Nat) (s : State W) (h : n ≤ m) :
    Le (eval tools n c i s) (eval tools m c i s) :=
  eval_extends tools h c i s

theorem cond (hc : Still tools time funs c) (ht : Still tools time funs t)
    (he : Still tools time funs e) : Still tools time funs (.cond c t e) :=
  fun i s hs => branch (fun _ => rfl) (eval_le t i) (eval_le e i) hc hs (goes s.world i ht)
    (goes s.world i he)

theorem when (hc : Still tools time funs c) (ht : Still tools time funs t) :
    Still tools time funs (.when c t) :=
  fun i s hs => branch (fun _ => rfl) (eval_le t i) (fun _ _ _ _ => Le.refl _) hc hs
    (goes s.world i ht) (goes_on s.world fun _ => 0)

theorem and (hc : Still tools time funs c) (ht : Still tools time funs t) :
    Still tools time funs (.and c t) :=
  fun i s hs => branch (fun _ => rfl) (eval_le t i) (fun _ _ _ _ => Le.refl _) hc hs
    (goes s.world i ht) (goes_on s.world State.status)

theorem or (hc : Still tools time funs c) (he : Still tools time funs e) :
    Still tools time funs (.or c e) :=
  fun i s hs => branch (fun _ => rfl) (fun _ _ _ _ => Le.refl _) (eval_le e i) hc hs
    (goes_on s.world State.status) (goes s.world i he)

/-- A `return` with the status it is given. -/
theorem ret (status : String) :
    Still tools time funs (.simple [.joined [.lit "return"], .joined [.lit status]]) := by
  rintro i s rfl
  have hw : expandWords (eval tools 0) i [.joined [.lit "return"], .joined [.lit status]] s =
      some ⟨["return", status], s.world, [], none⟩ := by
    simp [expandWords, expandText, expandSegs, expandSeg, Expansion.join, Word.fields]
  exact Ends.plain hw rfl ⟨rfl, rfl⟩

theorem skip : Still tools time funs (.simple []) := by
  rintro i s rfl
  exact Ends.plain rfl rfl ⟨rfl, rfl⟩

/-- `exec` of a program that is named by one text ends the shell. -/
theorem exec (h : OnlySleeps tools time) {w : Word} {name : String} {ws : List Word}
    (hw : ∀ ev i (s : State W), expandText ev i w s = some ⟨name, s.world, [], none⟩)
    (hone : w.fields name = [name]) (hsleep : name ≠ "sleep") (hws : ws.all Word.plain = true) :
    Still tools time funs (.simple (.joined [.lit "exec"] :: w :: ws)) := by
  rintro i s rfl
  obtain ⟨args, hargs⟩ := expandWords_of_plain (eval tools 0) i s hws
  have hexec : expandText (eval tools 0) i (.joined [.lit "exec"]) s =
      some ⟨"exec", s.world, [], none⟩ := by
    simp [expandText, expandSegs, expandSeg, Expansion.join]
  have hargv : expandWords (eval tools 0) i (.joined [.lit "exec"] :: w :: ws) s =
      some ⟨"exec" :: name :: args, s.world, [], none⟩ :=
    expandWords_joined hexec (expandWords_one (hw _ i s) hone hargs)
  refine Ends.plain hargv rfl ⟨h _ _ _ ?_, rfl⟩
  exact fun hhead => hsleep (Option.some.inj hhead)

end Still

end Shell
