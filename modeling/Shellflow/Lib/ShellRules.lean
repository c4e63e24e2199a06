import Shellflow.Lib.ShellEval

/-! Rules for total correctness of shell commands. More fuel never changes an outcome, so each
part of a command may be run with fuel of its own. -/
namespace Shell
universe u
variable {W : Type u}

/-- `y` is `x`, or `x` is undefined. -/
def Le {α : Type*} (x y : Option α) : Prop := ∀ a, x = some a → y = some a

namespace Le
variable {α β : Type*}

theorem refl (x : Option α) : Le x x := fun _ h => h

theorem bind {x y : Option α} {f g : α → Option β} (hxy : Le x y) (hfg : ∀ a, Le (f a) (g a)) :
    Le (x.bind f) (y.bind g) := by
  intro b h
  obtain ⟨a, ha, hb⟩ := Option.bind_eq_some_iff.mp h
  rw [hxy a ha]
  exact hfg a b hb

theorem map {x y : Option α} (f : α → β) (hxy : Le x y) : Le (x.map f) (y.map f) := by
  intro b h
  obtain ⟨a, ha, hb⟩ := Option.map_eq_some_iff.mp h
  rw [hxy a ha, Option.map_some, hb]

theorem ite {p : Prop} [Decidable p] {x x' y y' : Option α} (hx : Le x x') (hy : Le y y') :
    Le (if p then x else y) (if p then x' else y') := by
  by_cases hp : p
  · simpa [hp] using hx
  · simpa [hp] using hy

end Le

/-- An evaluator that answers wherever another one does. -/
def Extends (ev ev' : Eval W) : Prop := ∀ c i s, Le (ev c i s) (ev' c i s)

theorem choose_le {o : Outcome W} {yes no yes' no' : State W → Option (Outcome W)}
    (hyes : ∀ s, Le (yes s) (yes' s)) (hno : ∀ s, Le (no s) (no' s)) :
    Le (choose o yes no) (choose o yes' no') := by
  unfold choose
  refine Le.ite (Le.refl _) (Le.map _ ?_)
  split
  · exact hyes _
  · exact hno _

section Mono
variable {ev ev' : Eval W} (hev : Extends ev ev') (input : String)
include hev

theorem expandPart_le (p : Part) (s : State W) :
    Le (expandPart ev input p s) (expandPart ev' input p s) := by
  match p with
  | .lit _ | .var _ | .braced _ | .arg _ | .status => exact Le.refl _
  | .subst cmd => exact (hev cmd input s).map _
  | .sum a b =>
    exact (expandPart_le a s).bind fun ea => (expandPart_le b (s.setWorld ea.world)).map _

theorem expandParts_le (ps : List Part) (s : State W) :
    Le (expandParts ev input ps s) (expandParts ev' input ps s) := by
  induction ps generalizing s with
  | nil => exact Le.refl _
  | cons p ps ih =>
    exact (expandPart_le hev input p s).bind fun e => (ih (s.setWorld e.world)).map _

theorem expandSeg_le (g : Seg) (s : State W) :
    Le (expandSeg ev input g s) (expandSeg ev' input g s) := by
  cases g with
  | lit text => exact Le.refl _
  | single text => exact Le.refl _
  | double parts => exact expandParts_le hev input parts s
  | escaped c => exact Le.refl _

theorem expandSegs_le (gs : List Seg) (s : State W) :
    Le (expandSegs ev input gs s) (expandSegs ev' input gs s) := by
  induction gs generalizing s with
  | nil => exact Le.refl _
  | cons g gs ih =>
    exact (expandSeg_le hev input g s).bind fun e => (ih (s.setWorld e.world)).map _

theorem expandText_le (w : Word) (s : State W) :
    Le (expandText ev input w s) (expandText ev' input w s) := by
  cases w with
  | bare part => exact expandPart_le hev input part s
  | joined segs => exact expandSegs_le hev input segs s
  | escaped before part after => exact (expandPart_le hev input part s).map _

theorem expandWords_le (ws : List Word) (s : State W) :
    Le (expandWords ev input ws s) (expandWords ev' input ws s) := by
  induction ws generalizing s with
  | nil => exact Le.refl _
  | cons w ws ih =>
    exact (expandText_le hev input w s).bind fun e => (ih (s.setWorld e.world)).map _

theorem runSimple_le (tools : Tools W) (argv : List String) (s : State W) :
    Le (runSimple tools ev argv input s) (runSimple tools ev' argv input s) := by
  unfold runSimple
  split <;> try exact Le.refl _
  split
  · exact (hev _ _ _).map _
  · exact Le.refl _

theorem runLoop_le (c body : Cmd) {k k' : Nat} (hk : k ≤ k') (last : Nat) (s : State W) :
    Le (runLoop ev c body input k last s) (runLoop ev' c body input k' last s) := by
  induction k generalizing k' last s with
  | zero =>
    intro o h
    cases h
  | succ k ih =>
    obtain ⟨k', rfl⟩ : ∃ j, k' = j + 1 := ⟨k' - 1, by omega⟩
    refine (hev c input s).bind fun o => Le.ite (Le.refl _) (Le.ite (Le.refl _) ?_)
    refine (hev body input o.state).bind fun ob => Le.ite (Le.refl _) (Le.map _ ?_)
    exact ih (by omega) ob.state.status ob.state

end Mono

theorem eval_extends (tools : Tools W) {n m : Nat} (h : n ≤ m) :
    Extends (eval tools n) (eval tools m) := by
  induction n generalizing m with
  | zero =>
    intro c i s o ho
    cases ho
  | succ n ih =>
    obtain ⟨m, rfl⟩ : ∃ k, m = k + 1 := ⟨m - 1, by omega⟩
    have hev : Extends (eval tools n) (eval tools m) := ih (by omega)
    intro c i s
    cases c with
    | simple words =>
      exact (expandWords_le hev i words s).bind fun f =>
        (runSimple_le hev i tools f.argv (s.setWorld f.world)).map _
    | assign name value => exact (expandText_le hev i value s).map _
    | seq a b =>
      exact (hev a i s).bind fun o => Le.ite (Le.refl _) ((hev b i o.state).map _)
    | pipe a b => exact (hev a i s).bind fun o => (hev b _ _).map _
    | or a b => exact (hev a i s).bind fun o => choose_le (fun _ => Le.refl _) (hev b i)
    | and a b => exact (hev a i s).bind fun o => choose_le (hev b i) fun _ => Le.refl _
    | not body => exact (hev body i s).map _
    | cond c t e => exact (hev c i s).bind fun o => choose_le (hev t i) (hev e i)
    | condElif c t c' t' e =>
      exact (hev c i s).bind fun o => choose_le (hev t i) (hev (.cond c' t' e) i)
    | when c t => exact (hev c i s).bind fun o => choose_le (hev t i) fun _ => Le.refl _
    | loop c body => exact runLoop_le hev i c body (by omega) 0 s
    | case word arms =>
      refine (expandText_le hev i word s).bind fun e => ?_
      cases arms.select e.text with
      | none => exact Le.refl _
      | some body => exact (hev body i (s.setWorld e.world)).map _
    | fn name body => exact Le.refl _
    | group body => exact hev body i s
    | subshell body => exact (hev body i s).map _
    | redirect body rs => exact (hev body _ s).map _

variable {tools : Tools W}

/-- Two runs of one command that both end have one outcome. -/
theorem eval_unique {n m : Nat} {c : Cmd} {i : String} {s : State W} {o o' : Outcome W}
    (h : eval tools n c i s = some o) (h' : eval tools m c i s = some o') : o = o' := by
  cases Nat.le_total n m with
  | inl hle =>
    have ho := eval_extends tools hle c i s o h
    rwa [h', Option.some_inj, eq_comm] at ho
  | inr hle =>
    have ho := eval_extends tools hle c i s o' h'
    rwa [h, Option.some_inj] at ho

/-- The command ends, and its outcome meets `Q`. -/
def Ends (tools : Tools W) (c : Cmd) (i : String) (s : State W) (Q : Outcome W → Prop) : Prop :=
  ∃ n o, eval tools n c i s = some o ∧ Q o

/-- The rest of a loop ends, after a body with the status `last`. -/
def LoopEnds (tools : Tools W) (c body : Cmd) (i : String) (last : Nat) (s : State W)
    (Q : Outcome W → Prop) : Prop :=
  ∃ n k o, runLoop (eval tools n) c body i k last s = some o ∧ Q o

theorem eval_of_le {n m : Nat} {c : Cmd} {i : String} {s : State W} {o : Outcome W}
    (h : eval tools n c i s = some o) (hle : n ≤ m) : eval tools m c i s = some o :=
  eval_extends tools hle c i s o h

@[simp] theorem State.setWorld_self (s : State W) : s.setWorld s.world = s := rfl

@[simp] theorem Outcome.after_nil (o : Outcome W) : o.after [] = o := rfl

@[simp] theorem Outcome.after_state (o : Outcome W) (out : Chunks) :
    (o.after out).state = o.state := rfl

@[simp] theorem Outcome.after_flow (o : Outcome W) (out : Chunks) :
    (o.after out).flow = o.flow := rfl

@[simp] theorem Outcome.after_out (o : Outcome W) (out : Chunks) :
    (o.after out).out = out ++ o.out := rfl

theorem textOf_append (t : Stream) (a b : Chunks) :
    textOf t (a ++ b) = textOf t a ++ textOf t b := by
  induction a with
  | nil => simp [textOf]
  | cons c a ih =>
    rw [List.cons_append, textOf, textOf]
    split
    · rw [ih, String.append_assoc]
    · exact ih

@[simp] theorem textOf_dropStream (t : Stream) (a : Chunks) : textOf t (dropStream t a) = "" := by
  induction a with
  | nil => rfl
  | cons c a ih =>
    by_cases h : c.1 = t
    · simpa [dropStream, h] using ih
    · simpa [dropStream, h, textOf] using ih

/-- `2>/dev/null` leaves what goes to stdout. -/
theorem textOf_errNull (out : Chunks) :
    textOf .out ((outlets [.errNull]).route out) = textOf .out out := by
  induction out with
  | nil => rfl
  | cons c out ih =>
    obtain ⟨stream, text⟩ := c
    cases stream with
    | out =>
      have hroute : (outlets [.errNull]).route ((Stream.out, text) :: out) =
          (.out, text) :: (outlets [.errNull]).route out := rfl
      rw [hroute, textOf, textOf, if_pos rfl, if_pos rfl, ih]
    | err =>
      have hroute : (outlets [.errNull]).route ((Stream.err, text) :: out) =
          (outlets [.errNull]).route out := rfl
      have hne : ¬Stream.err = Stream.out := by decide
      rw [hroute, textOf, if_neg hne, ih]

/-- The newline that ends a line is not part of a captured text. -/
theorem trimNewlines_line {text : String} (h : text.toList.getLast? ≠ some '\n') :
    trimNewlines (text ++ "\n") = text := by
  have hline : (text ++ "\n").toList = text.toList ++ ['\n'] := by simp
  have hlast : text.toList.rdropWhile (fun c => c == '\n') = text.toList := by
    rw [List.rdropWhile_eq_self_iff]
    intro hne hc
    rw [List.getLast?_eq_some_getLast hne] at h
    exact h (congrArg some (by simpa using hc))
  rw [trimNewlines, hline, List.rdropWhile_concat_pos _ _ _ (by rfl), hlast, String.ofList_toList]

theorem getLast?_toString_ne (n : Nat) : (toString n).toList.getLast? ≠ some '\n' := by
  intro h
  have hdigit := Str.isDigit_of_mem_toString (List.mem_of_getLast? h)
  cases hdigit

theorem number_toString (n : Nat) : number (toString n) = some n := by
  have hne : toString n ≠ "" := by
    intro h
    have hnil : (toString n).toList = [] := by rw [h]; rfl
    rw [Nat.toString_eq_repr, Nat.toList_repr] at hnil
    exact Nat.toDigits_ne_nil hnil
  rw [number, if_neg hne, Str.digitsValue_toString]

@[simp] theorem number_repr (n : Nat) : number n.repr = some n := number_toString n

@[simp] theorem test_ge (a b : Nat) : test [a.repr, "-ge", b.repr] = some (decide (b ≤ a)) := by
  simp only [test, number_repr, Option.bind_some, Option.map_some]

/-- A quoted expansion is its text. -/
theorem expandText_quoted {ev : Eval W} {i : String} {s : State W} {p : Part} {x : Expansion W}
    (h : expandPart ev i p s = some x) : expandText ev i (.joined [.double [p]]) s = some x := by
  simp [expandText, expandSegs, expandSeg, expandParts, h, Expansion.join, State.setWorld]

/-- An expansion between two escaped characters. -/
theorem expandText_escaped {ev : Eval W} {i : String} {s : State W} {a b : Char} {p : Part}
    {x : Expansion W} (h : expandPart ev i p s = some x) :
    expandText ev i (.escaped a p b) s =
      some { x with text := String.singleton a ++ (x.text ++ String.singleton b) } := by
  rw [expandText, h, Option.map_some]

/-- A word of one field, in front of other words. -/
theorem expandWords_one {ev : Eval W} {i : String} {s : State W} {w : Word} {ws : List Word}
    {x : Expansion W} {f : Fields W} (h : expandText ev i w s = some x)
    (hone : w.fields x.text = [x.text]) (hws : expandWords ev i ws (s.setWorld x.world) = some f) :
    expandWords ev i (w :: ws) s =
      some ⟨x.text :: f.argv, f.world, x.out ++ f.out, f.status.or x.status⟩ := by
  rw [expandWords, h, Option.bind_some, hws, Option.map_some, hone, List.singleton_append]

theorem expandWords_joined {ev : Eval W} {i : String} {s : State W} {segs : List Seg}
    {ws : List Word} {x : Expansion W} {f : Fields W}
    (h : expandText ev i (.joined segs) s = some x)
    (hws : expandWords ev i ws (s.setWorld x.world) = some f) :
    expandWords ev i (.joined segs :: ws) s =
      some ⟨x.text :: f.argv, f.world, x.out ++ f.out, f.status.or x.status⟩ :=
  expandWords_one h rfl hws

/-- The names that no function can take. -/
def special : List String := [":", "set", "break", "return", "exit", "exec"]

theorem runSimple_fun {ev : Eval W} {name : String} {args : List String} {i : String}
    {s : State W} {body : Cmd} (hname : name ∉ special) (hf : s.funs name = some body) :
    runSimple tools ev (name :: args) i s = callFun ev body args i s := by
  simp only [special, List.mem_cons, List.not_mem_nil, or_false, not_or] at hname
  unfold runSimple
  split <;> simp_all

theorem runSimple_plain {ev : Eval W} {name : String} {args : List String} {i : String}
    {s : State W} (hname : name ∉ special) (hf : s.funs name = none) :
    runSimple tools ev (name :: args) i s = some (runPlain tools name args i s) := by
  simp only [special, List.mem_cons, List.not_mem_nil, or_false, not_or] at hname
  unfold runSimple
  split <;> simp_all

theorem printf_line (a : String) : printf "%s\\n" [a] = a ++ "\n" := by
  apply String.toList_inj.mp
  simp [printf, formatAll, formatOnce]

theorem printf_pair (a b : String) : printf "%s %s\\n" [a, b] = a ++ (" " ++ (b ++ "\n")) := by
  apply String.toList_inj.mp
  simp [printf, formatAll, formatOnce]

namespace Ends
variable {a b c t e : Cmd} {i : String} {s : State W} {P Q : Outcome W → Prop}

theorem weaken (h : Ends tools c i s P) (hPQ : ∀ o, P o → Q o) : Ends tools c i s Q := by
  obtain ⟨n, o, ho, hP⟩ := h
  exact ⟨n, o, ho, hPQ o hP⟩

/-- All runs that end have the outcome one of them has. -/
theorem unique (h : Ends tools c i s P) (h' : Ends tools c i s Q) :
    Ends tools c i s fun o => P o ∧ Q o := by
  obtain ⟨n, o, ho, hP⟩ := h
  obtain ⟨m, o', ho', hQ⟩ := h'
  have heq : o = o' := eval_unique ho ho'
  exact ⟨n, o, ho, hP, heq ▸ hQ⟩

theorem simple {ws : List Word} {f : Fields W} {n m : Nat} {o : Outcome W}
    (hw : expandWords (eval tools n) i ws s = some f)
    (hr : runSimple tools (eval tools m) f.argv i (s.setWorld f.world) = some o)
    (hQ : Q (o.after f.out)) : Ends tools (.simple ws) i s Q := by
  have hw' := expandWords_le (eval_extends tools (Nat.le_max_left n m)) i ws s f hw
  have hr' := runSimple_le (eval_extends tools (Nat.le_max_right n m)) i tools f.argv
    (s.setWorld f.world) o hr
  refine ⟨max n m + 1, o.after f.out, ?_, hQ⟩
  simp only [eval_simple, hw', hr', Option.bind_some, Option.map_some]

theorem assign {name : String} {value : Word} {x : Expansion W} {n : Nat}
    (hx : expandText (eval tools n) i value s = some x)
    (hQ : Q (finish ((s.setWorld x.world).setVar name x.text) (x.status.getD 0) x.out)) :
    Ends tools (.assign name value) i s Q := by
  refine ⟨n + 1, _, ?_, hQ⟩
  simp only [eval_assign, hx, Option.map_some]

/-- A command whose words hold no command substitution. -/
theorem plain {ws : List Word} {argv : List String} {o : Outcome W}
    (hw : expandWords (eval tools 0) i ws s = some ⟨argv, s.world, [], none⟩)
    (hr : runSimple tools (eval tools 0) argv i s = some o) (hQ : Q o) :
    Ends tools (.simple ws) i s Q :=
  simple hw hr hQ

/-- A function runs with the arguments of its call; the caller has its own back afterwards. -/
theorem call {ws : List Word} {name : String} {args : List String}
    (hw : expandWords (eval tools 0) i ws s = some ⟨name :: args, s.world, [], none⟩)
    (hname : name ∉ special) (hf : s.funs name = some c)
    (h : Ends tools c i (s.setArgs args) fun o =>
      Q ⟨o.state.setArgs s.args, o.out, if o.flow = .ret then .next else o.flow⟩) :
    Ends tools (.simple ws) i s Q := by
  obtain ⟨n, o, ho, hQ⟩ := h
  have hr : runSimple tools (eval tools n) (name :: args) i s =
      some ⟨o.state.setArgs s.args, o.out, if o.flow = .ret then .next else o.flow⟩ := by
    rw [runSimple_fun hname hf, callFun, ho, Option.map_some]
  exact simple hw hr hQ

/-- `name=$(c)` keeps what `c` prints and the status it ends with. -/
theorem assign_subst {name : String} (h : Ends tools c i s fun o =>
      Q (finish ((s.setWorld o.state.world).setVar name (trimNewlines (textOf .out o.out)))
        o.state.status (dropStream .out o.out))) :
    Ends tools (.assign name (.bare (.subst c))) i s Q := by
  obtain ⟨n, o, ho, hQ⟩ := h
  have hx : expandText (eval tools n) i (.bare (.subst c)) s =
      some ⟨trimNewlines (textOf .out o.out), o.state.world, dropStream .out o.out,
        some o.state.status⟩ := by
    simp only [expandText, expandPart, ho, Option.map_some]
  exact assign hx hQ

theorem seq (h : Ends tools a i s fun o =>
      o.flow = .next ∧ Ends tools b i o.state fun r => Q (r.after o.out)) :
    Ends tools (.seq a b) i s Q := by
  obtain ⟨n, o, ho, hflow, m, r, hr, hQ⟩ := h
  refine ⟨max n m + 1, r.after o.out, ?_, hQ⟩
  simp only [eval_seq, eval_of_le ho (Nat.le_max_left n m), eval_of_le hr (Nat.le_max_right n m),
    hflow, Option.bind_some, Option.map_some, ne_eq, not_true_eq_false, if_false]

theorem seq_stop (h : Ends tools a i s fun o => o.flow ≠ .next ∧ Q o) :
    Ends tools (.seq a b) i s Q := by
  obtain ⟨n, o, ho, hflow, hQ⟩ := h
  refine ⟨n + 1, o, ?_, hQ⟩
  simp only [eval_seq, ho, Option.bind_some, if_pos hflow]

theorem pipe (h : Ends tools a i s fun o =>
      Ends tools b (textOf .out o.out) (s.setWorld o.state.world) fun r =>
        Q ⟨s.leave r.state, dropStream .out o.out ++ r.out, .next⟩) :
    Ends tools (.pipe a b) i s Q := by
  obtain ⟨n, o, ho, m, r, hr, hQ⟩ := h
  refine ⟨max n m + 1, _, ?_, hQ⟩
  simp only [eval_pipe, eval_of_le ho (Nat.le_max_left n m), eval_of_le hr (Nat.le_max_right n m),
    Option.bind_some, Option.map_some]

theorem cond (h : Ends tools c i s fun o => o.flow = .next ∧
      Ends tools (if o.state.status = 0 then t else e) i o.state fun r => Q (r.after o.out)) :
    Ends tools (.cond c t e) i s Q := by
  obtain ⟨n, o, ho, hflow, m, r, hr, hQ⟩ := h
  refine ⟨max n m + 1, r.after o.out, ?_, hQ⟩
  have hr' := eval_of_le hr (Nat.le_max_right n m)
  simp only [eval_cond, eval_of_le ho (Nat.le_max_left n m), Option.bind_some, choose, hflow,
    ne_eq, not_true_eq_false, if_false]
  split
  · next hs =>
    rw [if_pos hs] at hr'
    rw [hr', Option.map_some]
  · next hs =>
    rw [if_neg hs] at hr'
    rw [hr', Option.map_some]

theorem condElif {c' t' : Cmd} (h : Ends tools c i s fun o => o.flow = .next ∧
      Ends tools (if o.state.status = 0 then t else .cond c' t' e) i o.state
        fun r => Q (r.after o.out)) :
    Ends tools (.condElif c t c' t' e) i s Q := by
  obtain ⟨n, o, ho, hflow, m, r, hr, hQ⟩ := h
  refine ⟨max n m + 1, r.after o.out, ?_, hQ⟩
  have hr' := eval_of_le hr (Nat.le_max_right n m)
  simp only [eval_condElif, eval_of_le ho (Nat.le_max_left n m), Option.bind_some, choose, hflow,
    ne_eq, not_true_eq_false, if_false]
  split
  · next hs =>
    rw [if_pos hs] at hr'
    rw [hr', Option.map_some]
  · next hs =>
    rw [if_neg hs] at hr'
    rw [hr', Option.map_some]

/-- A word that no arm accepts. -/
theorem case_none {word : Word} {arms : Arms} {x : Expansion W} {n : Nat}
    (hx : expandText (eval tools n) i word s = some x) (hnone : arms.select x.text = none)
    (hQ : Q (finish (s.setWorld x.world) 0 x.out)) : Ends tools (.case word arms) i s Q := by
  refine ⟨n + 1, _, ?_, hQ⟩
  simp only [eval_case, hx, Option.bind_some, hnone]

theorem not (h : Ends tools c i s fun o => o.flow = .next ∧
      Q { o with state := o.state.setStatus (statusOf (o.state.status ≠ 0)) }) :
    Ends tools (.not c) i s Q := by
  obtain ⟨n, o, ho, hflow, hQ⟩ := h
  refine ⟨n + 1, _, ?_, hQ⟩
  simp only [eval_not, ho, Option.map_some, hflow, ne_eq, not_true_eq_false, if_false]

theorem and_true (h : Ends tools a i s fun o => o.flow = .next ∧ o.state.status = 0 ∧
      Ends tools b i o.state fun r => Q (r.after o.out)) :
    Ends tools (.and a b) i s Q := by
  obtain ⟨n, o, ho, hflow, hs, m, r, hr, hQ⟩ := h
  refine ⟨max n m + 1, r.after o.out, ?_, hQ⟩
  simp only [eval_and, eval_of_le ho (Nat.le_max_left n m), eval_of_le hr (Nat.le_max_right n m),
    Option.bind_some, choose, hflow, hs, ne_eq, not_true_eq_false, if_false, if_true,
    Option.map_some]

theorem and_false (h : Ends tools a i s fun o => o.flow = .next ∧ o.state.status ≠ 0 ∧ Q o) :
    Ends tools (.and a b) i s Q := by
  obtain ⟨n, o, ho, hflow, hs, hQ⟩ := h
  refine ⟨n + 1, o, ?_, hQ⟩
  obtain ⟨state, out, flow⟩ := o
  simp only at hflow hs
  simp only [eval_and, ho, Option.bind_some, choose, hflow, hs, ne_eq, not_true_eq_false, if_false,
    Option.map_some, Outcome.after, List.append_nil]

theorem when_true (h : Ends tools c i s fun o => o.flow = .next ∧ o.state.status = 0 ∧
      Ends tools t i o.state fun r => Q (r.after o.out)) :
    Ends tools (.when c t) i s Q := by
  obtain ⟨n, o, ho, hflow, hs, m, r, hr, hQ⟩ := h
  refine ⟨max n m + 1, r.after o.out, ?_, hQ⟩
  simp only [eval_when, eval_of_le ho (Nat.le_max_left n m), eval_of_le hr (Nat.le_max_right n m),
    Option.bind_some, choose, hflow, hs, ne_eq, not_true_eq_false, if_false, if_true,
    Option.map_some]

theorem when_false (h : Ends tools c i s fun o => o.flow = .next ∧ o.state.status ≠ 0 ∧
      Q (finish o.state 0 o.out)) :
    Ends tools (.when c t) i s Q := by
  obtain ⟨n, o, ho, hflow, hs, hQ⟩ := h
  refine ⟨n + 1, _, ?_, hQ⟩
  simp only [eval_when, ho, Option.bind_some, choose, hflow, hs, ne_eq, not_true_eq_false, if_false,
    Option.map_some, finish, Outcome.after, List.append_nil]

theorem fn {name : String} (hQ : Q (finish (s.setFun name c) 0 [])) :
    Ends tools (.fn name c) i s Q := ⟨1, _, rfl, hQ⟩

theorem group (h : Ends tools c i s Q) : Ends tools (.group c) i s Q := by
  obtain ⟨n, o, ho, hQ⟩ := h
  exact ⟨n + 1, o, ho, hQ⟩

theorem redirect {rs : List Redir}
    (h : Ends tools c (inputFor rs i) s fun o => Q { o with out := (outlets rs).route o.out }) :
    Ends tools (.redirect c rs) i s Q := by
  obtain ⟨n, o, ho, hQ⟩ := h
  refine ⟨n + 1, _, ?_, hQ⟩
  simp only [eval_redirect, ho, Option.map_some]

theorem loop (h : LoopEnds tools c b i 0 s Q) : Ends tools (.loop c b) i s Q := by
  obtain ⟨n, k, o, ho, hQ⟩ := h
  refine ⟨max n k + 1, o, ?_, hQ⟩
  rw [eval_loop]
  exact runLoop_le (eval_extends tools (Nat.le_max_left n k)) i c b (Nat.le_max_right n k) 0 s
    o ho

end Ends

namespace LoopEnds
variable {c b : Cmd} {i : String} {last : Nat} {s : State W} {Q : Outcome W → Prop}

/-- One more round of the loop: its test holds and its body ends. -/
theorem step (h : Ends tools c i s fun o => o.flow = .next ∧ o.state.status = 0 ∧
      Ends tools b i o.state fun r =>
        if r.flow ≠ .next then Q ((leaveLoop r).after o.out)
        else LoopEnds tools c b i r.state.status r.state fun q => Q (q.after (o.out ++ r.out))) :
    LoopEnds tools c b i last s Q := by
  obtain ⟨n, o, ho, hflow, hs, m, r, hr, h⟩ := h
  by_cases hr' : r.flow = .next
  · rw [if_neg (not_not.mpr hr')] at h
    obtain ⟨p, k, q, hq, hQ⟩ := h
    have hn : n ≤ max (max n m) p := by omega
    have hm : m ≤ max (max n m) p := by omega
    have hp : p ≤ max (max n m) p := by omega
    refine ⟨max (max n m) p, k + 1, q.after (o.out ++ r.out), ?_, hQ⟩
    have hq' := runLoop_le (eval_extends tools hp) i c b (Nat.le_refl k) r.state.status r.state
      q hq
    simp only [runLoop, eval_of_le ho hn, eval_of_le hr hm, hq', Option.bind_some, hflow, hs, hr',
      ne_eq, not_true_eq_false, if_false, Option.map_some]
  · rw [if_pos hr'] at h
    refine ⟨max n m, 1, (leaveLoop r).after o.out, ?_, h⟩
    simp only [runLoop, eval_of_le ho (Nat.le_max_left n m),
      eval_of_le hr (Nat.le_max_right n m), Option.bind_some, hflow, hs, hr', ne_eq,
      not_true_eq_false, not_false_eq_true, if_false, if_true]

end LoopEnds

end Shell
