import Shellflow.Lib.ShellRules

/-! Rules for commands that never end, whatever fuel they are given. -/
namespace Shell
universe u
variable {W : Type u} {tools : Tools W}

/-- A run that ends meets what is known of the command. -/
theorem Ends.of_eval {n : Nat} {c : Cmd} {i : String} {s : State W} {o : Outcome W}
    {Q : Outcome W → Prop} (h : Ends tools c i s Q) (ho : eval tools n c i s = some o) : Q o := by
  obtain ⟨m, o', ho', hQ⟩ := h
  rwa [eval_unique ho ho']

/-- The command never ends. -/
def Hangs (tools : Tools W) (c : Cmd) (i : String) (s : State W) : Prop :=
  ∀ n, eval tools n c i s = none

namespace Hangs
variable {a b c t e : Cmd} {i : String} {s : State W} {Q : Outcome W → Prop}

theorem not_ends (h : Hangs tools c i s) : ¬ Ends tools c i s Q := by
  rintro ⟨n, o, ho, -⟩
  rw [h n] at ho
  cases ho

theorem seq (h : Ends tools a i s fun o => o.flow = .next ∧ Hangs tools b i o.state) :
    Hangs tools (.seq a b) i s := by
  intro n
  cases n with
  | zero => rfl
  | succ n =>
    rw [eval_seq]
    cases ho : eval tools n a i s with
    | none => rfl
    | some o =>
      obtain ⟨hflow, hb⟩ := h.of_eval ho
      rw [Option.bind_some, if_neg (not_not_intro hflow), hb n, Option.map_none]

theorem cond (h : Hangs tools c i s) : Hangs tools (.cond c t e) i s := by
  intro n
  cases n with
  | zero => rfl
  | succ n => rw [eval_cond, h n, Option.bind_none]

/-- `name=$(c)` waits for `c`. -/
theorem assign_subst {name : String} (h : Hangs tools c i s) :
    Hangs tools (.assign name (.bare (.subst c))) i s := by
  intro n
  cases n with
  | zero => rfl
  | succ n => rw [eval_assign, expandText, expandPart, h n, Option.map_none, Option.map_none]

theorem call {ws : List Word} {name : String} {args : List String}
    (hw : ∀ n, expandWords (eval tools n) i ws s = some ⟨name :: args, s.world, [], none⟩)
    (hname : name ∉ special) (hf : s.funs name = some c) (h : Hangs tools c i (s.setArgs args)) :
    Hangs tools (.simple ws) i s := by
  intro n
  cases n with
  | zero => rfl
  | succ n =>
    rw [eval_simple, hw n, Option.bind_some, State.setWorld_self, runSimple_fun hname hf, callFun, h n,
      Option.map_none, Option.map_none]

/-- A loop whose rounds keep an invariant, with a test that holds and a body that goes on. -/
theorem loop (Inv : State W → Prop)
    (hround : ∀ s, Inv s → Ends tools c i s fun o => o.flow = .next ∧ o.state.status = 0 ∧
      Ends tools b i o.state fun r => r.flow = .next ∧ Inv r.state)
    (hs : Inv s) : Hangs tools (.loop c b) i s := by
  have hrun : ∀ n k last s, Inv s → runLoop (eval tools n) c b i k last s = none := by
    intro n k
    induction k with
    | zero => exact fun _ _ _ => rfl
    | succ k ih =>
      intro last s hs
      rw [runLoop]
      cases ho : eval tools n c i s with
      | none => rfl
      | some o =>
        obtain ⟨hflow, hstatus, hbody⟩ := (hround s hs).of_eval ho
        rw [Option.bind_some, if_neg (not_not_intro hflow), if_neg (not_not_intro hstatus)]
        cases hr : eval tools n b i o.state with
        | none => rfl
        | some r =>
          obtain ⟨hnext, hinv⟩ := hbody.of_eval hr
          rw [Option.bind_some, if_neg (not_not_intro hnext), ih _ _ hinv, Option.map_none]
  intro n
  cases n with
  | zero => rfl
  | succ n => exact hrun n n 0 s hs

end Hangs

end Shell
