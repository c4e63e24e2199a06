import Shellflow.Lib.ShellRules

/-! Shells that end: the exit trap, the commands that set and remove it, and subshells with a trap of
their own. Code that is only given as text can do anything a shell can do. -/
namespace ExitTrap
open Shell
universe u
variable {W : Type u}

/-- What a shell runs before it exits: a command, or any code. -/
inductive Action (W : Type u)
  | cmd (body : Cmd)
  | code (run : State W → Option (Outcome W))

structure Proc (W : Type u) where
  trap : Option (Action W)
  state : State W

/-- How a piece of code leaves its shell. A signal may end the shell at once or after its trap. -/
inductive Ending
  | next
  | exit
  | replaced (status : Nat)
  | killed (signal : Nat)
  | interrupted (signal : Nat)
deriving DecidableEq, Repr

/-- What others see of a shell that has ended. -/
inductive Left
  | code (n : Nat)
  | signal (n : Nat)
deriving DecidableEq, Repr

def Left.status : Left → Nat
  | code n => n
  | signal n => 128 + n

/-- What a piece of code does to the shell that runs it; code that never ends is none. -/
abbrev Code (W : Type u) := Proc W → Option (Ending × Proc W)

inductive Separator
  | semicolon
  | newline
deriving DecidableEq, Repr

inductive Script
  | user (text : String)
  | set (flag : String)
  | trapExit (action : Cmd)
  | untrap
  | exit (status : Nat)
  | seq (separator : Separator) (a b : Script)
  | ifFails (test body : Script)
  | quiet (body : Script)

def Separator.render : Separator → String
  | semicolon => "; "
  | newline => "\n"

def Script.render : Script → String
  | user text => text
  | set flag => "set " ++ flag
  | trapExit action => "trap '" ++ (action.render ++ "' EXIT")
  | untrap => "trap - EXIT"
  | exit status => "exit " ++ toString status
  | seq separator a b => a.render ++ (separator.render ++ b.render)
  | ifFails test body => "if ! " ++ (test.render ++ ("; then " ++ (body.render ++ "; fi")))
  | quiet body => "( " ++ (body.render ++ " ) >/dev/null 2>&1")

def Proc.setStatus (p : Proc W) (status : Nat) : Proc W := { p with state := p.state.setStatus status }

def Proc.setTrap (p : Proc W) (trap : Option (Action W)) : Proc W := { p with trap := trap }

section Run
variable (tools : Tools W) (fuel : Nat)

def Action.run : Action W → State W → Option (Outcome W)
  | cmd body, s => eval tools fuel body "" s
  | code run, s => run s

/-- A shell that leaves runs its trap first; an `exit` in there has the last word. -/
def Proc.leave (p : Proc W) (own : Left) : Option (Left × W) :=
  match p.trap with
  | none => some (own, p.state.world)
  | some action =>
    (action.run tools fuel (p.state.setStatus own.status)).map fun o =>
      (if o.flow = .exit then .code (o.state.status % 256) else own, o.state.world)

/-- The end of a shell whose code has ended. -/
def left : Ending × Proc W → Option (Left × W)
  | (.next, p) => p.leave tools fuel (.code (p.state.status % 256))
  | (.exit, p) => p.leave tools fuel (.code (p.state.status % 256))
  | (.interrupted signal, p) => p.leave tools fuel (.signal signal)
  | (.replaced status, p) => some (.code (status % 256), p.state.world)
  | (.killed signal, p) => some (.signal signal, p.state.world)

/-- A subshell starts without the trap of its shell, which sees its status and what it did to the
world. -/
def subshell (body : Code W) : Code W := fun p =>
  ((body (p.setTrap none)).bind (left tools fuel)).map fun r =>
    (.next, ⟨p.trap, (p.state.setWorld r.2).setStatus r.1.status⟩)

variable (meaning : String → Code W)

def Script.run : Script → Code W
  | user text, p => meaning text p
  | set _, p => some (.next, p.setStatus 0)
  | trapExit action, p => some (.next, (p.setTrap (some (.cmd action))).setStatus 0)
  | untrap, p => some (.next, (p.setTrap none).setStatus 0)
  | exit status, p => some (.exit, p.setStatus status)
  | seq _ a b, p => (a.run p).bind fun r => if r.1 = .next then b.run r.2 else some r
  | ifFails test body, p =>
    (test.run p).bind fun r =>
      if r.1 ≠ .next then some r
      else if r.2.state.status = 0 then some (.next, r.2.setStatus 0) else body.run r.2
  | quiet body, p => subshell tools fuel body.run p

end Run

section Rules
variable {tools : Tools W} {fuel : Nat} {meaning : String → Code W}

@[simp] theorem Proc.setTrap_trap (p : Proc W) (trap : Option (Action W)) :
    (p.setTrap trap).trap = trap := rfl

@[simp] theorem Proc.setTrap_state (p : Proc W) (trap : Option (Action W)) :
    (p.setTrap trap).state = p.state := rfl

@[simp] theorem Proc.setStatus_trap (p : Proc W) (status : Nat) : (p.setStatus status).trap = p.trap :=
  rfl

@[simp] theorem Proc.setStatus_state (p : Proc W) (status : Nat) :
    (p.setStatus status).state = p.state.setStatus status := rfl

theorem Script.run_seq {separator : Separator} {a b : Script} {p p' : Proc W}
    (h : a.run tools fuel meaning p = some (.next, p')) :
    (seq separator a b).run tools fuel meaning p = b.run tools fuel meaning p' := by
  rw [run, h, Option.bind_some, if_pos rfl]

theorem Script.run_seq_none {separator : Separator} {a b : Script} {p : Proc W}
    (h : a.run tools fuel meaning p = none) :
    (seq separator a b).run tools fuel meaning p = none := by
  rw [run, h, Option.bind_none]

theorem Script.run_seq_stop {separator : Separator} {a b : Script} {p : Proc W} {r : Ending × Proc W}
    (h : a.run tools fuel meaning p = some r) (hstop : r.1 ≠ .next) :
    (seq separator a b).run tools fuel meaning p = some r := by
  rw [run, h, Option.bind_some, if_neg hstop]

/-- A subshell gives its shell back with the trap it had. -/
theorem subshell_eq_some {body : Code W} {p : Proc W} {r : Ending × Proc W}
    (h : subshell tools fuel body p = some r) : r.1 = .next ∧ r.2.trap = p.trap := by
  rw [subshell, Option.map_eq_some_iff] at h
  obtain ⟨-, -, rfl⟩ := h
  exact ⟨rfl, rfl⟩

/-- Without a trap a shell leaves with its own status. -/
theorem left_untrapped {p : Proc W} (h : p.trap = none) :
    left tools fuel (.exit, p) = some (.code (p.state.status % 256), p.state.world) := by
  rw [left, Proc.leave, h]

/-- A trap that exits with `m` on the status `n`, and keeps every other status, hides `n`. -/
theorem leave_ne_of_remaps {p : Proc W} {action : Action W} {own : Left} {n m : Nat} {r : Left × W}
    (htrap : p.trap = some action) (hnm : m % 256 ≠ n)
    (hexit : ∀ o, action.run tools fuel (p.state.setStatus n) = some o →
      o.flow = .exit ∧ o.state.status = m)
    (hkeep : ∀ status o, status ≠ n → action.run tools fuel (p.state.setStatus status) = some o →
      o.flow ≠ .exit) (h : p.leave tools fuel own = some r) : r.1 ≠ .code n := by
  rw [Proc.leave, htrap, Option.map_eq_some_iff] at h
  obtain ⟨o, ho, rfl⟩ := h
  by_cases hown : own.status = n
  · rw [hown] at ho
    obtain ⟨hflow, hstatus⟩ := hexit o ho
    rw [if_pos hflow, hstatus]
    exact fun heq => hnm (Left.code.inj heq)
  · rw [if_neg (hkeep _ o hown ho)]
    rintro rfl
    exact hown rfl

end Rules

end ExitTrap
