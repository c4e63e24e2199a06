import Mathlib.Data.Option.Basic
import Shellflow.Lib.Shell

/-! What a command of the shell does. External programs run to completion one after another, and
a pipeline runs its commands from left to right. -/
namespace Shell
universe u
variable {W : Type u}

/-- Variables, positional parameters, functions and `$?` of one shell. -/
structure State (W : Type u) where
  vars : String → Option String
  args : List String
  funs : String → Option Cmd
  status : Nat
  world : W

inductive Flow
  | next
  | brk
  | ret
  | exit
deriving DecidableEq, Repr

structure Outcome (W : Type u) where
  state : State W
  out : Chunks
  flow : Flow

structure ToolRun (W : Type u) where
  world : W
  out : Chunks
  status : Nat

/-- The programs of the host, by their arguments and their standard input. -/
abbrev Tools (W : Type u) := List String → String → W → ToolRun W

/-- An evaluator of commands, given the standard input. -/
abbrev Eval (W : Type u) := Cmd → String → State W → Option (Outcome W)

/-- What an expansion yields: its text, what its commands wrote to stderr and their status. -/
structure Expansion (W : Type u) where
  text : String
  world : W
  out : Chunks
  status : Option Nat

/-- The fields of a command line. -/
structure Fields (W : Type u) where
  argv : List String
  world : W
  out : Chunks
  status : Option Nat

def textOf (s : Stream) : Chunks → String
  | [] => ""
  | c :: out => if c.1 = s then c.2 ++ textOf s out else textOf s out

def dropStream (s : Stream) (out : Chunks) : Chunks := out.filter fun c => c.1 != s

def trimNewlines (text : String) : String :=
  String.ofList (text.toList.rdropWhile fun c => c == '\n')

/-- A decimal number; anything else is none. -/
def number (text : String) : Option Nat :=
  if text = "" then none else Str.digitsValue 10 0 text.toList

section States

def State.setVar (s : State W) (name value : String) : State W :=
  { s with vars := fun x => if x = name then some value else s.vars x }

def State.setFun (s : State W) (name : String) (body : Cmd) : State W :=
  { s with funs := fun f => if f = name then some body else s.funs f }

def State.setStatus (s : State W) (status : Nat) : State W := { s with status := status }

def State.setWorld (s : State W) (world : W) : State W := { s with world := world }

def State.setArgs (s : State W) (args : List String) : State W := { s with args := args }

/-- The shell after a subshell: the world and the status are all that come back. -/
def State.leave (s inner : State W) : State W :=
  { s with world := inner.world, status := inner.status }

def Outcome.after (o : Outcome W) (out : Chunks) : Outcome W := { o with out := out ++ o.out }

def finish (s : State W) (status : Nat) (out : Chunks) : Outcome W :=
  ⟨s.setStatus status, out, .next⟩

end States

section Expand
variable (ev : Eval W) (input : String)

def expandPart : Part → State W → Option (Expansion W)
  | .lit text, s => some ⟨text, s.world, [], none⟩
  | .var name, s => some ⟨(s.vars name).getD "", s.world, [], none⟩
  | .braced name, s => some ⟨(s.vars name).getD "", s.world, [], none⟩
  | .arg i, s => some ⟨s.args.getD (i - 1) "", s.world, [], none⟩
  | .status, s => some ⟨toString s.status, s.world, [], none⟩
  | .subst cmd, s =>
    (ev cmd input s).map fun o =>
      ⟨trimNewlines (textOf .out o.out), o.state.world, dropStream .out o.out,
        some o.state.status⟩
  | .sum a b, s =>
    (expandPart a s).bind fun ea =>
      (expandPart b (s.setWorld ea.world)).map fun eb =>
        -- an operand that is no number counts as zero
        ⟨toString ((number ea.text).getD 0 + (number eb.text).getD 0), eb.world,
          ea.out ++ eb.out, eb.status.or ea.status⟩

def Expansion.join (a b : Expansion W) : Expansion W :=
  ⟨a.text ++ b.text, b.world, a.out ++ b.out, b.status.or a.status⟩

def expandParts : List Part → State W → Option (Expansion W)
  | [], s => some ⟨"", s.world, [], none⟩
  | p :: ps, s =>
    (expandPart ev input p s).bind fun e =>
      (expandParts ps (s.setWorld e.world)).map e.join

def expandSeg : Seg → State W → Option (Expansion W)
  | .lit text, s => some ⟨text, s.world, [], none⟩
  | .single text, s => some ⟨text, s.world, [], none⟩
  | .double parts, s => expandParts ev input parts s
  | .escaped c, s => some ⟨String.singleton c, s.world, [], none⟩

def expandSegs : List Seg → State W → Option (Expansion W)
  | [], s => some ⟨"", s.world, [], none⟩
  | p :: ps, s =>
    (expandSeg ev input p s).bind fun e =>
      (expandSegs ps (s.setWorld e.world)).map e.join

/-- The text of a word before it is split: what an assignment and a `case` read. -/
def expandText : Word → State W → Option (Expansion W)
  | .bare part, s => expandPart ev input part s
  | .joined segs, s => expandSegs ev input segs s
  | .escaped before part after, s =>
    (expandPart ev input part s).map fun e =>
      { e with text := String.singleton before ++ (e.text ++ String.singleton after) }

/-- The escaped characters are no blanks, so the whole word is split at the blanks inside. -/
def Word.fields : Word → String → List String
  | .bare _, text => Str.splitWhitespace text
  | .joined _, text => [text]
  | .escaped _ _ _, text => Str.splitWhitespace text

def expandWords : List Word → State W → Option (Fields W)
  | [], s => some ⟨[], s.world, [], none⟩
  | w :: ws, s =>
    (expandText ev input w s).bind fun e =>
      (expandWords ws (s.setWorld e.world)).map fun f =>
        ⟨w.fields e.text ++ f.argv, f.world, e.out ++ f.out, f.status.or e.status⟩

end Expand

section Builtins

/-- One pass of `printf` over its format: the text and the arguments that are left. -/
def formatOnce : List Char → List String → List Char × List String
  | '%' :: 's' :: rest, args =>
    let r := formatOnce rest args.tail
    ((args.headD "").toList ++ r.1, r.2)
  | '%' :: '%' :: rest, args =>
    let r := formatOnce rest args
    ('%' :: r.1, r.2)
  | '\\' :: 'n' :: rest, args =>
    let r := formatOnce rest args
    ('\n' :: r.1, r.2)
  | c :: rest, args =>
    let r := formatOnce rest args
    (c :: r.1, r.2)
  | [], args => ([], args)

/-- The format is used again while arguments are left and it takes some. -/
def formatAll (format : List Char) : Nat → List String → List Char
  | 0, _ => []
  | k + 1, args =>
    let r := formatOnce format args
    if r.2 ≠ [] ∧ r.2.length < args.length then r.1 ++ formatAll format k r.2 else r.1

def printf (format : String) (args : List String) : String :=
  String.ofList (formatAll format.toList (args.length + 1) args)

/-- `[ … ]`, without its brackets; other tests need the host. -/
def test : List String → Option Bool
  | [a, "=", b] => some (a == b)
  | [a, "!=", b] => some (a != b)
  | [a, "-ge", b] => (number a).bind fun x => (number b).map fun y => y ≤ x
  | [a, "-gt", b] => (number a).bind fun x => (number b).map fun y => y < x
  | ["-n", a] => some (a != "")
  | ["-z", a] => some (a == "")
  | _ => none

def statusOf (b : Bool) : Nat := if b then 0 else 1

/-- The status a `return` or an `exit` carries. -/
def statusArg (s : State W) (args : List String) : Nat :=
  match args with
  | [] => s.status
  | a :: _ => (number a).getD 2

variable (tools : Tools W)

def runTool (argv : List String) (input : String) (s : State W) : Outcome W :=
  let r := tools argv input s.world
  ⟨(s.setWorld r.world).setStatus r.status, r.out, .next⟩

/-- A command that is neither a function nor a special builtin. -/
def runPlain (name : String) (args : List String) (input : String) (s : State W) : Outcome W :=
  match name with
  | "true" => finish s 0 []
  | "false" => finish s 1 []
  | "echo" => finish s 0 [(.out, Str.join " " args ++ "\n")]
  | "printf" =>
    match args with
    | [] => finish s 2 []
    | format :: args => finish s 0 [(.out, printf format args)]
  | "[" =>
    match test args.dropLast with
    | some b => finish s (statusOf b) []
    | none => runTool tools (name :: args) input s
  | _ => runTool tools (name :: args) input s

variable (ev : Eval W)

/-- A function sees its own positional parameters and shares everything else. -/
def callFun (body : Cmd) (args : List String) (input : String) (s : State W) :
    Option (Outcome W) :=
  (ev body input (s.setArgs args)).map fun o =>
    ⟨o.state.setArgs s.args, o.out, if o.flow = .ret then .next else o.flow⟩

/-- The special builtins come first, then the functions. -/
def runSimple (argv : List String) (input : String) (s : State W) : Option (Outcome W) :=
  match argv with
  | [] => some (finish s 0 [])
  | ":" :: _ => some (finish s 0 [])
  | "set" :: _ => some (finish s 0 [])
  | "break" :: _ => some ⟨s.setStatus 0, [], .brk⟩
  | "return" :: args => some ⟨s.setStatus (statusArg s args), [], .ret⟩
  | "exit" :: args => some ⟨s.setStatus (statusArg s args), [], .exit⟩
  | "exec" :: argv =>
    let o := runTool tools argv input s
    some { o with flow := .exit }
  | name :: args =>
    match s.funs name with
    | some body => callFun ev body args input s
    | none => some (runPlain tools name args input s)

end Builtins

section Redirections

/-- Where the two output streams of a command end up. -/
structure Outlets where
  out : Option Stream
  err : Option Stream

def Outlets.apply (t : Outlets) : Redir → Outlets
  | .stdinNull => t
  | .outNull => { t with out := none }
  | .errNull => { t with err := none }
  | .errToOut => { t with err := t.out }
  | .outToErr => { t with out := t.err }

/-- The redirections of a command, read from left to right. -/
def outlets (rs : List Redir) : Outlets := rs.foldl Outlets.apply ⟨some .out, some .err⟩

def Outlets.route (t : Outlets) (out : Chunks) : Chunks :=
  out.filterMap fun c =>
    match c.1 with
    | .out => t.out.map fun s => (s, c.2)
    | .err => t.err.map fun s => (s, c.2)

def inputFor (rs : List Redir) (input : String) : String :=
  if .stdinNull ∈ rs then "" else input

end Redirections

/-- A glob without `*`: each character stands for itself, a question mark for any. -/
def globChars : List Char → List Char → Bool
  | [], [] => true
  | p :: ps, c :: s => (p == '?' || p == c) && globChars ps s
  | _, _ => false

def Pattern.accepts : Pattern → String → Bool
  | .word text, s => s == text
  | .quoted text, s => s == text
  | .glob text, s => globChars text.toList s.toList
  | .any, _ => true

/-- The body of the first arm that accepts the word. -/
def Arms.select (word : String) : Arms → Option Cmd
  | .nil => none
  | .cons patterns body rest =>
    if patterns.any fun p => p.accepts word then some body else select word rest

/-- A `break` ends its loop only; a `return` or an `exit` goes on. -/
def leaveLoop (o : Outcome W) : Outcome W :=
  { o with flow := if o.flow = .brk then .next else o.flow }

/-- `last` is the status of the last body that ran. -/
def runLoop (ev : Eval W) (c body : Cmd) (input : String) :
    Nat → Nat → State W → Option (Outcome W)
  | 0, _, _ => none
  | k + 1, last, s =>
    (ev c input s).bind fun o =>
      if o.flow ≠ .next then some (leaveLoop o)
      else if o.state.status ≠ 0 then some ⟨o.state.setStatus last, o.out, .next⟩
      else
        (ev body input o.state).bind fun ob =>
          if ob.flow ≠ .next then some ((leaveLoop ob).after o.out)
          else
            (runLoop ev c body input k ob.state.status ob.state).map fun r =>
              r.after (o.out ++ ob.out)

/-- The branch of a conditional that follows the status of its test. -/
def choose (o : Outcome W) (yes no : State W → Option (Outcome W)) : Option (Outcome W) :=
  if o.flow ≠ .next then some o
  else ((if o.state.status = 0 then yes else no) o.state).map fun r => r.after o.out

def eval (tools : Tools W) : Nat → Eval W
  | 0, _, _, _ => none
  | n + 1, cmd, input, s =>
    let ev := eval tools n
    match cmd with
    | .simple words =>
      (expandWords ev input words s).bind fun f =>
        (runSimple tools ev f.argv input (s.setWorld f.world)).map fun o => o.after f.out
    | .assign name value =>
      (expandText ev input value s).map fun e =>
        finish ((s.setWorld e.world).setVar name e.text) (e.status.getD 0) e.out
    | .seq a b =>
      (ev a input s).bind fun o =>
        if o.flow ≠ .next then some o else (ev b input o.state).map fun r => r.after o.out
    | .pipe a b =>
      (ev a input s).bind fun o =>
        (ev b (textOf .out o.out) (s.setWorld o.state.world)).map fun r =>
          ⟨s.leave r.state, dropStream .out o.out ++ r.out, .next⟩
    | .or a b =>
      (ev a input s).bind fun o => choose o (fun s => some ⟨s, [], .next⟩) (ev b input)
    | .and a b =>
      (ev a input s).bind fun o => choose o (ev b input) fun s => some ⟨s, [], .next⟩
    | .not body =>
      (ev body input s).map fun o =>
        if o.flow ≠ .next then o
        else { o with state := o.state.setStatus (statusOf (o.state.status ≠ 0)) }
    | .cond c t e => (ev c input s).bind fun o => choose o (ev t input) (ev e input)
    | .condElif c t c' t' e =>
      (ev c input s).bind fun o => choose o (ev t input) (ev (.cond c' t' e) input)
    | .when c t =>
      (ev c input s).bind fun o => choose o (ev t input) fun s => some (finish s 0 [])
    | .loop c body => runLoop ev c body input n 0 s
    | .case word arms =>
      (expandText ev input word s).bind fun e =>
        match arms.select e.text with
        | some body => (ev body input (s.setWorld e.world)).map fun r => r.after e.out
        | none => some (finish (s.setWorld e.world) 0 e.out)
    | .fn name body => some (finish (s.setFun name body) 0 [])
    | .group body => ev body input s
    | .subshell body => (ev body input s).map fun o => ⟨s.leave o.state, o.out, .next⟩
    | .redirect body rs =>
      (ev body (inputFor rs input) s).map fun o =>
        { o with out := (outlets rs).route o.out }

section Equations
variable (tools : Tools W) (n : Nat) (input : String) (s : State W)

theorem eval_simple (words : List Word) : eval tools (n + 1) (.simple words) input s =
    (expandWords (eval tools n) input words s).bind fun f =>
      (runSimple tools (eval tools n) f.argv input (s.setWorld f.world)).map fun o =>
        o.after f.out := rfl

theorem eval_assign (name : String) (value : Word) :
    eval tools (n + 1) (.assign name value) input s =
      (expandText (eval tools n) input value s).map fun e =>
        finish ((s.setWorld e.world).setVar name e.text) (e.status.getD 0) e.out := rfl

theorem eval_seq (a b : Cmd) : eval tools (n + 1) (.seq a b) input s =
    (eval tools n a input s).bind fun o =>
      if o.flow ≠ .next then some o
      else (eval tools n b input o.state).map fun r => r.after o.out := rfl

theorem eval_pipe (a b : Cmd) : eval tools (n + 1) (.pipe a b) input s =
    (eval tools n a input s).bind fun o =>
      (eval tools n b (textOf .out o.out) (s.setWorld o.state.world)).map fun r =>
        ⟨s.leave r.state, dropStream .out o.out ++ r.out, .next⟩ := rfl

theorem eval_and (a b : Cmd) : eval tools (n + 1) (.and a b) input s =
    (eval tools n a input s).bind fun o =>
      choose o (eval tools n b input) fun s => some ⟨s, [], .next⟩ := rfl

theorem eval_not (c : Cmd) : eval tools (n + 1) (.not c) input s =
    (eval tools n c input s).map fun o =>
      if o.flow ≠ .next then o
      else { o with state := o.state.setStatus (statusOf (o.state.status ≠ 0)) } := rfl

theorem eval_cond (c t e : Cmd) : eval tools (n + 1) (.cond c t e) input s =
    (eval tools n c input s).bind fun o =>
      choose o (eval tools n t input) (eval tools n e input) := rfl

theorem eval_condElif (c t c' t' e : Cmd) :
    eval tools (n + 1) (.condElif c t c' t' e) input s =
      (eval tools n c input s).bind fun o =>
        choose o (eval tools n t input) (eval tools n (.cond c' t' e) input) := rfl

theorem eval_when (c t : Cmd) : eval tools (n + 1) (.when c t) input s =
    (eval tools n c input s).bind fun o =>
      choose o (eval tools n t input) fun s => some (finish s 0 []) := rfl

theorem eval_loop (c body : Cmd) : eval tools (n + 1) (.loop c body) input s =
    runLoop (eval tools n) c body input n 0 s := rfl

theorem eval_case (word : Word) (arms : Arms) : eval tools (n + 1) (.case word arms) input s =
    (expandText (eval tools n) input word s).bind fun e =>
      match arms.select e.text with
      | some body => (eval tools n body input (s.setWorld e.world)).map fun r => r.after e.out
      | none => some (finish (s.setWorld e.world) 0 e.out) := rfl

theorem eval_subshell (c : Cmd) : eval tools (n + 1) (.subshell c) input s =
    (eval tools n c input s).map fun o => ⟨s.leave o.state, o.out, .next⟩ := rfl

theorem eval_redirect (c : Cmd) (rs : List Redir) :
    eval tools (n + 1) (.redirect c rs) input s =
      (eval tools n c (inputFor rs input) s).map fun o =>
        { o with out := (outlets rs).route o.out } := rfl

end Equations

end Shell
