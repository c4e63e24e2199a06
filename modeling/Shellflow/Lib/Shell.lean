import Shellflow.Lib.Str

/-! A small POSIX shell: syntax, the text it is written as, and a fuel-driven evaluator. The
external programs are a parameter; they see their arguments and their standard input. -/
namespace Shell

inductive Stream
  | out
  | err
deriving DecidableEq, Repr

/-- What a command writes, in order. -/
abbrev Chunks := List (Stream × String)

inductive Redir
  | stdinNull
  | outNull
  | errNull
  | errToOut
  | outToErr
deriving DecidableEq, Repr

/-- A `case` pattern: a literal word, a word in which `?` is any character, or `*`. -/
inductive Pattern
  | word (text : String)
  | quoted (text : String)
  | glob (text : String)
  | any
deriving DecidableEq, Repr

mutual

inductive Part
  | lit (text : String)
  | var (name : String)
  | braced (name : String)
  | arg (i : Nat)
  | status
  | subst (cmd : Cmd)
  | sum (a b : Part)

inductive Seg
  | lit (text : String)
  | single (text : String)
  | double (parts : List Part)
  | escaped (c : Char)

/-- An unquoted expansion is split into fields, also between two escaped characters; a word of
literals and quotes is one field. -/
inductive Word
  | bare (part : Part)
  | joined (segs : List Seg)
  | escaped (before : Char) (part : Part) (after : Char)

inductive Cmd
  | simple (words : List Word)
  | assign (name : String) (value : Word)
  | seq (a b : Cmd)
  | pipe (a b : Cmd)
  | or (a b : Cmd)
  | and (a b : Cmd)
  | not (body : Cmd)
  | cond (c t e : Cmd)
  | condElif (c t c' t' e : Cmd)
  | when (c t : Cmd)
  | loop (c body : Cmd)
  | case (word : Word) (arms : Arms)
  | fn (name : String) (body : Cmd)
  | group (body : Cmd)
  | subshell (body : Cmd)
  | redirect (body : Cmd) (rs : List Redir)

inductive Arms
  | nil
  | cons (patterns : List Pattern) (body : Cmd) (rest : Arms)

end

/-- A text between single quotes; a single quote of its own is escaped outside of them. -/
def quoteSegs (cur : List Char) : List Char → List Seg
  | [] => [.single (String.ofList cur)]
  | c :: s =>
    if c = '\'' then .single (String.ofList cur) :: .escaped '\'' :: quoteSegs [] s
    else quoteSegs (cur ++ [c]) s

section Text

def Redir.render : Redir → String
  | stdinNull => "</dev/null"
  | outNull => ">/dev/null"
  | errNull => "2>/dev/null"
  | errToOut => "2>&1"
  | outToErr => ">&2"

def renderRedirs : List Redir → String
  | [] => ""
  | r :: rs => " " ++ (r.render ++ renderRedirs rs)

def Pattern.render : Pattern → String
  | word text => text
  | quoted text => "\"" ++ (text ++ "\"")
  | glob text => text
  | any => "*"

def renderPatterns : List Pattern → String
  | [] => ""
  | [p] => p.render
  | p :: q :: ps => p.render ++ ("|" ++ renderPatterns (q :: ps))

mutual

def Part.render : Part → String
  | .lit text => text
  | .var name => "$" ++ name
  | .braced name => "$\x7b" ++ (name ++ "\x7d")
  | .arg i => "$" ++ toString i
  | .status => "$?"
  | .subst cmd => "$(" ++ (cmd.render ++ ")")
  | .sum a b => "$(( " ++ (a.render ++ (" + " ++ (b.render ++ " ))")))

def renderParts : List Part → String
  | [] => ""
  | p :: ps => p.render ++ renderParts ps

def Seg.render : Seg → String
  | .lit text => text
  | .single text => "'" ++ (text ++ "'")
  | .double parts => "\"" ++ (renderParts parts ++ "\"")
  | .escaped c => "\\" ++ String.singleton c

def renderSegs : List Seg → String
  | [] => ""
  | s :: ss => s.render ++ renderSegs ss

def Word.render : Word → String
  | .bare part => part.render
  | .joined segs => renderSegs segs
  | .escaped before part after =>
    "\\" ++ (String.singleton before ++ (part.render ++ ("\\" ++ String.singleton after)))

def renderWords : List Word → String
  | [] => ""
  | [w] => w.render
  | w :: v :: ws => w.render ++ (" " ++ renderWords (v :: ws))

def Cmd.render : Cmd → String
  | .simple words => renderWords words
  | .assign name value => name ++ ("=" ++ value.render)
  | .seq a b => a.render ++ ("; " ++ b.render)
  | .pipe a b => a.render ++ (" | " ++ b.render)
  | .or a b => a.render ++ (" || " ++ b.render)
  | .and a b => a.render ++ (" && " ++ b.render)
  | .not body => "! " ++ body.render
  | .cond c t e => "if " ++ (c.render ++ ("; then " ++ (t.render ++ ("; else " ++
      (e.render ++ "; fi")))))
  | .condElif c t c' t' e => "if " ++ (c.render ++ ("; then " ++ (t.render ++ ("; elif " ++
      (c'.render ++ ("; then " ++ (t'.render ++ ("; else " ++ (e.render ++ "; fi")))))))))
  | .when c t => "if " ++ (c.render ++ ("; then " ++ (t.render ++ "; fi")))
  | .loop c body => "while " ++ (c.render ++ ("; do " ++ (body.render ++ "; done")))
  | .case word arms => "case " ++ (word.render ++ (" in " ++ (arms.render ++ "esac")))
  | .fn name body => name ++ ("() \x7b " ++ (body.render ++ "; \x7d"))
  | .group body => "\x7b " ++ (body.render ++ "; \x7d")
  | .subshell body => "(" ++ (body.render ++ ")")
  | .redirect body rs => body.render ++ renderRedirs rs

def Arms.render : Arms → String
  | .nil => ""
  | .cons patterns body rest =>
    renderPatterns patterns ++ (") " ++ (body.render ++ (" ;; " ++ rest.render)))

end

end Text

end Shell
