import Shellflow.Lib.Str

/-! Here-document aware line scanning. The source scans bytes; every byte it looks for is ASCII
and a multi-byte character behaves like any other ordinary one, so characters do as well. -/
namespace Shellflow

structure Heredoc where
  tag : List Char
  stripTabs : Bool
deriving DecidableEq, Repr

def Heredoc.terminates (h : Heredoc) (line : List Char) : Bool :=
  (if h.stripTabs then line.dropWhile (· == '\t') else line) == h.tag

def isTagEnd (c : Char) : Bool :=
  c ∈ [' ', '\t', '\n', ';', '&', '|', '(', ')', '<', '>']

def startsWord (c : Char) : Bool := isTagEnd c || c == '='

/-- The text before the closing quote and what follows it; a quote that is never closed runs to
the end of the line. -/
def closingQuote (quote : Char) (escapes : Bool) : List Char → List Char × List Char
  | [] => ([], [])
  | [c] => if c = quote then ([], []) else ([c], [])
  | c :: d :: rest =>
    if escapes && c == '\\' then
      let (body, after) := closingQuote quote escapes rest
      (c :: d :: body, after)
    else if c = quote then ([], d :: rest)
    else
      let (body, after) := closingQuote quote escapes (d :: rest)
      (c :: body, after)

def quoteEnd (quote : Char) (rest : List Char) : List Char :=
  (closingQuote quote (quote == '"') rest).2

/-- The grave accent of a command substitution. -/
def graveAccent : Char := Char.ofNat 96

def isExpansion (c : Char) : Bool := c == '$' || c == graveAccent

/-- A bare delimiter word: its text, what follows it, and whether the shell leaves it alone. -/
def bareTag : List Char → List Char × List Char × Bool
  | [] => ([], [], true)
  | [c] => if isTagEnd c || c == '\\' then ([], [c], true) else ([c], [], !isExpansion c)
  | c :: d :: rest =>
    if isTagEnd c then ([], c :: d :: rest, true)
    else if c == '\\' then
      let (tag, after, literal) := bareTag rest
      (d :: tag, after, literal)
    else
      let (tag, after, literal) := bareTag (d :: rest)
      (c :: tag, after, literal && !isExpansion c)

def readTag (rest : List Char) : List Char × List Char × Bool :=
  match rest with
  | [] => bareTag rest
  | quote :: body =>
    if quote == '\'' || quote == '"' then
      let (text, after) := closingQuote quote (quote == '"') body
      (text, after, quote == '\'' || !text.any isExpansion)
    else bareTag rest

/-- The here-document whose operator was just read. -/
def readHeredoc (rest : List Char) : Option (Heredoc × List Char) :=
  let stripTabs := rest.head? == some '-'
  let word := (if stripTabs then rest.drop 1 else rest).dropWhile fun c => c == ' ' || c == '\t'
  let (tag, after, literal) := readTag word
  if !literal || tag.isEmpty then none else some (⟨tag, stripTabs⟩, after)

/-- The rounds are bounded by the length of the line, as in the source. -/
def scanOpenersFrom : Nat → Bool → List Char → List Heredoc
  | 0, _, _ => []
  | _, _, [] => []
  | fuel + 1, wordStart, c :: rest =>
    if c = '\\' then scanOpenersFrom fuel false (rest.drop 1)
    else if c = '\'' || c = '"' then scanOpenersFrom fuel false (quoteEnd c rest)
    else if c = '#' && wordStart then []
    else if c = '<' && rest.head? = some '<' then
      if rest[1]? = some '<' then scanOpenersFrom fuel true (rest.drop 2)
      else
        match readHeredoc (rest.drop 1) with
        | some (heredoc, after) => heredoc :: scanOpenersFrom fuel true after
        | none => scanOpenersFrom fuel true (rest.drop 1)
    else scanOpenersFrom fuel (startsWord c) rest

def scanOpeners (line : List Char) : List Heredoc :=
  scanOpenersFrom (line.length + 1) true line

/-- The open here-documents, each with the line that opened it. -/
structure HeredocTracker where
  opened : List (Nat × Heredoc)
deriving DecidableEq, Repr

namespace HeredocTracker

def unterminated (t : HeredocTracker) : Option (Nat × Heredoc) := t.opened.head?

def openIn (t : HeredocTracker) (line : List Char) (lineNo : Nat) : HeredocTracker :=
  ⟨t.opened ++ (scanOpeners line).map fun h => (lineNo, h)⟩

/-- Whether the line belongs to a body, and what stays open after it. -/
def consumeBody (t : HeredocTracker) (line : List Char) : HeredocTracker × Bool :=
  match t.opened with
  | [] => (t, false)
  | head :: rest => if head.2.terminates line then (⟨rest⟩, true) else (t, true)

end HeredocTracker
end Shellflow
