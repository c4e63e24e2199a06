import Shellflow.Executor.Stream
import Shellflow.Mask.WithinLine

/-! The output sink against a registry of secrets that grows during the run. A control line is redacted
when it is written, a line of a host when it is read: in grouped mode it then waits in a buffer. -/
namespace Shellflow.Sink
open Piped (Stream)

structure OutLine where
  host : Text
  stream : Stream
  text : Text
deriving DecidableEq

/-- The hosts in the order they were first seen, and the lines of each. -/
structure GroupedBuffer where
  order : List Text
  lines : Text → Option (List OutLine)

namespace GroupedBuffer

def empty : GroupedBuffer := ⟨[], fun _ => none⟩

def push (b : GroupedBuffer) (host : Text) (line : OutLine) : GroupedBuffer where
  order := if (b.lines host).isNone then b.order ++ [host] else b.order
  lines := Function.update b.lines host (some ((b.lines host).getD [] ++ [line]))

def takeHost (b : GroupedBuffer) (host : Text) : GroupedBuffer × List OutLine :=
  (⟨b.order.filter (· ≠ host), Function.update b.lines host none⟩, (b.lines host).getD [])

def takeHosts : List Text → (Text → Option (List OutLine)) →
    (Text → Option (List OutLine)) × List (List OutLine)
  | [], lines => (lines, [])
  | host :: order, lines =>
    let (rest, out) := takeHosts order (Function.update lines host none)
    (rest, (lines host).toList ++ out)

def takeAll (b : GroupedBuffer) : GroupedBuffer × List (List OutLine) :=
  let (rest, out) := takeHosts b.order b.lines
  (⟨[], rest⟩, out)

end GroupedBuffer

inductive OutputModeState where
  | stream
  | grouped (buf : GroupedBuffer)

structure MaskSet where
  masks : List Text
  shorts : List (Text × Text)

/-- The sink together with the registry of the process. -/
structure Ui where
  verbose : Nat
  set : MaskSet
  maskers : Text → Stream → Option SecretMasker
  output : OutputModeState
  logFile : Bool

inductive Dest where
  | stdout | stderr | log
deriving DecidableEq

structure Write where
  dest : Dest
  text : Text
deriving DecidableEq

/-- The colours that the sink asks for. -/
inductive Style where
  | dimmed | green | red | yellow | hostBlue | hostRed | hostYellow
deriving DecidableEq

section Registry

def installMasks (ui : Ui) (masks : List Text) (shorts : List (Text × Text)) : Ui :=
  { ui with set := ⟨prepareMasks masks, shorts⟩ }

def extendMasks (ui : Ui) (values : List Text) (shorts : List (Text × Text)) : Ui :=
  if values.isEmpty && shorts.isEmpty then ui
  else { ui with set := ⟨prepareMasks (ui.set.masks ++ values), ui.set.shorts ++ shorts⟩ }

def clearMaskers (ui : Ui) : Ui := { ui with maskers := fun _ _ => none }

def setSecretValues (ui : Ui) (masks : List Text) (shorts : List (Text × Text)) : Ui :=
  clearMaskers (installMasks ui masks shorts)

def extendSecretValues (ui : Ui) (values : List Text) (shorts : List (Text × Text)) : Ui :=
  clearMaskers (extendMasks ui values shorts)

def redact (ui : Ui) (text : Text) : Text :=
  (SecretMasker.new ui.set.masks ui.set.shorts).redactText text

end Registry

section Render
variable (codes : Style → Text × Text)

/-- The codes of a colour stand around the text. -/
def paint (style : Style) (text : Text) : Text := (codes style).1 ++ text ++ (codes style).2

/-- The colour of an itemized line, by its symbol. -/
def itemizeStyle (text : Text) : Option Style :=
  match text.head? with
  | none => none
  | some symbol =>
    if symbol = '>' ∨ symbol = 'c' then some .green
    else if symbol = '*' then some .red
    else if symbol = '<' then some .yellow
    else if symbol = '.' then some .dimmed
    else none

def colorizeItemize (text : Text) : Text :=
  match itemizeStyle text with
  | some style => paint codes style text
  | none => text

def hostTag (host : Text) : Text := '[' :: host ++ [']']

def renderHostLine (ui : Ui) (line : OutLine) : Text :=
  match line.stream with
  | .stdout => paint codes .hostBlue (hostTag line.host) ++ [' '] ++ colorizeItemize codes line.text
  | .stderr =>
    if 3 ≤ ui.verbose then
      paint codes .hostYellow (hostTag line.host) ++ [' '] ++ paint codes .yellow line.text
    else paint codes .hostRed (hostTag line.host) ++ [' '] ++ paint codes .red line.text

def marker : Stream → Text
  | .stdout => "OUT".toList
  | .stderr => "ERR".toList

def logHostLine (line : OutLine) : Text :=
  hostTag line.host ++ [' '] ++ marker line.stream ++ [' '] ++ line.text

def Ui.logged (ui : Ui) (text : Text) : List Write :=
  if ui.logFile then [⟨.log, text ++ ['\n']⟩] else []

def emitHostLine (ui : Ui) (line : OutLine) : List Write :=
  let dest := match line.stream with
    | .stdout => Dest.stdout
    | .stderr => .stderr
  ⟨dest, renderHostLine codes ui line ++ ['\n']⟩ :: ui.logged (logHostLine line)

/-- The sink redacts every control line. -/
def printLine (ui : Ui) (text : Text) : List Write :=
  ⟨.stdout, redact ui text ++ ['\n']⟩ :: ui.logged (redact ui text)

def fatalText (ui : Ui) (message : Text) : Text := "error: ".toList ++ redact ui message

def fatal (ui : Ui) (message : Text) : List Write :=
  ⟨.stderr, fatalText ui message ++ ['\n']⟩ :: ui.logged (fatalText ui message)

/-- The lines of a preview, before the sink redacts them again. -/
def payloadPreview (ui : Ui) (title : Text) (script : List Text) : List Text :=
  paint codes .dimmed ("  |--- ".toList ++ redact ui title ++ " ---".toList) ::
    ((SecretMasker.new ui.set.masks ui.set.shorts).redactLines script).map
      (fun line => paint codes .dimmed ("  | ".toList ++ line)) ++
    [paint codes .dimmed "  |------------------".toList]

end Render

section Steps
variable (codes : Style → Text × Text)

/-- What a caller asks of the sink; a `report` is any other line that goes through `print_line`. -/
inductive Op where
  | setSecretValues (masks : List Text) (shorts : List (Text × Text))
  | extendSecretValues (values : List Text) (shorts : List (Text × Text))
  | hostLine (host : Text) (stream : Stream) (line : Text)
  | hostFinished (host : Text)
  | flushGrouped
  | report (text : Text)
  | note (text : Text)
  | warn (text : Text)
  | payloadPreview (title : Text) (script : List Text)
  | fatal (message : Text)

def Ui.masker (ui : Ui) (host : Text) (stream : Stream) : SecretMasker :=
  (ui.maskers host stream).getD (SecretMasker.new ui.set.masks ui.set.shorts)

def maskHostLine (ui : Ui) (host : Text) (stream : Stream) (line : Text) : Ui × Text :=
  let (m, masked) := (ui.masker host stream).redactLine line
  let maskers := Function.update (ui.maskers host) stream (some m)
  ({ ui with maskers := Function.update ui.maskers host maskers }, masked)

def hostLine (ui : Ui) (host : Text) (stream : Stream) (line : Text) : Ui × List Write :=
  let (ui, masked) := maskHostLine ui host stream line
  match ui.output with
  | .stream => (ui, emitHostLine codes ui ⟨host, stream, masked⟩)
  | .grouped buf => ({ ui with output := .grouped (buf.push host ⟨host, stream, masked⟩) }, [])

def hostFinished (ui : Ui) (host : Text) : Ui × List Write :=
  match ui.output with
  | .stream => (ui, [])
  | .grouped buf =>
    let (buf, lines) := buf.takeHost host
    ({ ui with output := .grouped buf }, lines.flatMap (emitHostLine codes ui))

def flushGrouped (ui : Ui) : Ui × List Write :=
  match ui.output with
  | .stream => (ui, [])
  | .grouped buf =>
    let (buf, hosts) := buf.takeAll
    ({ ui with output := .grouped buf }, hosts.flatMap fun lines => lines.flatMap (emitHostLine codes ui))

/-- The control lines that an operation prints. -/
def printed (ui : Ui) : Op → List Text
  | .report text => [text]
  | .note text => [paint codes .dimmed (redact ui text)]
  | .warn text => [paint codes .yellow ("  ! ".toList ++ redact ui text)]
  | .payloadPreview title script => payloadPreview codes ui title script
  | _ => []

def step (ui : Ui) (op : Op) : Ui × List Write :=
  match op with
  | .setSecretValues masks shorts => (setSecretValues ui masks shorts, [])
  | .extendSecretValues values shorts => (extendSecretValues ui values shorts, [])
  | .hostLine host stream line => hostLine codes ui host stream line
  | .hostFinished host => hostFinished codes ui host
  | .flushGrouped => flushGrouped codes ui
  | .fatal message => (ui, fatal ui message)
  | .report _ | .note _ | .warn _ | .payloadPreview _ _ =>
    (ui, (printed codes ui op).flatMap (printLine ui))

/-- What a run writes, each text with the values that are registered at that moment. -/
def run (ui : Ui) : List Op → List (List Text × Write)
  | [] => []
  | op :: ops => (step codes ui op).2.map (fun w => (ui.set.masks, w)) ++ run (step codes ui op).1 ops

def Ui.start (verbose : Nat) (grouped logFile : Bool) : Ui where
  verbose := verbose
  set := ⟨[], []⟩
  maskers := fun _ _ => none
  output := if grouped then .grouped .empty else .stream
  logFile := logFile

end Steps

section Safety
variable (codes : Style → Text × Text)

/-- The text shows no value that could be told from the mask. -/
def Hidden (masks : List Text) (text : Text) : Prop := ∀ v ∈ masks, '*' ∉ v → ¬ v <:+: text

/-- A line that waits in the buffer. -/
def Waiting (ui : Ui) (line : OutLine) : Prop :=
  ∃ buf host lines, ui.output = .grouped buf ∧ buf.lines host = some lines ∧ line ∈ lines

/-- The value stands around a text, or a part of it stands there and the text goes on with the rest. -/
def Completes (before text after v : Text) : Prop :=
  v <:+: before ∨ v <:+: after ∨
    (∃ a b, v = a ++ b ∧ a ≠ [] ∧ a <:+ before ∧ b <+: text ++ after) ∨
    ∃ a b, v = a ++ b ∧ b ≠ [] ∧ a <:+ text ∧ b <+: after

/-- What the sink puts around a text completes no value. -/
def Framed (masks : List Text) (text : Text) (frame : Text × Text) : Prop :=
  ∀ v ∈ masks, '*' ∉ v → ¬ Completes frame.1 text frame.2 v

/-- What stands around the text of a host line on the terminal. -/
def hostFrame (ui : Ui) (line : OutLine) : Text × Text :=
  match line.stream with
  | .stdout =>
    let colour := ((itemizeStyle line.text).map codes).getD ([], [])
    (paint codes .hostBlue (hostTag line.host) ++ [' '] ++ colour.1, colour.2 ++ ['\n'])
  | .stderr =>
    if 3 ≤ ui.verbose then
      (paint codes .hostYellow (hostTag line.host) ++ [' '] ++ (codes .yellow).1,
        (codes .yellow).2 ++ ['\n'])
    else
      (paint codes .hostRed (hostTag line.host) ++ [' '] ++ (codes .red).1, (codes .red).2 ++ ['\n'])

/-- What stands around it in the audit log. -/
def logFrame (line : OutLine) : Text × Text :=
  (hostTag line.host ++ [' '] ++ marker line.stream ++ [' '], ['\n'])

def lineEnd : Text × Text := ([], ['\n'])

def errorFrame : Text × Text := ("error: ".toList, ['\n'])

def LineFramed (ui : Ui) (line : OutLine) : Prop :=
  Framed ui.set.masks line.text (hostFrame codes ui line) ∧
    (ui.logFile = true → Framed ui.set.masks line.text (logFrame line))

/-- No value is registered that stands in a line that waits, and no value is completed by what the sink
puts around a text. -/
def OpSafe (ui : Ui) : Op → Prop
  | .setSecretValues masks _ => ∀ line, Waiting ui line → Hidden (prepareMasks masks) line.text
  | .extendSecretValues values _ => ∀ line, Waiting ui line →
    ∀ v ∈ values, v ≠ [] → '*' ∉ v → ¬ v <:+: line.text
  | .hostLine host stream line => ui.output = .stream →
    LineFramed codes ui ⟨host, stream, (maskHostLine ui host stream line).2⟩
  | .hostFinished host => ∀ buf lines, ui.output = .grouped buf → buf.lines host = some lines →
    ∀ line ∈ lines, LineFramed codes ui line
  | .flushGrouped => ∀ line, Waiting ui line → LineFramed codes ui line
  | .fatal message => Framed ui.set.masks (redact ui message) errorFrame
  | op => ∀ text ∈ printed codes ui op, Framed ui.set.masks (redact ui text) lineEnd

/-- Every operation of a run is safe in the state it comes to. -/
def RunSafe (ui : Ui) : List Op → Prop
  | [] => True
  | op :: ops => OpSafe codes ui op ∧ RunSafe (step codes ui op).1 ops

end Safety

/-- `--no-color` -/
def plain (_ : Style) : Text × Text := ([], [])

section Value
variable {codes : Style → Text × Text} {ui : Ui} {v text : Text}

/-- A value in a framed text stands in the text, or the frame completes it. -/
theorem infix_framed {before text after v : Text} (h : v <:+: before ++ text ++ after) :
    v <:+: text ∨ Completes before text after v := by
  have hinner : v <:+: text ++ after → v <:+: text ∨ Completes before text after v := by
    intro hpart
    rcases List.infix_append_iff.mp hpart with htext | hafter | ⟨a, b, hsplit, ha, hb⟩
    · exact .inl htext
    · exact .inr (.inr (.inl hafter))
    · by_cases hne : b = []
      · subst hne
        rw [List.append_nil] at hsplit
        exact .inl (hsplit ▸ ha.isInfix)
      · exact .inr (.inr (.inr (.inr ⟨a, b, hsplit, hne, ha, hb⟩)))
  rw [List.append_assoc] at h
  rcases List.infix_append_iff.mp h with hbefore | hrest | ⟨a, b, hsplit, ha, hb⟩
  · exact .inr (.inl hbefore)
  · exact hinner hrest
  · by_cases hne : a = []
    · subst hne
      rw [List.nil_append] at hsplit
      exact hinner (hsplit ▸ hb.isInfix)
    · exact .inr (.inr (.inr (.inl ⟨a, b, hsplit, hne, ha, hb⟩)))

/-- Every masker knows the values that are registered. -/
structure Current (ui : Ui) : Prop where
  nonempty : ∀ v ∈ ui.set.masks, v ≠ []
  masker : ∀ host stream m, ui.maskers host stream = some m → m.masks = ui.set.masks

/-- No line that waits shows the value. -/
def Unseen (v : Text) (ui : Ui) : Prop := ∀ line, Waiting ui line → ¬ v <:+: line.text

/-- The value is registered, or the text does not show it. -/
def Withheld (v : Text) (ui : Ui) (text : Text) : Prop := v ∈ ui.set.masks ∨ ¬ v <:+: text

/-- What stands around a text does not complete the value. -/
def Bare (v text : Text) (frame : Text × Text) : Prop := ¬ Completes frame.1 text frame.2 v

def LineBare (v : Text) (codes : Style → Text × Text) (ui : Ui) (line : OutLine) : Prop :=
  Bare v line.text (hostFrame codes ui line) ∧ (ui.logFile = true → Bare v line.text (logFrame line))

/-- What the sink puts around the texts of an operation does not complete the value. -/
def OpBare (v : Text) (codes : Style → Text × Text) (ui : Ui) : Op → Prop
  | .hostLine host stream line => ui.output = .stream →
    LineBare v codes ui ⟨host, stream, (maskHostLine ui host stream line).2⟩
  | .hostFinished host => ∀ buf lines, ui.output = .grouped buf → buf.lines host = some lines →
    ∀ line ∈ lines, LineBare v codes ui line
  | .flushGrouped => ∀ line, Waiting ui line → LineBare v codes ui line
  | .fatal message => Bare v (redact ui message) errorFrame
  | op => ∀ text ∈ printed codes ui op, Bare v (redact ui text) lineEnd

/-- The texts that an operation hands to the sink. -/
def Op.texts (codes : Style → Text × Text) (ui : Ui) : Op → List Text
  | .hostLine _ _ line => [line]
  | .fatal message => [message]
  | op => printed codes ui op

def OpWithheld (v : Text) (codes : Style → Text × Text) (ui : Ui) (op : Op) : Prop :=
  ∀ text ∈ op.texts codes ui, Withheld v ui text

theorem Bare.not_shown {frame : Text × Text} (h : Bare v text frame) (htext : ¬ v <:+: text) :
    ¬ v <:+: frame.1 ++ text ++ frame.2 := by
  intro hshown
  rcases infix_framed hshown with hinside | hcompleted
  · exact htext hinside
  · exact h hcompleted

/-- A frame that does not hold the value, and meets the text with characters that are not the value's. -/
theorem bare_of_edges {frame : Text × Text} (hbefore : ¬ v <:+: frame.1) (hafter : ¬ v <:+: frame.2)
    (hlast : ∀ c, frame.1.getLast? = some c → c ∉ v) (hfirst : ∀ c, frame.2.head? = some c → c ∉ v) :
    Bare v text frame := by
  rintro (hinside | hinside | ⟨a, b, rfl, hne, ha, -⟩ | ⟨a, b, rfl, hne, -, hb⟩)
  · exact hbefore hinside
  · exact hafter hinside
  · obtain ⟨front, hfront⟩ := ha
    refine hlast (a.getLast hne) ?_ (List.mem_append_left b (List.getLast_mem hne))
    rw [← hfront, List.getLast?_append, List.getLast?_eq_some_getLast hne, Option.some_or]
  · obtain ⟨c, b, rfl⟩ := List.exists_cons_of_ne_nil hne
    obtain ⟨back, hback⟩ := hb
    refine hfirst c ?_ (List.mem_append_right a List.mem_cons_self)
    rw [← hback]
    rfl

theorem bare_lineEnd (hne : v ≠ []) (hend : '\n' ∉ v) : Bare v text lineEnd := by
  refine bare_of_edges (fun h => hne (List.infix_nil.mp h)) (fun h => ?_) nofun fun c hc => ?_
  · rcases List.infix_cons_iff.mp h with hprefix | hinside
    · obtain ⟨c, v, rfl⟩ := List.exists_cons_of_ne_nil hne
      obtain ⟨rfl, -⟩ := List.cons_prefix_cons.mp hprefix
      exact hend List.mem_cons_self
    · exact hne (List.infix_nil.mp hinside)
  · obtain rfl := Option.some.inj hc
    exact hend

theorem hostFrame_plain (ui : Ui) (line : OutLine) :
    hostFrame plain ui line = (hostTag line.host ++ [' '], ['\n']) := by
  rw [hostFrame]
  cases line.stream with
  | stdout => cases itemizeStyle line.text <;> simp [paint, plain]
  | stderr => simp [paint, plain]

/-- Without colours only the tag and the marker stand beside a line of a host. -/
theorem lineBare_plain {line : OutLine} (hne : v ≠ []) (hspace : ' ' ∉ v) (hend : '\n' ∉ v)
    (htag : ¬ v <:+: hostTag line.host ++ [' ']) (hlog : ¬ v <:+: (logFrame line).1) :
    LineBare v plain ui line := by
  have hlineEnd : Bare v [] lineEnd := bare_lineEnd hne hend
  have hnewline : ¬ v <:+: ['\n'] := fun h => hlineEnd (.inr (.inl h))
  have hfirst : ∀ c, (['\n'] : Text).head? = some c → c ∉ v := by
    intro c hc
    obtain rfl := Option.some.inj hc
    exact hend
  refine ⟨?_, fun _ => bare_of_edges hlog hnewline ?_ hfirst⟩
  · rw [hostFrame_plain]
    refine bare_of_edges htag hnewline ?_ hfirst
    intro c hc
    rw [List.getLast?_concat] at hc
    obtain rfl := Option.some.inj hc
    exact hspace
  · intro c hc
    rw [logFrame, List.getLast?_concat] at hc
    obtain rfl := Option.some.inj hc
    exact hspace

theorem Withheld.redact (h : Withheld v ui text) (hcurrent : Current ui) (hstar : '*' ∉ v) :
    ¬ v <:+: Sink.redact ui text := by
  intro hshown
  rcases h with hmem | hnot
  · exact not_infix_redactText hcurrent.nonempty hstar hmem hshown
  · exact hnot (part_of_redactText hcurrent.nonempty hstar hshown)

theorem masks_masker (h : Current ui) (host : Text) (stream : Stream) :
    (ui.masker host stream).masks = ui.set.masks := by
  rw [Ui.masker]
  cases hm : ui.maskers host stream with
  | none => rfl
  | some m => exact h.masker host stream m hm

theorem Withheld.maskHostLine (h : Withheld v ui text) (hcurrent : Current ui) (hstar : '*' ∉ v)
    (host : Text) (stream : Stream) : ¬ v <:+: (Sink.maskHostLine ui host stream text).2 := by
  intro hshown
  rcases h with hmem | hnot
  · refine not_infix_redactLine ?_ (hcurrent.nonempty v hmem) hstar hshown
    rw [masks_masker hcurrent]
    exact hmem
  · exact hnot (part_of_redactLine hstar hshown)

theorem current_maskHostLine (h : Current ui) (host : Text) (stream : Stream) (line : Text) :
    Current (Sink.maskHostLine ui host stream line).1 := by
  refine ⟨h.nonempty, ?_⟩
  intro host' stream' m hm
  rw [Sink.maskHostLine] at hm
  dsimp only at hm
  by_cases hhost : host' = host
  · subst hhost
    rw [Function.update_self] at hm
    by_cases hstream : stream' = stream
    · subst hstream
      rw [Function.update_self] at hm
      obtain rfl := Option.some.inj hm
      rw [SecretMasker.redactLine_masks]
      exact masks_masker h host' stream'
    · rw [Function.update_of_ne hstream] at hm
      exact h.masker host' stream' m hm
  · rw [Function.update_of_ne hhost] at hm
    exact h.masker host' stream' m hm

/-- A registration clears the maskers. -/
theorem current_registered {set : MaskSet} (hne : ∀ v ∈ set.masks, v ≠ []) :
    Current (clearMaskers { ui with set := set }) :=
  ⟨hne, nofun⟩

theorem current_extendSecretValues (h : Current ui) (values : List Text)
    (shorts : List (Text × Text)) : Current (extendSecretValues ui values shorts) := by
  rw [extendSecretValues, extendMasks]
  split
  · exact ⟨h.nonempty, nofun⟩
  · exact current_registered fun _ hv => (mem_prepareMasks.mp hv).2

theorem mem_extendSecretValues {values : List Text} {shorts : List (Text × Text)}
    (h : v ∈ (extendSecretValues ui values shorts).set.masks) :
    v ∈ ui.set.masks ∨ v ∈ values ∧ v ≠ [] := by
  rw [extendSecretValues, extendMasks] at h
  split at h
  · exact .inl h
  · obtain ⟨hmem, hne⟩ := mem_prepareMasks.mp h
    exact (List.mem_append.mp hmem).imp_right fun hnew => ⟨hnew, hne⟩

end Value

section Buffer
variable {buf : GroupedBuffer} {host : Text} {line : OutLine}

theorem lines_takeHosts (order : List Text) (lines : Text → Option (List OutLine)) :
    (∀ host ls, (GroupedBuffer.takeHosts order lines).1 host = some ls → lines host = some ls) ∧
      ∀ ls ∈ (GroupedBuffer.takeHosts order lines).2, ∃ host, lines host = some ls := by
  induction order generalizing lines with
  | nil => exact ⟨fun _ _ h => h, nofun⟩
  | cons host order ih =>
    obtain ⟨hrest, hout⟩ := ih (Function.update lines host none)
    have hback : ∀ other ls, Function.update lines host none other = some ls → lines other = some ls := by
      intro other ls h
      by_cases heq : other = host
      · subst heq
        rw [Function.update_self] at h
        cases h
      · rwa [Function.update_of_ne heq] at h
    rw [GroupedBuffer.takeHosts]
    refine ⟨fun other ls h => hback other ls (hrest other ls h), fun ls hls => ?_⟩
    rcases List.mem_append.mp hls with hhere | hlater
    · exact ⟨host, by simpa using hhere⟩
    · obtain ⟨other, hother⟩ := hout ls hlater
      exact ⟨other, hback other ls hother⟩

/-- A line that waits after another came waited before, or it is the one. -/
theorem mem_push {new : OutLine} {other : Text} {ls : List OutLine}
    (h : (buf.push host new).lines other = some ls) (hmem : line ∈ ls) :
    line = new ∨ ∃ ls', buf.lines other = some ls' ∧ line ∈ ls' := by
  rw [GroupedBuffer.push] at h
  dsimp only at h
  by_cases heq : other = host
  · subst heq
    rw [Function.update_self] at h
    obtain rfl := Option.some.inj h
    rcases List.mem_append.mp hmem with hold | hnew
    · cases hlines : buf.lines other with
      | none =>
        rw [hlines] at hold
        exact absurd hold List.not_mem_nil
      | some ls' =>
        rw [hlines] at hold
        exact .inr ⟨ls', rfl, hold⟩
    · exact .inl (List.mem_singleton.mp hnew)
  · rw [Function.update_of_ne heq] at h
    exact .inr ⟨ls, h, hmem⟩

end Buffer

section Step
variable {codes : Style → Text × Text} {ui : Ui}

theorem renderHostLine_frame (codes : Style → Text × Text) (ui : Ui) (line : OutLine) :
    renderHostLine codes ui line ++ ['\n'] =
      (hostFrame codes ui line).1 ++ line.text ++ (hostFrame codes ui line).2 := by
  rw [renderHostLine, hostFrame]
  cases line.stream with
  | stdout =>
    dsimp only
    rw [colorizeItemize]
    cases itemizeStyle line.text with
    | none => simp
    | some style => simp [paint]
  | stderr =>
    dsimp only
    split <;> simp [paint]

theorem unseen_logged {text v : Text} (h : ui.logFile = true → ¬ v <:+: text ++ ['\n']) :
    ∀ w ∈ ui.logged text, ¬ v <:+: w.text := by
  intro w hw
  rw [Ui.logged] at hw
  split at hw
  · rename_i hlog
    rw [List.mem_singleton.mp hw]
    exact h hlog
  · exact absurd hw List.not_mem_nil

theorem unseen_line {line : OutLine} {v : Text} (htext : ¬ v <:+: line.text)
    (hbare : LineBare v codes ui line) : ∀ w ∈ emitHostLine codes ui line, ¬ v <:+: w.text := by
  refine List.forall_mem_cons.mpr ⟨?_, unseen_logged fun hlog => (hbare.2 hlog).not_shown htext⟩
  rw [renderHostLine_frame]
  exact hbare.1.not_shown htext

theorem unseen_hostLine {v : Text} (h : Current ui) (hstar : '*' ∉ v) (hunseen : Unseen v ui)
    {host : Text} {stream : Stream} {line : Text} (hwithheld : Withheld v ui line)
    (hbare : OpBare v codes ui (.hostLine host stream line)) :
    Unseen v (hostLine codes ui host stream line).1 ∧
      ∀ w ∈ (hostLine codes ui host stream line).2, ¬ v <:+: w.text := by
  have hmasked := hwithheld.maskHostLine h hstar host stream
  have houtput : (maskHostLine ui host stream line).1.output = ui.output := rfl
  rw [hostLine]
  dsimp only
  rw [houtput]
  cases hmode : ui.output with
  | stream => exact ⟨hunseen, unseen_line hmasked (hbare hmode)⟩
  | grouped buf =>
    refine ⟨?_, nofun⟩
    rintro waiting ⟨buf', other, ls, hbuf, hlines, hmem⟩
    cases hbuf
    rcases mem_push hlines hmem with rfl | ⟨ls', hlines', hmem'⟩
    · exact hmasked
    · exact hunseen waiting ⟨buf, other, ls', hmode, hlines', hmem'⟩

theorem unseen_hostFinished {v : Text} (hunseen : Unseen v ui) {host : Text}
    (hbare : OpBare v codes ui (.hostFinished host)) :
    Unseen v (hostFinished codes ui host).1 ∧
      ∀ w ∈ (hostFinished codes ui host).2, ¬ v <:+: w.text := by
  rw [hostFinished]
  cases hmode : ui.output with
  | stream => exact ⟨hunseen, nofun⟩
  | grouped buf =>
    refine ⟨?_, ?_⟩
    · rintro waiting ⟨buf', other, ls, hbuf, hlines, hmem⟩
      cases hbuf
      have hrest : Function.update buf.lines host none other = some ls := hlines
      by_cases heq : other = host
      · subst heq
        rw [Function.update_self] at hrest
        cases hrest
      · rw [Function.update_of_ne heq] at hrest
        exact hunseen waiting ⟨buf, other, ls, hmode, hrest, hmem⟩
    · intro w hw
      obtain ⟨line, hline, hw⟩ := List.mem_flatMap.mp hw
      have hline : line ∈ (buf.lines host).getD [] := hline
      cases hlines : buf.lines host with
      | none =>
        rw [hlines] at hline
        exact absurd hline List.not_mem_nil
      | some ls =>
        rw [hlines] at hline
        exact unseen_line (hunseen line ⟨buf, host, ls, hmode, hlines, hline⟩)
          (hbare buf ls hmode hlines line hline) w hw

theorem unseen_flushGrouped {v : Text} (hunseen : Unseen v ui)
    (hbare : OpBare v codes ui .flushGrouped) :
    Unseen v (flushGrouped codes ui).1 ∧ ∀ w ∈ (flushGrouped codes ui).2, ¬ v <:+: w.text := by
  rw [flushGrouped]
  cases hmode : ui.output with
  | stream => exact ⟨hunseen, nofun⟩
  | grouped buf =>
    obtain ⟨hrest, hout⟩ := lines_takeHosts buf.order buf.lines
    refine ⟨?_, ?_⟩
    · rintro waiting ⟨buf', other, ls, hbuf, hlines, hmem⟩
      cases hbuf
      exact hunseen waiting ⟨buf, other, ls, hmode, hrest other ls hlines, hmem⟩
    · intro w hw
      obtain ⟨ls, hls, hw⟩ := List.mem_flatMap.mp hw
      obtain ⟨line, hline, hw⟩ := List.mem_flatMap.mp hw
      obtain ⟨host, hlines⟩ := hout ls hls
      have hwaiting : Waiting ui line := ⟨buf, host, ls, hmode, hlines, hline⟩
      exact unseen_line (hunseen line hwaiting) (hbare line hwaiting) w hw

theorem unseen_printed {v : Text} (h : Current ui) (hstar : '*' ∉ v) {texts : List Text}
    (hwithheld : ∀ text ∈ texts, Withheld v ui text)
    (hbare : ∀ text ∈ texts, Bare v (redact ui text) lineEnd) :
    ∀ w ∈ texts.flatMap (printLine ui), ¬ v <:+: w.text := by
  intro w hw
  obtain ⟨text, htext, hw⟩ := List.mem_flatMap.mp hw
  have hline : ¬ v <:+: redact ui text ++ ['\n'] :=
    (hbare text htext).not_shown ((hwithheld text htext).redact h hstar)
  rcases List.mem_cons.mp hw with rfl | hlogged
  · exact hline
  · exact unseen_logged (fun _ => hline) w hlogged

theorem unseen_fatal {message v : Text} (htext : ¬ v <:+: redact ui message)
    (hbare : Bare v (redact ui message) errorFrame) :
    ∀ w ∈ fatal ui message, ¬ v <:+: w.text := by
  have hline : ¬ v <:+: fatalText ui message ++ ['\n'] := hbare.not_shown htext
  exact List.forall_mem_cons.mpr ⟨hline, unseen_logged fun _ => hline⟩

/-- An operation that hands over no text with the value, or whose value is registered, neither writes it
nor leaves it waiting. -/
theorem unseen_step {v : Text} (h : Current ui) (hstar : '*' ∉ v) (hunseen : Unseen v ui) (op : Op)
    (hwithheld : OpWithheld v codes ui op) (hbare : OpBare v codes ui op) :
    Unseen v (step codes ui op).1 ∧ ∀ w ∈ (step codes ui op).2, ¬ v <:+: w.text := by
  cases op with
  | setSecretValues masks shorts => exact ⟨hunseen, nofun⟩
  | extendSecretValues values shorts =>
    refine ⟨?_, nofun⟩
    show Unseen v (extendSecretValues ui values shorts)
    rw [extendSecretValues, extendMasks]
    split <;> exact hunseen
  | hostLine host stream line =>
    exact unseen_hostLine h hstar hunseen (hwithheld line List.mem_cons_self) hbare
  | hostFinished host => exact unseen_hostFinished hunseen hbare
  | flushGrouped => exact unseen_flushGrouped hunseen hbare
  | fatal message =>
    exact ⟨hunseen, unseen_fatal ((hwithheld message List.mem_cons_self).redact h hstar) hbare⟩
  | report text => exact ⟨hunseen, unseen_printed h hstar hwithheld hbare⟩
  | note text => exact ⟨hunseen, unseen_printed h hstar hwithheld hbare⟩
  | warn text => exact ⟨hunseen, unseen_printed h hstar hwithheld hbare⟩
  | payloadPreview title script => exact ⟨hunseen, unseen_printed h hstar hwithheld hbare⟩

/-- Only a registration changes the registry. -/
theorem current_step (h : Current ui) (op : Op) : Current (step codes ui op).1 := by
  cases op with
  | setSecretValues masks shorts => exact current_registered fun _ hv => (mem_prepareMasks.mp hv).2
  | extendSecretValues values shorts => exact current_extendSecretValues h values shorts
  | hostLine host stream line =>
    show Current (hostLine codes ui host stream line).1
    obtain ⟨hnonempty, hmasker⟩ := current_maskHostLine h host stream line
    rw [hostLine]
    dsimp only
    split <;> exact ⟨hnonempty, hmasker⟩
  | hostFinished host =>
    show Current (hostFinished codes ui host).1
    rw [hostFinished]
    split <;> exact ⟨h.nonempty, h.masker⟩
  | flushGrouped =>
    show Current (flushGrouped codes ui).1
    rw [flushGrouped]
    split <;> exact ⟨h.nonempty, h.masker⟩
  | fatal message => exact h
  | report text => exact h
  | note text => exact h
  | warn text => exact h
  | payloadPreview title script => exact h

theorem set_step {op : Op} (hset : ∀ masks shorts, op ≠ .setSecretValues masks shorts)
    (hextend : ∀ values shorts, op ≠ .extendSecretValues values shorts) :
    (step codes ui op).1.set = ui.set := by
  cases op with
  | setSecretValues masks shorts => exact absurd rfl (hset masks shorts)
  | extendSecretValues values shorts => exact absurd rfl (hextend values shorts)
  | hostLine host stream line =>
    show (hostLine codes ui host stream line).1.set = ui.set
    rw [hostLine]
    dsimp only
    split <;> rfl
  | hostFinished host =>
    show (hostFinished codes ui host).1.set = ui.set
    rw [hostFinished]
    split <;> rfl
  | flushGrouped =>
    show (flushGrouped codes ui).1.set = ui.set
    rw [flushGrouped]
    split <;> rfl
  | fatal message => rfl
  | report text => rfl
  | note text => rfl
  | warn text => rfl
  | payloadPreview title script => rfl

/-- Every masker knows the values that are registered, and no line that waits shows one of them. -/
structure Sound (ui : Ui) : Prop where
  nonempty : ∀ v ∈ ui.set.masks, v ≠ []
  current : ∀ host stream m, ui.maskers host stream = some m → m.masks = ui.set.masks
  waiting : ∀ line, Waiting ui line → Hidden ui.set.masks line.text

theorem Framed.bare {masks : List Text} {text v : Text} {frame : Text × Text}
    (h : Framed masks text frame) (hv : v ∈ masks) (hstar : '*' ∉ v) : Bare v text frame :=
  h v hv hstar

theorem LineFramed.bare {line : OutLine} {v : Text} (h : LineFramed codes ui line)
    (hv : v ∈ ui.set.masks) (hstar : '*' ∉ v) : LineBare v codes ui line :=
  ⟨h.1.bare hv hstar, fun hlog => (h.2 hlog).bare hv hstar⟩

theorem OpSafe.bare {op : Op} {v : Text} (h : OpSafe codes ui op) (hv : v ∈ ui.set.masks)
    (hstar : '*' ∉ v) : OpBare v codes ui op := by
  cases op with
  | setSecretValues masks shorts => exact nofun
  | extendSecretValues values shorts => exact nofun
  | hostLine host stream line => exact fun hmode => (h hmode).bare hv hstar
  | hostFinished host =>
    exact fun buf lines hmode hlines line hline => (h buf lines hmode hlines line hline).bare hv hstar
  | flushGrouped => exact fun line hline => (h line hline).bare hv hstar
  | fatal message => exact Framed.bare h hv hstar
  | report text => exact fun text htext => (h text htext).bare hv hstar
  | note text => exact fun text htext => (h text htext).bare hv hstar
  | warn text => exact fun text htext => (h text htext).bare hv hstar
  | payloadPreview title script => exact fun text htext => (h text htext).bare hv hstar

/-- The lines that wait are judged by the values registered after the operation. -/
theorem waiting_step {op : Op} (hsafe : OpSafe codes ui op)
    (hkept : ∀ v ∈ ui.set.masks, '*' ∉ v → Unseen v (step codes ui op).1) :
    ∀ line, Waiting (step codes ui op).1 line → Hidden (step codes ui op).1.set.masks line.text := by
  by_cases hset : ∃ masks shorts, op = .setSecretValues masks shorts
  · obtain ⟨masks, shorts, rfl⟩ := hset
    exact hsafe
  · by_cases hextend : ∃ values shorts, op = .extendSecretValues values shorts
    · obtain ⟨values, shorts, rfl⟩ := hextend
      intro line hline v hv hstar
      rcases mem_extendSecretValues hv with hold | ⟨hnew, hne⟩
      · exact hkept v hold hstar line hline
      · have hwaiting : Waiting ui line := by
          obtain ⟨buf, host, ls, hbuf, hlines, hmem⟩ := hline
          refine ⟨buf, host, ls, ?_, hlines, hmem⟩
          rw [← hbuf]
          show ui.output = (extendSecretValues ui values shorts).output
          rw [extendSecretValues, extendMasks]
          split <;> rfl
        exact hsafe line hwaiting v hnew hne hstar
    · have hsame : (step codes ui op).1.set = ui.set :=
        set_step (fun masks shorts heq => hset ⟨masks, shorts, heq⟩)
          fun values shorts heq => hextend ⟨values, shorts, heq⟩
      intro line hline v hv hstar
      rw [hsame] at hv
      exact hkept v hv hstar line hline

/-- A safe operation keeps the sink sound and writes no value. -/
theorem sound_step (h : Sound ui) (op : Op) (hsafe : OpSafe codes ui op) :
    Sound (step codes ui op).1 ∧ ∀ w ∈ (step codes ui op).2, Hidden ui.set.masks w.text := by
  have hcurrent : Current ui := ⟨h.nonempty, h.current⟩
  have hvalue : ∀ v ∈ ui.set.masks, '*' ∉ v → Unseen v (step codes ui op).1 ∧
      ∀ w ∈ (step codes ui op).2, ¬ v <:+: w.text := fun v hv hstar =>
    unseen_step hcurrent hstar (fun line hline => h.waiting line hline v hv hstar) op
      (fun _ _ => .inl hv) (hsafe.bare hv hstar)
  have hnext : Current (step codes ui op).1 := current_step hcurrent op
  refine ⟨⟨hnext.nonempty, hnext.masker, waiting_step hsafe fun v hv hstar => (hvalue v hv hstar).1⟩, ?_⟩
  intro w hw v hv hstar
  exact (hvalue v hv hstar).2 w hw

/-- A run of safe operations writes no value that is registered when it is written. -/
theorem hidden_run (h : Sound ui) (ops : List Op) (hsafe : RunSafe codes ui ops) :
    ∀ p ∈ run codes ui ops, Hidden p.1 p.2.text := by
  induction ops generalizing ui with
  | nil => exact nofun
  | cons op ops ih =>
    obtain ⟨hop, hrest⟩ := hsafe
    obtain ⟨hsound, hwrites⟩ := sound_step h op hop
    intro p hp
    rcases List.mem_append.mp hp with hhere | hlater
    · obtain ⟨w, hw, rfl⟩ := List.mem_map.mp hhere
      exact hwrites w hw
    · exact ih hsound hrest p hlater

/-- The sink after a run. -/
def after (codes : Style → Text × Text) (ui : Ui) : List Op → Ui
  | [] => ui
  | op :: ops => after codes (step codes ui op).1 ops

/-- Every operation of a run meets the condition in the state it comes to. -/
def Along (P : Ui → Op → Prop) (codes : Style → Text × Text) (ui : Ui) : List Op → Prop
  | [] => True
  | op :: ops => P ui op ∧ Along P codes (step codes ui op).1 ops

theorem along_append {P : Ui → Op → Prop} {ops later : List Op} :
    Along P codes ui (ops ++ later) ↔
      Along P codes ui ops ∧ Along P codes (after codes ui ops) later := by
  induction ops generalizing ui with
  | nil => simp [Along, after]
  | cons op ops ih => rw [List.cons_append, Along, Along, ih, after, and_assoc]

theorem after_append (ops later : List Op) :
    after codes ui (ops ++ later) = after codes (after codes ui ops) later := by
  induction ops generalizing ui with
  | nil => rfl
  | cons op ops ih => rw [List.cons_append, after, after, ih]

theorem current_after (h : Current ui) (ops : List Op) : Current (after codes ui ops) := by
  induction ops generalizing ui with
  | nil => exact h
  | cons op ops ih => exact ih (current_step h op)

/-- A value is not written in a run in which every text that shows it comes after its registration. -/
theorem unseen_run {v : Text} (h : Current ui) (hstar : '*' ∉ v) (hunseen : Unseen v ui)
    {ops : List Op} (hwithheld : Along (OpWithheld v codes) codes ui ops)
    (hbare : Along (OpBare v codes) codes ui ops) :
    Unseen v (after codes ui ops) ∧ ∀ p ∈ run codes ui ops, ¬ v <:+: p.2.text := by
  induction ops generalizing ui with
  | nil => exact ⟨hunseen, nofun⟩
  | cons op ops ih =>
    obtain ⟨hwithheld, hwithheldRest⟩ := hwithheld
    obtain ⟨hbare, hbareRest⟩ := hbare
    obtain ⟨hleft, hwrites⟩ := unseen_step h hstar hunseen op hwithheld hbare
    obtain ⟨hlast, hlater⟩ := ih (current_step h op) hleft hwithheldRest hbareRest
    refine ⟨hlast, fun p hp => ?_⟩
    rcases List.mem_append.mp hp with hhere | hrest
    · obtain ⟨w, hw, rfl⟩ := List.mem_map.mp hhere
      exact hwrites w hw
    · exact hlater p hrest

theorem mem_registered {values : List Text} {shorts : List (Text × Text)} {v : Text} (hv : v ∈ values) (hne : v ≠ []) :
    v ∈ (extendSecretValues ui values shorts).set.masks := by
  have hsome : values.isEmpty = false := List.isEmpty_eq_false_iff.mpr (List.ne_nil_of_mem hv)
  rw [extendSecretValues, extendMasks, hsome, if_neg (by simp)]
  exact mem_prepareMasks.mpr ⟨List.mem_append_right _ hv, hne⟩

/-- A registered value stays so until the registry is replaced. -/
theorem mem_step {v : Text} (h : Current ui) (hv : v ∈ ui.set.masks) {op : Op}
    (hset : ∀ masks shorts, op ≠ .setSecretValues masks shorts) :
    v ∈ (step codes ui op).1.set.masks := by
  by_cases hextend : ∃ values shorts, op = .extendSecretValues values shorts
  · obtain ⟨values, shorts, rfl⟩ := hextend
    show v ∈ (extendSecretValues ui values shorts).set.masks
    rw [extendSecretValues, extendMasks]
    split
    · exact hv
    · exact mem_prepareMasks.mpr ⟨List.mem_append_left _ hv, h.nonempty v hv⟩
  · rw [set_step hset fun values shorts heq => hextend ⟨values, shorts, heq⟩]
    exact hv

theorem withheld_of_registered {v : Text} (h : Current ui) (hv : v ∈ ui.set.masks) {ops : List Op}
    (hset : ∀ op ∈ ops, ∀ masks shorts, op ≠ .setSecretValues masks shorts) :
    Along (OpWithheld v codes) codes ui ops := by
  induction ops generalizing ui with
  | nil => trivial
  | cons op ops ih =>
    obtain ⟨hhere, hset⟩ := List.forall_mem_cons.mp hset
    exact ⟨fun _ _ => .inl hv, ih (current_step h op) (mem_step h hv hhere) hset⟩

/-- An operation that leaves the registry alone. -/
def Op.Speaks (op : Op) : Prop :=
  (∀ masks shorts, op ≠ .setSecretValues masks shorts) ∧
    ∀ values shorts, op ≠ .extendSecretValues values shorts

/-- What an operation hands over depends on the registry alone. -/
theorem opWithheld_congr {v : Text} {op : Op} {ui ui' : Ui} (h : ui'.set = ui.set)
    (hop : OpWithheld v codes ui op) : OpWithheld v codes ui' op := by
  have htexts : op.texts codes ui' = op.texts codes ui := by
    cases op <;> simp only [Op.texts, printed, payloadPreview, redact, h]
  intro text htext
  rw [htexts] at htext
  exact (hop text htext).imp_left fun hv => h ▸ hv

theorem withheld_of_forall {v : Text} {ops : List Op} (h : ∀ op ∈ ops, op.Speaks)
    (hops : ∀ op ∈ ops, OpWithheld v codes ui op) : Along (OpWithheld v codes) codes ui ops := by
  induction ops generalizing ui with
  | nil => trivial
  | cons op ops ih =>
    obtain ⟨hhere, hrest⟩ := List.forall_mem_cons.mp h
    obtain ⟨hop, hops⟩ := List.forall_mem_cons.mp hops
    exact ⟨hop, ih hrest fun op' hop' => opWithheld_congr (set_step hhere.1 hhere.2) (hops op' hop')⟩

theorem current_start (verbose : Nat) (grouped logFile : Bool) :
    Current (Ui.start verbose grouped logFile) :=
  ⟨nofun, nofun⟩

theorem unseen_start (v : Text) (verbose : Nat) (grouped logFile : Bool) :
    Unseen v (Ui.start verbose grouped logFile) := by
  rintro line ⟨buf, host, lines, hbuf, hlines, -⟩
  cases grouped with
  | false => cases hbuf
  | true =>
    cases hbuf
    cases hlines

theorem sound_start (verbose : Nat) (grouped logFile : Bool) :
    Sound (Ui.start verbose grouped logFile) := by
  refine ⟨nofun, nofun, ?_⟩
  rintro line ⟨buf, host, ls, -, -, -⟩
  exact nofun

def secretValue : Text := "hunter22".toList

/-- A line that waits is written as it is, whatever was registered since. -/
theorem waiting_line_logged {buf : GroupedBuffer} {host : Text} {lines : List OutLine}
    {line : OutLine} (hmode : ui.output = .grouped buf) (hlines : buf.lines host = some lines)
    (hline : line ∈ lines) (hlog : ui.logFile = true) {v : Text} (hv : v <:+: line.text) :
    ∃ w ∈ (hostFinished codes ui host).2, v <:+: w.text := by
  refine ⟨⟨.log, logHostLine line ++ ['\n']⟩, ?_, ?_⟩
  · rw [hostFinished, hmode]
    refine List.mem_flatMap.mpr ⟨line, ?_, ?_⟩
    · show line ∈ (buf.lines host).getD []
      rw [hlines]
      exact hline
    · rw [emitHostLine, Ui.logged, if_pos hlog]
      exact List.mem_cons_of_mem _ List.mem_cons_self
  · have hlast : line.text <:+ logHostLine line := List.suffix_append _ _
    exact hv.trans (hlast.isInfix.trans (List.prefix_append _ _).isInfix)

end Step

end Shellflow.Sink
