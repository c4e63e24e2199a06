import Shellflow.Lib.ByteLines
import Shellflow.Lib.Runs
import Shellflow.Mask.Masker

/-! The output of a child on its way to the terminal and the audit log: two readers, one forwarder
and the bounded channel between them. -/
namespace Shellflow.Piped
open ByteLines

inductive Stream where
  | stdout | stderr
  deriving DecidableEq

structure OutLine where
  host : String
  stream : Stream
  text : Text
  deriving DecidableEq

/-- The host of a buffered line is the key it is kept under; the order of the hosts, which only the
flush at the end of the run looks at, is left out. -/
inductive OutputModeState where
  | stream
  | grouped (buf : String → List (Stream × Text))

structure Ui where
  masks : List Text
  shorts : List (Text × Text)
  maskers : String → Stream → Option SecretMasker
  output : OutputModeState
  terminal : List OutLine
  logFile : Option (List OutLine)

namespace Ui

def masker (ui : Ui) (host : String) (stream : Stream) : SecretMasker :=
  (ui.maskers host stream).getD (SecretMasker.new ui.masks ui.shorts)

def emitHostLine (ui : Ui) (host : String) (stream : Stream) (text : Text) : Ui :=
  { ui with
    terminal := ui.terminal ++ [⟨host, stream, text⟩]
    logFile := ui.logFile.map fun log => log ++ [⟨host, stream, text⟩] }

def maskHostLine (ui : Ui) (host : String) (stream : Stream) (line : Text) : Ui × Text :=
  let (m, masked) := (ui.masker host stream).redactLine line
  let maskers := Function.update (ui.maskers host) stream (some m)
  ({ ui with maskers := Function.update ui.maskers host maskers }, masked)

def hostLine (ui : Ui) (host : String) (stream : Stream) (line : Text) : Ui :=
  let (ui, masked) := ui.maskHostLine host stream line
  match ui.output with
  | .stream => ui.emitHostLine host stream masked
  | .grouped buf =>
    { ui with output := .grouped (Function.update buf host (buf host ++ [(stream, masked)])) }

def hostFinished (ui : Ui) (host : String) : Ui :=
  match ui.output with
  | .stream => ui
  | .grouped buf =>
    (buf host).foldl (fun ui line => ui.emitHostLine host line.1 line.2)
      { ui with output := .grouped (Function.update buf host []) }

end Ui

/-- What the child has not written yet, and what no reader has taken yet. -/
structure Pipe where
  unwritten : List UInt8
  unread : List UInt8
  closed : Bool

inductive Reader where
  | reading
  | sending (line : Text)
  | stopped

inductive Forwarder where
  | waiting
  | holding (stream : Stream) (line : Text)
  | stopped

structure State where
  pipes : Stream → Pipe
  readers : Stream → Reader
  channel : List (Stream × Text)
  forwarder : Forwarder
  ui : Ui

/-- `hostLine` and `hostFinished` are what the tasks of other hosts do to the shared sink. -/
inductive Act where
  | write (stream : Stream) (n : Nat)
  | close (stream : Stream)
  | nextLine (stream : Stream)
  | send (stream : Stream)
  | recv
  | forward
  | hangUp
  | hostLine (host : String) (stream : Stream) (line : Text)
  | hostFinished (host : String)

def channelBound : Nat := 256

/-- `next_line` comes back when a newline is there or no byte can follow. The loop goes on with a
line only: the end of the pipe stops it, and so does a line that is not UTF-8. -/
def readNext (pipe : Pipe) : Option (Pipe × Reader) :=
  if pipe.unread.contains 10 || pipe.closed then
    if pipe.unread.isEmpty then some (pipe, .stopped)
    else
      let (raw, rest) := takeLine pipe.unread
      let reader := match lineText raw with
        | some text => Reader.sending text
        | none => .stopped
      some ({ pipe with unread := rest }, reader)
  else none

/-- A pipe whose reader stopped takes what is written to it nowhere. -/
def step (host : String) (s : State) : Act → Option State
  | .write stream n =>
    let pipe := s.pipes stream
    if pipe.closed || n == 0 || pipe.unwritten.isEmpty then none
    else
      let pipe := ⟨pipe.unwritten.drop n, pipe.unread ++ pipe.unwritten.take n, false⟩
      some { s with pipes := Function.update s.pipes stream pipe }
  | .close stream =>
    let pipe := s.pipes stream
    if !pipe.closed && pipe.unwritten.isEmpty then
      some { s with pipes := Function.update s.pipes stream { pipe with closed := true } }
    else none
  | .nextLine stream =>
    match s.readers stream with
    | .reading => (readNext (s.pipes stream)).map fun (pipe, reader) =>
      { s with
        pipes := Function.update s.pipes stream pipe
        readers := Function.update s.readers stream reader }
    | _ => none
  | .send stream =>
    match s.readers stream with
    | .sending line =>
      if s.channel.length < channelBound then
        some { s with
          readers := Function.update s.readers stream .reading
          channel := s.channel ++ [(stream, line)] }
      else none
    | _ => none
  | .recv =>
    match s.forwarder, s.channel with
    | .waiting, (stream, line) :: rest =>
      some { s with forwarder := .holding stream line, channel := rest }
    | _, _ => none
  | .forward =>
    match s.forwarder with
    | .holding stream line =>
      some { s with forwarder := .waiting, ui := s.ui.hostLine host stream line }
    | _ => none
  | .hangUp =>
    match s.forwarder, s.channel, s.readers .stdout, s.readers .stderr with
    | .waiting, [], .stopped, .stopped => some { s with forwarder := .stopped }
    | _, _, _, _ => none
  | .hostLine other stream line =>
    if other = host then none else some { s with ui := s.ui.hostLine other stream line }
  | .hostFinished other =>
    if other = host then none else some { s with ui := s.ui.hostFinished other }

def spawnReaders (bytes : Stream → List UInt8) (ui : Ui) : State where
  pipes stream := ⟨bytes stream, [], false⟩
  readers _ := .reading
  channel := []
  forwarder := .waiting
  ui := ui

/-- All three tasks have joined. -/
def State.Drained (s : State) : Prop :=
  (∀ stream, s.readers stream = .stopped) ∧ s.channel = [] ∧ s.forwarder = .stopped

inductive Sink where
  | terminal | auditLog

namespace Ui

def lines (ui : Ui) : Sink → Option (List OutLine)
  | .terminal => some ui.terminal
  | .auditLog => ui.logFile

def held (ui : Ui) (host : String) (stream : Stream) : List Text :=
  match ui.output with
  | .stream => []
  | .grouped buf => (buf host).filterMap fun line => if line.1 = stream then some line.2 else none

end Ui

def textsOf (host : String) (stream : Stream) (lines : List OutLine) : List Text :=
  lines.filterMap fun line =>
    if line.host = host ∧ line.stream = stream then some line.text else none

/-- What a sink shows of a stream of the host, with what is still held back for it. -/
def Ui.seen (ui : Ui) (sink : Sink) (host : String) (stream : Stream) : Option (List Text) :=
  (ui.lines sink).map fun lines => textsOf host stream lines ++ ui.held host stream

/-- Every line of the stream, masked, came out once and in order, after what was there before. A
line that is not UTF-8 came out as some replacement. -/
def NothingLost (ui ui' : Ui) (host : String) (stream : Stream) (bytes : List UInt8) : Prop :=
  ∃ replace : List UInt8 → Text, ∀ sink, (ui'.lines sink).map (textsOf host stream) =
    (ui.seen sink host stream).map fun before => before ++ (ui.masker host stream).redactLines
      ((rawLines bytes).map fun raw => (lineText raw).getD (replace raw))

section Masking

/-- The masker once it has seen the lines. -/
def maskerAfter (m : SecretMasker) (lines : List Text) : SecretMasker :=
  lines.foldl (fun m line => (m.redactLine line).1) m

theorem redactLines_concat (m : SecretMasker) (lines : List Text) (line : Text) :
    m.redactLines (lines ++ [line]) =
      m.redactLines lines ++ [((maskerAfter m lines).redactLine line).2] := by
  induction lines generalizing m with
  | nil => rfl
  | cons first lines ih => exact congrArg (List.cons _) (ih (m.redactLine first).1)

theorem maskerAfter_concat (m : SecretMasker) (lines : List Text) (line : Text) :
    maskerAfter m (lines ++ [line]) = ((maskerAfter m lines).redactLine line).1 :=
  List.foldl_append

theorem length_redactLines (m : SecretMasker) (lines : List Text) :
    (m.redactLines lines).length = lines.length := by
  induction lines generalizing m with
  | nil => rfl
  | cons line lines ih => simp [SecretMasker.redactLines, ih]

end Masking

section Sinks
variable {host : String} {stream : Stream}

theorem textsOf_append (a b : List OutLine) :
    textsOf host stream (a ++ b) = textsOf host stream a ++ textsOf host stream b :=
  List.filterMap_append

theorem textsOf_single {host' : String} {stream' : Stream} (text : Text) :
    textsOf host stream [⟨host', stream', text⟩] =
      if host' = host ∧ stream' = stream then [text] else [] := by
  unfold textsOf
  split <;> simp [*]

@[simp] theorem lines_emitHostLine (ui : Ui) (sink : Sink) (text : Text) :
    (ui.emitHostLine host stream text).lines sink =
      (ui.lines sink).map fun lines => lines ++ [⟨host, stream, text⟩] := by
  cases sink <;> rfl

@[simp] theorem held_emitHostLine (ui : Ui) {host' : String} {stream' : Stream} (text : Text) :
    (ui.emitHostLine host' stream' text).held host stream = ui.held host stream := rfl

@[simp] theorem masker_emitHostLine (ui : Ui) {host' : String} {stream' : Stream} (text : Text) :
    (ui.emitHostLine host' stream' text).masker host stream = ui.masker host stream := rfl

@[simp] theorem lines_maskHostLine (ui : Ui) (sink : Sink) (line : Text) :
    (ui.maskHostLine host stream line).1.lines sink = ui.lines sink := by
  cases sink <;> rfl

theorem hostLine_of_stream {ui : Ui} (h : ui.output = .stream) (line : Text) :
    ui.hostLine host stream line = (ui.maskHostLine host stream line).1.emitHostLine host stream
      ((ui.masker host stream).redactLine line).2 := by
  simp only [Ui.hostLine, Ui.maskHostLine, h]

theorem hostLine_of_grouped {ui : Ui} {buf : String → List (Stream × Text)}
    (h : ui.output = .grouped buf) (line : Text) :
    ui.hostLine host stream line = { (ui.maskHostLine host stream line).1 with
      output := .grouped (Function.update buf host
        (buf host ++ [(stream, ((ui.masker host stream).redactLine line).2)])) } := by
  simp only [Ui.hostLine, Ui.maskHostLine, h]

theorem held_of_stream {ui : Ui} (h : ui.output = .stream) : ui.held host stream = [] := by
  rw [Ui.held, h]

theorem held_of_grouped {ui : Ui} {buf : String → List (Stream × Text)}
    (h : ui.output = .grouped buf) : ui.held host stream =
      (buf host).filterMap fun line => if line.1 = stream then some line.2 else none := by
  rw [Ui.held, h]

/-- A line adds its masked text to its own stream of its own host. -/
theorem seen_hostLine (ui : Ui) (sink : Sink) (host' : String) (stream' : Stream) (line : Text) :
    (ui.hostLine host' stream' line).seen sink host stream =
      (ui.seen sink host stream).map fun texts => texts ++
        if host' = host ∧ stream' = stream then
          [((ui.masker host' stream').redactLine line).2] else [] := by
  cases hout : ui.output with
  | stream =>
    have hheld : (ui.maskHostLine host' stream' line).1.held host stream = [] :=
      held_of_stream hout
    rw [hostLine_of_stream hout]
    simp only [Ui.seen, lines_emitHostLine, lines_maskHostLine, held_emitHostLine, hheld,
      held_of_stream hout, Option.map_map, Function.comp_def, List.append_nil, textsOf_append,
      textsOf_single]
  | grouped buf =>
    rw [hostLine_of_grouped hout, Ui.seen, Ui.seen, held_of_grouped rfl, held_of_grouped hout]
    have hlines : ∀ ui' : Ui, ∀ output, ({ ui' with output := output } : Ui).lines sink =
        ui'.lines sink := fun _ _ => by cases sink <;> rfl
    rw [hlines, lines_maskHostLine, Option.map_map]
    refine congrArg (fun f => (ui.lines sink).map f) (funext fun lines => ?_)
    by_cases hhost : host' = host
    · subst hhost
      by_cases hstream : stream' = stream <;> simp [hstream]
    · simp [hhost, Function.update_of_ne (Ne.symm hhost)]

theorem masker_hostLine (ui : Ui) (host' : String) (stream' : Stream) (line : Text) :
    (ui.hostLine host' stream' line).masker host stream =
      if host' = host ∧ stream' = stream then ((ui.masker host stream).redactLine line).1
      else ui.masker host stream := by
  have hmask : (ui.hostLine host' stream' line).masker host stream =
      (ui.maskHostLine host' stream' line).1.masker host stream := by
    cases hout : ui.output with
    | stream => rw [hostLine_of_stream hout, masker_emitHostLine]
    | grouped buf =>
      rw [hostLine_of_grouped hout]
      rfl
  rw [hmask]
  by_cases hhost : host' = host
  · subst hhost
    by_cases hstream : stream' = stream
    · subst hstream
      simp [Ui.masker, Ui.maskHostLine]
    · simp [Ui.masker, Ui.maskHostLine, hstream, Function.update_of_ne (Ne.symm hstream)]
  · simp [Ui.masker, Ui.maskHostLine, hhost, Function.update_of_ne (Ne.symm hhost)]

theorem foldl_emitHostLine (ui : Ui) (sink : Sink) (host : String) (held : List (Stream × Text)) :
    (held.foldl (fun ui line => ui.emitHostLine host line.1 line.2) ui).lines sink =
      (ui.lines sink).map fun lines => lines ++ held.map fun line => ⟨host, line.1, line.2⟩ := by
  induction held generalizing ui with
  | nil => simp
  | cons line held ih =>
    rw [List.foldl_cons, ih, lines_emitHostLine, Option.map_map]
    simp [Function.comp_def]

theorem foldl_emitHostLine_keeps {α : Type} (get : Ui → α) (host : String)
    (hget : ∀ ui stream text, get (ui.emitHostLine host stream text) = get ui) (ui : Ui)
    (held : List (Stream × Text)) :
    get (held.foldl (fun ui line => ui.emitHostLine host line.1 line.2) ui) = get ui := by
  induction held generalizing ui with
  | nil => rfl
  | cons line held ih => rw [List.foldl_cons, ih, hget]

theorem textsOf_map {host' : String} (held : List (Stream × Text)) :
    textsOf host stream (held.map fun line => ⟨host', line.1, line.2⟩) =
      if host' = host then held.filterMap fun line => if line.1 = stream then some line.2 else none
      else [] := by
  rw [textsOf, List.filterMap_map]
  split
  · rename_i h
    subst h
    simp
  · rename_i h
    simp [h]

/-- What is flushed is what was held back; a sink sees each line once. -/
theorem seen_hostFinished (ui : Ui) (sink : Sink) (host' : String) :
    (ui.hostFinished host').seen sink host stream = ui.seen sink host stream := by
  cases hout : ui.output with
  | stream => rw [Ui.hostFinished, hout]
  | grouped buf =>
    have hlines : ∀ output, ({ ui with output := output } : Ui).lines sink = ui.lines sink :=
      fun _ => by cases sink <;> rfl
    have hheld : ∀ ui' : Ui, ((buf host').foldl (fun ui line => ui.emitHostLine host' line.1 line.2)
        ui').held host stream = ui'.held host stream :=
      fun ui' => foldl_emitHostLine_keeps (fun ui => ui.held host stream) host'
        (fun _ _ _ => rfl) ui' (buf host')
    simp only [Ui.seen, Ui.hostFinished, hout, foldl_emitHostLine, hheld, hlines, Option.map_map]
    rw [held_of_grouped rfl, held_of_grouped hout]
    refine congrArg (fun f => (ui.lines sink).map f) (funext fun lines => ?_)
    by_cases hhost : host' = host
    · subst hhost
      simp [textsOf_append, textsOf_map]
    · simp [textsOf_append, textsOf_map, hhost, Function.update_of_ne (Ne.symm hhost)]

theorem masker_hostFinished (ui : Ui) (host' : String) :
    (ui.hostFinished host').masker host stream = ui.masker host stream := by
  cases hout : ui.output with
  | stream => rw [Ui.hostFinished, hout]
  | grouped buf =>
    simp only [Ui.hostFinished, hout]
    exact foldl_emitHostLine_keeps (fun ui => ui.masker host stream) host' (fun _ _ _ => rfl) _ _

/-- A finished host has nothing held back. -/
theorem lines_hostFinished (ui : Ui) (sink : Sink) :
    ((ui.hostFinished host).lines sink).map (textsOf host stream) = ui.seen sink host stream := by
  have hheld : (ui.hostFinished host).held host stream = [] := by
    cases hout : ui.output with
    | stream => rw [Ui.hostFinished, hout]; exact held_of_stream hout
    | grouped buf =>
      simp only [Ui.hostFinished, hout]
      rw [foldl_emitHostLine_keeps (fun ui => ui.held host stream) host (fun _ _ _ => rfl),
        held_of_grouped rfl]
      simp
  rw [← seen_hostFinished ui sink host, Ui.seen, hheld]
  simp only [List.append_nil]

end Sinks

section Readers
variable {host : String} {stream : Stream}

/-- The lines a reader is still going to send. -/
def Reader.left (pipe : Pipe) : Reader → List Text
  | .reading => readable (rawLines (pipe.unread ++ pipe.unwritten))
  | .sending line => line :: readable (rawLines (pipe.unread ++ pipe.unwritten))
  | .stopped => []

def Forwarder.lineOf (stream : Stream) : Forwarder → List Text
  | .holding stream' line => if stream' = stream then [line] else []
  | _ => []

def queued (stream : Stream) (channel : List (Stream × Text)) : List Text :=
  channel.filterMap fun entry => if entry.1 = stream then some entry.2 else none

/-- The lines of a stream that have not come out yet, in their order. -/
def State.coming (s : State) (stream : Stream) : List Text :=
  s.forwarder.lineOf stream ++ queued stream s.channel ++
    (s.readers stream).left (s.pipes stream)

/-- A reader takes the next line, or stops where no line is to come. -/
theorem readNext_left {pipe pipe' : Pipe} {reader : Reader} (h : readNext pipe = some (pipe', reader))
    (hclosed : pipe.closed → pipe.unwritten = []) :
    reader.left pipe' = Reader.reading.left pipe ∧
      (pipe'.closed → pipe'.unwritten = []) := by
  rw [readNext] at h
  split at h
  · rename_i hready
    split at h
    · rename_i hempty
      obtain ⟨rfl, rfl⟩ := Prod.mk.inj (Option.some.inj h)
      have hnil : pipe.unread = [] := List.isEmpty_iff.mp hempty
      have hend : pipe.unwritten = [] := hclosed (by simpa [hnil] using hready)
      exact ⟨by simp [Reader.left, hnil, hend, rawLines, readable], hclosed⟩
    · rename_i hnonempty
      have hne : pipe.unread ≠ [] := fun h => hnonempty (List.isEmpty_iff.mpr h)
      obtain ⟨rfl, rfl⟩ := Prod.mk.inj (Option.some.inj h)
      -- Without a newline the pipe is closed, so that what is there is all there is.
      have htake : takeLine (pipe.unread ++ pipe.unwritten) =
          ((takeLine pipe.unread).1, (takeLine pipe.unread).2 ++ pipe.unwritten) := by
        by_cases hnewline : (10 : UInt8) ∈ pipe.unread
        · exact takeLine_append hnewline
        · have hend : pipe.unwritten = [] := hclosed (by simpa [hnewline] using hready)
          rw [hend, List.append_nil, List.append_nil]
      have hraw := rawLines_eq (List.append_ne_nil_of_left_ne_nil hne pipe.unwritten)
      rw [htake] at hraw
      refine ⟨?_, hclosed⟩
      cases htext : lineText (takeLine pipe.unread).1 with
      | none => simp only [Reader.left, hraw, readable_of_not_text htext]
      | some text => simp only [Reader.left, hraw, readable_of_text htext]
  · cases h

/-- What came out of each stream, and what is still to come, are the lines it can read. -/
structure Conserved (host : String) (bytes : Stream → List UInt8) (ui : Ui) (s : State) : Prop where
  closed : ∀ stream, (s.pipes stream).closed → (s.pipes stream).unwritten = []
  lines : ∀ stream, ∃ out, out ++ s.coming stream = readable (rawLines (bytes stream)) ∧
    s.ui.masker host stream = maskerAfter (ui.masker host stream) out ∧
    ∀ sink, s.ui.seen sink host stream = (ui.seen sink host stream).map fun before =>
      before ++ (ui.masker host stream).redactLines out

variable {bytes : Stream → List UInt8} {ui : Ui}

theorem conserved_spawnReaders : Conserved host bytes ui (spawnReaders bytes ui) where
  closed _ h := by cases h
  lines stream := ⟨[], by simp [State.coming, spawnReaders, Forwarder.lineOf, queued, Reader.left],
    rfl, fun sink => by simp [spawnReaders, SecretMasker.redactLines]⟩

theorem left_congr {pipe pipe' : Pipe} (reader : Reader)
    (h : pipe'.unread ++ pipe'.unwritten = pipe.unread ++ pipe.unwritten) :
    reader.left pipe' = reader.left pipe := by
  cases reader <;> simp only [Reader.left, h]

/-- Bytes that move along a pipe change nothing. -/
theorem left_update {s : State} {pipe : Pipe} (stream stream' : Stream)
    (h : pipe.unread ++ pipe.unwritten = (s.pipes stream).unread ++ (s.pipes stream).unwritten) :
    (s.readers stream').left (Function.update s.pipes stream pipe stream') =
      (s.readers stream').left (s.pipes stream') := by
  by_cases hstream : stream' = stream
  · subst hstream
    rw [Function.update_self, left_congr _ h]
  · rw [Function.update_of_ne hstream]

theorem closed_update {pipes : Stream → Pipe} {pipe : Pipe} (stream : Stream)
    (h : ∀ stream, (pipes stream).closed → (pipes stream).unwritten = [])
    (hpipe : pipe.closed → pipe.unwritten = []) (stream' : Stream) :
    (Function.update pipes stream pipe stream').closed →
      (Function.update pipes stream pipe stream').unwritten = [] := by
  by_cases hstream : stream' = stream
  · subst hstream
    simpa using hpipe
  · simpa [Function.update_of_ne hstream] using h stream'

/-- A step that shows no line of the host changes neither what came out nor what is to come. -/
theorem Conserved.of_eq {s s' : State} (h : Conserved host bytes ui s)
    (hclosed : ∀ stream, (s'.pipes stream).closed → (s'.pipes stream).unwritten = [])
    (hcoming : ∀ stream, s'.coming stream = s.coming stream)
    (hmasker : ∀ stream, s'.ui.masker host stream = s.ui.masker host stream)
    (hseen : ∀ sink stream, s'.ui.seen sink host stream = s.ui.seen sink host stream) :
    Conserved host bytes ui s' where
  closed := hclosed
  lines stream := by simpa only [hcoming, hmasker, hseen] using h.lines stream

theorem step_conserved {s s' : State} {a : Act} (h : Conserved host bytes ui s)
    (hstep : step host s a = some s') : Conserved host bytes ui s' := by
  cases a with
  | write stream n =>
    simp only [step] at hstep
    split at hstep
    · cases hstep
    · obtain rfl := Option.some.inj hstep
      refine h.of_eq (closed_update stream h.closed (fun hopen => absurd hopen (by simp)))
        (fun stream' => ?_) (fun _ => rfl) (fun _ _ => rfl)
      simp only [State.coming]
      rw [left_update stream stream' (by simp)]
  | close stream =>
    simp only [step] at hstep
    split at hstep
    · rename_i hend
      obtain rfl := Option.some.inj hstep
      have hnil : (s.pipes stream).unwritten = [] := by
        rw [Bool.and_eq_true, List.isEmpty_iff] at hend
        exact hend.2
      refine h.of_eq (closed_update stream h.closed fun _ => hnil) (fun stream' => ?_)
        (fun _ => rfl) (fun _ _ => rfl)
      simp only [State.coming]
      rw [left_update stream stream' (by rfl)]
    · cases hstep
  | nextLine stream =>
    simp only [step] at hstep
    split at hstep
    · rename_i hreading
      obtain ⟨⟨pipe, reader⟩, hread, rfl⟩ := Option.map_eq_some_iff.mp hstep
      obtain ⟨hleft, hpipe⟩ := readNext_left hread (h.closed stream)
      refine h.of_eq (closed_update stream h.closed hpipe) (fun stream' => ?_)
        (fun _ => rfl) (fun _ _ => rfl)
      simp only [State.coming]
      by_cases hstream : stream' = stream
      · subst hstream
        rw [Function.update_self, Function.update_self, hleft, hreading]
      · rw [Function.update_of_ne hstream, Function.update_of_ne hstream]
    · cases hstep
  | send stream =>
    simp only [step] at hstep
    split at hstep
    · rename_i line hsending
      split at hstep
      · obtain rfl := Option.some.inj hstep
        refine h.of_eq h.closed (fun stream' => ?_) (fun _ => rfl) (fun _ _ => rfl)
        simp only [State.coming]
        by_cases hstream : stream' = stream
        · subst hstream
          simp [hsending, queued, Reader.left]
        · simp [Function.update_of_ne hstream, queued, Ne.symm hstream]
      · cases hstep
    · cases hstep
  | recv =>
    simp only [step] at hstep
    split at hstep
    · rename_i stream line rest hwaiting hchannel
      obtain rfl := Option.some.inj hstep
      refine h.of_eq h.closed (fun stream' => ?_) (fun _ => rfl) (fun _ _ => rfl)
      simp only [State.coming, hwaiting, hchannel]
      by_cases hstream : stream = stream' <;> simp [hstream, Forwarder.lineOf, queued]
    · cases hstep
  | forward =>
    simp only [step] at hstep
    split at hstep
    · rename_i stream line hholding
      obtain rfl := Option.some.inj hstep
      refine ⟨h.closed, fun stream' => ?_⟩
      obtain ⟨out, hout, hmasker, hseen⟩ := h.lines stream'
      by_cases hstream : stream = stream'
      · -- The line in hand is the next one of this stream.
        subst hstream
        refine ⟨out ++ [line], ?_, ?_, fun sink => ?_⟩
        · rw [← hout]
          simp [State.coming, hholding, Forwarder.lineOf]
        · simp only [masker_hostLine, hmasker, maskerAfter_concat, and_self, if_true]
        · simp only [seen_hostLine, hseen, hmasker, redactLines_concat, Option.map_map,
            Function.comp_def, and_self, if_true, List.append_assoc]
      · refine ⟨out, ?_, ?_, fun sink => ?_⟩
        · rw [← hout]
          simp [State.coming, hholding, Forwarder.lineOf, hstream]
        · simp only [masker_hostLine, hmasker, hstream, and_false, if_false]
        · simp only [seen_hostLine, hseen, hstream, and_false, if_false, List.append_nil,
            Option.map_id']
    · cases hstep
  | hangUp =>
    simp only [step] at hstep
    split at hstep
    · rename_i hwaiting _ _ _
      obtain rfl := Option.some.inj hstep
      refine h.of_eq h.closed (fun stream' => ?_) (fun _ => rfl) (fun _ _ => rfl)
      simp only [State.coming, hwaiting, Forwarder.lineOf]
    · cases hstep
  | hostLine other stream line =>
    simp only [step] at hstep
    split at hstep
    · cases hstep
    · rename_i hother
      obtain rfl := Option.some.inj hstep
      refine h.of_eq h.closed (fun _ => rfl) (fun stream' => ?_) (fun sink stream' => ?_)
      · simp only [masker_hostLine, hother, false_and, if_false]
      · simp only [seen_hostLine, hother, false_and, if_false, List.append_nil, Option.map_id']
  | hostFinished other =>
    simp only [step] at hstep
    split at hstep
    · cases hstep
    · obtain rfl := Option.some.inj hstep
      exact h.of_eq h.closed (fun _ => rfl) (fun _ => masker_hostFinished _ _)
        (fun sink _ => seen_hostFinished _ sink _)

theorem exec_conserved {s : State} {acts : List Act}
    (hrun : Runs.exec (step host) (spawnReaders bytes ui) acts = some s) :
    Conserved host bytes ui s :=
  Runs.exec_invariant (fun _ _ _ => step_conserved) conserved_spawnReaders hrun

/-- When everything has drained, the lines that could be read came out, and no others. -/
theorem drained_lines {s : State} {acts : List Act}
    (hrun : Runs.exec (step host) (spawnReaders bytes ui) acts = some s) (hdrained : s.Drained)
    (sink : Sink) (stream : Stream) :
    ((s.ui.hostFinished host).lines sink).map (textsOf host stream) =
      (ui.seen sink host stream).map fun before => before ++
        (ui.masker host stream).redactLines (readable (rawLines (bytes stream))) := by
  obtain ⟨out, hout, -, hseen⟩ := (exec_conserved hrun).lines stream
  obtain ⟨hreaders, hchannel, hforwarder⟩ := hdrained
  have hnone : s.coming stream = [] := by
    simp [State.coming, hreaders stream, hchannel, hforwarder, Forwarder.lineOf, queued, Reader.left]
  rw [hnone, List.append_nil] at hout
  rw [lines_hostFinished, hseen sink, hout]

end Readers

/-- Every line that the bytes consist of is UTF-8. -/
def AllText (bytes : List UInt8) : Prop := ∀ raw ∈ rawLines bytes, (lineText raw).isSome

theorem nothingLost_iff {host : String} {ui ui' : Ui} {stream : Stream} {bytes : List UInt8}
    (h : ∀ sink, (ui'.lines sink).map (textsOf host stream) =
      (ui.seen sink host stream).map fun before => before ++
        (ui.masker host stream).redactLines (readable (rawLines bytes))) :
    NothingLost ui ui' host stream bytes ↔ AllText bytes := by
  constructor
  · intro hkept
    obtain ⟨replace, hkept⟩ := hkept
    have hsame := (h .terminal).symm.trans (hkept .terminal)
    simp only [Ui.seen, Ui.lines, Option.map_some, Option.some_inj,
      List.append_cancel_left_eq] at hsame
    -- A line that was dropped is missing in the number of lines.
    have hlength := congrArg List.length hsame
    rw [length_redactLines, length_redactLines, List.length_map] at hlength
    exact length_readable.mp hlength
  · intro htext
    refine ⟨fun _ => [], fun sink => ?_⟩
    rw [h sink, readable_of_forall (fun _ => []) htext]

/-- In a run whose pipes are drained to their end, nothing that the child wrote is lost exactly
when all of its lines are UTF-8. -/
theorem nothing_lost_iff {host : String} {bytes : Stream → List UInt8} {ui : Ui} {acts : List Act}
    {s : State} (hrun : Runs.exec (step host) (spawnReaders bytes ui) acts = some s)
    (hdrained : s.Drained) :
    (∀ stream, NothingLost ui (s.ui.hostFinished host) host stream (bytes stream)) ↔
      ∀ stream, AllText (bytes stream) :=
  forall_congr' fun stream => nothingLost_iff fun sink => drained_lines hrun hdrained sink stream

section Progress
variable {host : String}

def Reader.weight : Reader → Nat
  | .reading => 1
  | .sending _ => 5
  | .stopped => 0

def Forwarder.weight : Forwarder → Nat
  | .waiting => 1
  | .holding _ _ => 3
  | .stopped => 0

def Pipe.weight (pipe : Pipe) : Nat :=
  6 * pipe.unwritten.length + 5 * pipe.unread.length + if pipe.closed then 0 else 1

/-- What the tasks still have to do; a byte costs less with every hand it goes through. -/
def State.weight (s : State) : Nat :=
  (s.pipes .stdout).weight + (s.readers .stdout).weight + (s.pipes .stderr).weight +
    (s.readers .stderr).weight + 3 * s.channel.length + s.forwarder.weight

/-- The forwarder leaves last. -/
def LeavesLast (s : State) : Prop :=
  s.forwarder = .stopped → (∀ stream, s.readers stream = .stopped) ∧ s.channel = []

theorem step_leavesLast {s s' : State} {a : Act} (h : LeavesLast s)
    (hstep : step host s a = some s') : LeavesLast s' := by
  intro hstopped
  cases a with
  | write stream n =>
    simp only [step, Option.ite_none_left_eq_some, Option.some_inj] at hstep
    obtain ⟨-, rfl⟩ := hstep
    exact h hstopped
  | close stream =>
    simp only [step, Option.ite_none_right_eq_some, Option.some_inj] at hstep
    obtain ⟨-, rfl⟩ := hstep
    exact h hstopped
  | nextLine stream =>
    simp only [step] at hstep
    split at hstep
    · rename_i hreading
      obtain ⟨_, -, rfl⟩ := Option.map_eq_some_iff.mp hstep
      exact absurd (hreading.symm.trans ((h hstopped).1 stream)) (by simp)
    · cases hstep
  | send stream =>
    simp only [step] at hstep
    split at hstep
    · rename_i hsending
      obtain ⟨-, hs⟩ := Option.ite_none_right_eq_some.mp hstep
      obtain rfl := Option.some.inj hs
      exact absurd (hsending.symm.trans ((h hstopped).1 stream)) (by simp)
    · cases hstep
  | recv =>
    simp only [step] at hstep
    split at hstep
    · obtain rfl := Option.some.inj hstep
      cases hstopped
    · cases hstep
  | forward =>
    simp only [step] at hstep
    split at hstep
    · obtain rfl := Option.some.inj hstep
      cases hstopped
    · cases hstep
  | hangUp =>
    simp only [step] at hstep
    split at hstep
    · rename_i hout herr
      obtain rfl := Option.some.inj hstep
      rename_i hchannel _
      exact ⟨fun stream => by cases stream <;> assumption, by assumption⟩
    · cases hstep
  | hostLine other stream line =>
    simp only [step, Option.ite_none_left_eq_some, Option.some_inj] at hstep
    obtain ⟨-, rfl⟩ := hstep
    exact h hstopped
  | hostFinished other =>
    simp only [step, Option.ite_none_left_eq_some, Option.some_inj] at hstep
    obtain ⟨-, rfl⟩ := hstep
    exact h hstopped

/-- Moving on with one stream lowers its weight and leaves the other one's. -/
theorem weight_update {s : State} {pipe : Pipe} {reader : Reader} {stream : Stream}
    (h : pipe.weight + reader.weight < (s.pipes stream).weight + (s.readers stream).weight) :
    ({ s with
      pipes := Function.update s.pipes stream pipe
      readers := Function.update s.readers stream reader } : State).weight < s.weight := by
  cases stream <;> simp only [State.weight, Function.update_self, ne_eq, reduceCtorEq,
    not_false_eq_true, Function.update_of_ne] <;> omega

theorem readNext_weight {pipe : Pipe} (hclosed : pipe.closed = true) :
    ∃ pipe' reader, readNext pipe = some (pipe', reader) ∧
      pipe'.weight + reader.weight < pipe.weight + Reader.reading.weight := by
  by_cases hnil : pipe.unread = []
  · exact ⟨pipe, .stopped, by simp [readNext, hnil, hclosed], by simp [Reader.weight]⟩
  · have hlen := length_takeLine hnil
    cases htext : lineText (takeLine pipe.unread).1 with
    | none =>
      refine ⟨{ pipe with unread := (takeLine pipe.unread).2 }, .stopped, ?_, ?_⟩
      · simp [readNext, hnil, hclosed, htext]
      · simp only [Pipe.weight, Reader.weight]
        omega
    | some text =>
      refine ⟨{ pipe with unread := (takeLine pipe.unread).2 }, .sending text, ?_, ?_⟩
      · simp [readNext, hnil, hclosed, htext]
      · simp only [Pipe.weight, Reader.weight]
        omega

/-- A reader that has not stopped can go on while the channel has room. -/
theorem reader_moves {s : State} {stream : Stream} (hreader : s.readers stream ≠ .stopped)
    (hroom : s.channel = []) : ∃ a s', step host s a = some s' ∧ s'.weight < s.weight := by
  cases hcase : s.readers stream with
  | stopped => exact absurd hcase hreader
  | sending line =>
    refine ⟨.send stream, _, by simp only [step, hcase, hroom]; rfl, ?_⟩
    cases stream with
    | stdout =>
      simp [State.weight, hcase, hroom, Reader.weight]
      omega
    | stderr => simp [State.weight, hcase, hroom, Reader.weight]
  | reading =>
    by_cases hclosed : (s.pipes stream).closed = true
    · obtain ⟨pipe, reader, hread, hlt⟩ := readNext_weight hclosed
      exact ⟨.nextLine stream, _, by simp only [step, hcase, hread]; rfl,
        weight_update (by rwa [hcase])⟩
    · by_cases hend : (s.pipes stream).unwritten = []
      · refine ⟨.close stream, _, by simp only [step, hclosed, hend]; rfl, ?_⟩
        cases stream <;> simp [State.weight, Pipe.weight, hclosed] <;> omega
      · have hpos := List.length_pos_iff.mpr hend
        refine ⟨.write stream 1, _, by simp only [step, hclosed, List.isEmpty_eq_false_iff.mpr hend]; rfl, ?_⟩
        cases stream <;> (simp [State.weight, Pipe.weight, hclosed]; omega)

/-- No order of steps gets stuck. -/
theorem exists_step (host : String) {s : State} (hlast : LeavesLast s) (hdrained : ¬ s.Drained) :
    ∃ a s', step host s a = some s' ∧ s'.weight < s.weight := by
  cases hforwarder : s.forwarder with
  | stopped => exact absurd ⟨(hlast hforwarder).1, (hlast hforwarder).2, hforwarder⟩ hdrained
  | holding stream line =>
    refine ⟨.forward, _, by simp only [step, hforwarder]; rfl, ?_⟩
    simp [State.weight, hforwarder, Forwarder.weight]
  | waiting =>
    cases hchannel : s.channel with
    | cons entry rest =>
      refine ⟨.recv, _, by simp only [step, hforwarder, hchannel]; rfl, ?_⟩
      simp [State.weight, hforwarder, hchannel, Forwarder.weight]
      omega
    | nil =>
      by_cases hout : s.readers .stdout = .stopped
      · by_cases herr : s.readers .stderr = .stopped
        · refine ⟨.hangUp, _, by simp only [step, hforwarder, hchannel, hout, herr]; rfl, ?_⟩
          simp only [State.weight, hforwarder, hchannel, Forwarder.weight]
          omega
        · exact reader_moves herr hchannel
      · exact reader_moves hout hchannel

theorem exists_drained_of (host : String) (n : Nat) {s : State} (hn : s.weight ≤ n) (hlast : LeavesLast s) :
    ∃ acts s', Runs.exec (step host) s acts = some s' ∧ s'.Drained := by
  induction n generalizing s with
  | zero =>
    by_cases hdrained : s.Drained
    · exact ⟨[], s, rfl, hdrained⟩
    · obtain ⟨a, s', -, hlt⟩ := exists_step host hlast hdrained
      omega
  | succ n ih =>
    by_cases hdrained : s.Drained
    · exact ⟨[], s, rfl, hdrained⟩
    · obtain ⟨a, m, hstep, hlt⟩ := exists_step host hlast hdrained
      obtain ⟨acts, s', hrun, hs'⟩ := ih (by omega) (step_leavesLast hlast hstep)
      exact ⟨a :: acts, s', Runs.exec_cons.mpr ⟨m, hstep, hrun⟩, hs'⟩

/-- Whatever happened so far, the tasks can still finish. -/
theorem exists_drained {bytes : Stream → List UInt8} {ui : Ui} {acts : List Act} {s : State}
    (hrun : Runs.exec (step host) (spawnReaders bytes ui) acts = some s) :
    ∃ acts' s', Runs.exec (step host) (spawnReaders bytes ui) (acts ++ acts') = some s' ∧
      s'.Drained := by
  have hlast : LeavesLast s :=
    Runs.exec_invariant (fun _ _ _ => step_leavesLast) (fun h => by cases h) hrun
  obtain ⟨acts', s', hrest, hdrained⟩ := exists_drained_of host s.weight (Nat.le_refl _) hlast
  exact ⟨acts', s', Runs.exec_append.mpr ⟨s, hrun, hrest⟩, hdrained⟩

end Progress

/-- A host whose sink is empty. -/
def quietUi : Ui := ⟨[], [], fun _ _ => none, .stream, [], some []⟩

def threeLines : Stream → List UInt8
  | .stdout => [97, 10, 255, 10, 98, 10]
  | .stderr => []

/-- The reader of the standard output takes two lines and the other one finds its pipe closed. -/
def drainStdout : List Act :=
  [.write .stdout 6, .close .stdout, .close .stderr, .nextLine .stdout, .send .stdout,
    .nextLine .stdout, .nextLine .stderr, .recv, .forward, .hangUp]

theorem drained_three_lines :
    ∃ s, Runs.exec (step "web") (spawnReaders threeLines quietUi)
      drainStdout = some s ∧ s.Drained :=
  ⟨_, rfl, fun stream => by cases stream <;> rfl, rfl, rfl⟩

theorem nothing_lost_three_lines : ∃ s, Runs.exec (step "web")
    (spawnReaders threeLines quietUi) drainStdout = some s ∧
      s.Drained ∧ ((∀ stream, NothingLost quietUi (s.ui.hostFinished "web") "web" stream
        (threeLines stream)) ↔
          ∀ stream, AllText (threeLines stream)) := by
  obtain ⟨s, hrun, hdrained⟩ := drained_three_lines
  exact ⟨s, hrun, hdrained, nothing_lost_iff hrun hdrained⟩

/-- The second line is not UTF-8, and the third one, which is, never comes out. -/
theorem lines_after_invalid_utf8_lost : ¬ ∀ (host : String) (bytes : Stream → List UInt8) (ui : Ui)
    (acts : List Act) (s : State), Runs.exec (step host) (spawnReaders bytes ui) acts = some s →
      s.Drained → ∀ stream, NothingLost ui (s.ui.hostFinished host) host stream (bytes stream) := by
  intro h
  obtain ⟨s, hrun, hdrained⟩ := drained_three_lines
  have hkept := h _ _ _ _ s hrun hdrained .stdout
  have htext := (nothingLost_iff fun sink => drained_lines hrun hdrained sink .stdout).mp hkept
  have hraw : (lineText [255, 10]).isSome := htext _ (by decide)
  exact absurd hraw (by decide)

end Shellflow.Piped
