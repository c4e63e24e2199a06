import Shellflow.Executor.Sink
import Shellflow.Lib.Assoc

/-! Grouped output: the buffer against the plain list of the lines that wait. -/
namespace Shellflow.Sink
open Piped (Stream)

section Lines

/-- The lines of one host. -/
def ofHost (host : Text) (lines : List OutLine) : List OutLine := lines.filter fun l => l.host = host

/-- The hosts of a list of lines, each where it is seen first. -/
def firstSeen (lines : List OutLine) : List Text := (lines.map OutLine.host).foldl Assoc.pushNew []

theorem ofHost_append (host : Text) (lines later : List OutLine) :
    ofHost host (lines ++ later) = ofHost host lines ++ ofHost host later := List.filter_append ..

theorem ofHost_eq_nil {host : Text} {lines : List OutLine} :
    ofHost host lines = [] ↔ host ∉ lines.map OutLine.host := by
  simp [ofHost, List.filter_eq_nil_iff]

theorem ofHost_ofHost_ne {host other : Text} (h : host ≠ other) (lines : List OutLine) :
    ofHost host (ofHost other lines) = [] := by
  rw [ofHost, List.filter_eq_nil_iff]
  intro l hl hhost
  exact h ((of_decide_eq_true hhost).symm.trans (of_decide_eq_true (List.mem_filter.mp hl).2))

theorem ofHost_ofHost_self (host : Text) (lines : List OutLine) :
    ofHost host (ofHost host lines) = ofHost host lines :=
  List.filter_eq_self.mpr fun _ hl => (List.mem_filter.mp hl).2

theorem ofHost_without_self (host : Text) (lines : List OutLine) :
    ofHost host (lines.filter fun l => l.host ≠ host) = [] := by
  rw [ofHost, List.filter_filter, List.filter_eq_nil_iff]
  simp

theorem ofHost_without {host other : Text} (h : host ≠ other) (lines : List OutLine) :
    ofHost host (lines.filter fun l => l.host ≠ other) = ofHost host lines := by
  rw [ofHost, List.filter_filter]
  refine List.filter_congr fun l _ => ?_
  by_cases hl : l.host = host
  · simp [hl, h]
  · simp [hl]

theorem mem_firstSeen {host : Text} {lines : List OutLine} :
    host ∈ firstSeen lines ↔ host ∈ lines.map OutLine.host := by
  rw [firstSeen, Assoc.mem_foldl_pushNew]
  simp

theorem nodup_firstSeen (lines : List OutLine) : (firstSeen lines).Nodup := by
  obtain ⟨new, hnew, hnodup, -⟩ := Assoc.foldl_pushNew_eq (lines.map OutLine.host) []
  rw [firstSeen, hnew]
  exact hnodup

theorem firstSeen_concat (lines : List OutLine) (line : OutLine) :
    firstSeen (lines ++ [line]) = Assoc.pushNew (firstSeen lines) line.host := by
  rw [firstSeen, List.map_append, List.foldl_append]
  rfl

/-- Without a host, the others are first seen in the order they were. -/
theorem firstSeen_without (host : Text) (lines : List OutLine) :
    firstSeen (lines.filter fun l => l.host ≠ host) = (firstSeen lines).filter (· ≠ host) := by
  induction lines using List.reverseRecOn with
  | nil => rfl
  | append_singleton lines line ih =>
    rw [List.filter_append, firstSeen_concat, Assoc.pushNew]
    by_cases hline : line.host = host
    · have hdrop : [line].filter (fun l => l.host ≠ host) = [] := by simp [hline]
      rw [hdrop, List.append_nil, ih]
      split
      · rfl
      · simp [hline]
    · have hkeep : [line].filter (fun l => l.host ≠ host) = [line] := by simp [hline]
      rw [hkeep, firstSeen_concat, ih, Assoc.pushNew]
      by_cases hmem : line.host ∈ firstSeen lines
      · rw [if_pos hmem, if_pos (List.mem_filter.mpr ⟨hmem, by simpa using hline⟩)]
      · rw [if_neg hmem, if_neg fun h => hmem (List.mem_filter.mp h).1, List.filter_append]
        simp [hline]

/-- Lines that are the same for every host are the same lines. -/
theorem perm_of_ofHost {lines lines' : List OutLine} (h : ∀ host, ofHost host lines = ofHost host lines') :
    lines.Perm lines' := by
  refine List.perm_iff_count.mpr fun line => ?_
  have hcount : ∀ lines : List OutLine, (ofHost line.host lines).count line = lines.count line :=
    fun lines => List.count_filter (by simp)
  rw [← hcount lines, ← hcount lines', h]

end Lines

section Buffer

/-- The buffer holds the lines that wait. -/
structure Holds (buf : GroupedBuffer) (waiting : List OutLine) : Prop where
  order : buf.order = firstSeen waiting
  lines : ∀ host, buf.lines host =
    if host ∈ firstSeen waiting then some (ofHost host waiting) else none

variable {buf : GroupedBuffer} {waiting : List OutLine}

theorem holds_empty : Holds .empty [] := ⟨rfl, fun _ => rfl⟩

theorem Holds.getD (h : Holds buf waiting) (host : Text) :
    (buf.lines host).getD [] = ofHost host waiting := by
  rw [h.lines]
  by_cases hmem : host ∈ firstSeen waiting
  · rw [if_pos hmem]
    rfl
  · rw [if_neg hmem, ofHost_eq_nil.mpr fun hin => hmem (mem_firstSeen.mpr hin)]
    rfl

theorem Holds.push (h : Holds buf waiting) (line : OutLine) :
    Holds (buf.push line.host line) (waiting ++ [line]) := by
  have hlast : ofHost line.host [line] = [line] := by simp [ofHost]
  constructor
  · rw [GroupedBuffer.push, firstSeen_concat, Assoc.pushNew, h.order, h.lines]
    by_cases hmem : line.host ∈ firstSeen waiting
    · rw [if_pos hmem, if_pos hmem]
      rfl
    · rw [if_neg hmem, if_neg hmem]
      rfl
  · intro host
    rw [GroupedBuffer.push, firstSeen_concat]
    dsimp only
    by_cases heq : host = line.host
    · subst heq
      rw [Function.update_self, h.getD, if_pos (Assoc.mem_pushNew.mpr (.inr rfl)), ofHost_append, hlast]
    · have hother : ofHost host [line] = [] := by simp [ofHost, Ne.symm heq]
      have hmem : host ∈ Assoc.pushNew (firstSeen waiting) line.host ↔ host ∈ firstSeen waiting :=
        Assoc.mem_pushNew.trans (or_iff_left heq)
      rw [Function.update_of_ne heq, h.lines, ofHost_append, hother, List.append_nil]
      simp only [hmem]

theorem Holds.takeHost (h : Holds buf waiting) (host : Text) :
    Holds (buf.takeHost host).1 (waiting.filter fun l => l.host ≠ host) ∧
      (buf.takeHost host).2 = ofHost host waiting := by
  refine ⟨⟨?_, fun other => ?_⟩, h.getD host⟩
  · rw [GroupedBuffer.takeHost, firstSeen_without, h.order]
  · rw [GroupedBuffer.takeHost, firstSeen_without]
    dsimp only
    by_cases heq : other = host
    · subst heq
      rw [Function.update_self, if_neg]
      simp
    · have hmem : other ∈ (firstSeen waiting).filter (· ≠ host) ↔ other ∈ firstSeen waiting := by
        simp [heq]
      rw [Function.update_of_ne heq, h.lines, ofHost_without heq]
      simp only [hmem]

/-- Draining the hosts of an order: the block of each, and nothing of them is left. -/
theorem takeHosts_eq {order : List Text} (h : order.Nodup) (lines : Text → Option (List OutLine)) :
    (GroupedBuffer.takeHosts order lines).2 = order.flatMap (fun host => (lines host).toList) ∧
      ∀ host, (GroupedBuffer.takeHosts order lines).1 host =
        if host ∈ order then none else lines host := by
  induction order generalizing lines with
  | nil => exact ⟨rfl, fun _ => rfl⟩
  | cons first order ih =>
    obtain ⟨hfirst, horder⟩ := List.nodup_cons.mp h
    obtain ⟨hblocks, hrest⟩ := ih horder (Function.update lines first none)
    refine ⟨?_, fun host => ?_⟩
    · change (lines first).toList ++ (GroupedBuffer.takeHosts order _).2 = _
      rw [hblocks, List.flatMap_cons]
      refine congrArg _ (List.flatMap_congr fun host hhost => ?_)
      rw [Function.update_of_ne fun heq : host = first => hfirst (heq ▸ hhost)]
    · change (GroupedBuffer.takeHosts order _).1 host = _
      rw [hrest]
      by_cases heq : host = first
      · subst heq
        simp
      · rw [Function.update_of_ne heq]
        simp [heq]

theorem Holds.takeAll (h : Holds buf waiting) :
    Holds buf.takeAll.1 [] ∧
      buf.takeAll.2 = (firstSeen waiting).map fun host => ofHost host waiting := by
  obtain ⟨hblocks, hrest⟩ := takeHosts_eq (h.order ▸ nodup_firstSeen waiting) buf.lines
  rw [GroupedBuffer.takeAll]
  refine ⟨⟨rfl, fun host => ?_⟩, ?_⟩
  · dsimp only
    rw [hrest, h.lines, h.order]
    by_cases hmem : host ∈ firstSeen waiting
    · rw [if_pos hmem]
      rfl
    · rw [if_neg hmem, if_neg hmem]
      rfl
  · dsimp only
    rw [hblocks, h.order, List.map_eq_flatMap]
    refine List.flatMap_congr fun host hhost => ?_
    rw [h.lines, if_pos hhost]
    rfl

end Buffer

section Run
variable (codes : Style → Text × Text)

/-- The calls that the buffer serves. -/
def Op.Buffered : Op → Prop
  | .hostLine .. | .hostFinished _ | .flushGrouped => True
  | _ => False

/-- The line that a call pushes. -/
def pushedBy (ui : Ui) : Op → List OutLine
  | .hostLine host stream line => [⟨host, stream, (maskHostLine ui host stream line).2⟩]
  | _ => []

/-- The blocks that a call takes out of the buffer. -/
def blocksBy (ui : Ui) (op : Op) : List (List OutLine) :=
  match ui.output with
  | .stream => []
  | .grouped buf =>
    match op with
    | .hostFinished host => [(buf.takeHost host).2]
    | .flushGrouped => buf.takeAll.2
    | _ => []

def waitingAfter (ui : Ui) (lines : List OutLine) (op : Op) : List OutLine :=
  match op with
  | .hostLine host stream line => lines ++ pushedBy ui (.hostLine host stream line)
  | .hostFinished host => lines.filter fun l => l.host ≠ host
  | .flushGrouped => []
  | _ => lines

def pushed (ui : Ui) : List Op → List OutLine
  | [] => []
  | op :: ops => pushedBy ui op ++ pushed (step codes ui op).1 ops

def emitted (ui : Ui) : List Op → List OutLine
  | [] => []
  | op :: ops => (blocksBy ui op).flatten ++ emitted (step codes ui op).1 ops

/-- The lines that wait after a run, in the order they were pushed. -/
def waiting (ui : Ui) (lines : List OutLine) : List Op → List OutLine
  | [] => lines
  | op :: ops => waiting (step codes ui op).1 (waitingAfter ui lines op) ops

end Run

section Conserved
variable {codes : Style → Text × Text} {ui : Ui} {lines : List OutLine}

/-- The sink buffers, and the buffer holds the lines. -/
def Buffers (ui : Ui) (lines : List OutLine) : Prop :=
  ∃ buf, ui.output = .grouped buf ∧ Holds buf lines

theorem blocksBy_hostFinished (h : Buffers ui lines) (host : Text) :
    blocksBy ui (.hostFinished host) = [ofHost host lines] := by
  obtain ⟨buf, hbuf, hholds⟩ := h
  rw [blocksBy, hbuf]
  exact congrArg (fun block => [block]) (hholds.takeHost host).2

theorem blocksBy_flushGrouped (h : Buffers ui lines) :
    blocksBy ui .flushGrouped = (firstSeen lines).map fun host => ofHost host lines := by
  obtain ⟨buf, hbuf, hholds⟩ := h
  rw [blocksBy, hbuf]
  exact hholds.takeAll.2

theorem output_maskHostLine (ui : Ui) (host : Text) (stream : Stream) (line : Text) :
    (maskHostLine ui host stream line).1.output = ui.output := rfl

theorem buffers_step (h : Buffers ui lines) (op : Op) :
    Buffers (step codes ui op).1 (waitingAfter ui lines op) := by
  obtain ⟨buf, hbuf, hholds⟩ := h
  have hsame : Buffers ui lines := ⟨buf, hbuf, hholds⟩
  cases op with
  | hostLine host stream line =>
    let pushed : OutLine := ⟨host, stream, (maskHostLine ui host stream line).2⟩
    refine ⟨buf.push host pushed, ?_, hholds.push pushed⟩
    rw [step, hostLine]
    dsimp only
    rw [output_maskHostLine, hbuf]
  | hostFinished host =>
    refine ⟨(buf.takeHost host).1, ?_, (hholds.takeHost host).1⟩
    rw [step, hostFinished, hbuf]
  | flushGrouped =>
    refine ⟨buf.takeAll.1, ?_, hholds.takeAll.1⟩
    rw [step, flushGrouped, hbuf]
  | setSecretValues masks shorts => exact hsame
  | extendSecretValues values shorts =>
    refine ⟨buf, ?_, hholds⟩
    rw [step, extendSecretValues, extendMasks]
    split <;> exact hbuf
  | report text => exact hsame
  | note text => exact hsame
  | warn text => exact hsame
  | payloadPreview title script => exact hsame
  | fatal message => exact hsame

/-- What a buffered call writes are the lines of its blocks. -/
theorem written_step (h : Buffers ui lines) {op : Op} (hop : op.Buffered) :
    (step codes ui op).2 = (blocksBy ui op).flatten.flatMap (emitHostLine codes ui) := by
  obtain ⟨buf, hbuf, -⟩ := h
  cases op with
  | hostLine host stream line =>
    rw [step, hostLine, blocksBy, hbuf]
    dsimp only
    rw [output_maskHostLine, hbuf]
    rfl
  | hostFinished host =>
    rw [step, hostFinished, blocksBy, hbuf]
    simp
  | flushGrouped =>
    rw [step, flushGrouped, blocksBy, hbuf, ← List.flatMap_id, List.flatMap_assoc]
    rfl
  | _ => cases hop

theorem ofHost_blocks {hosts : List Text} (h : hosts.Nodup) (host : Text) (lines : List OutLine) :
    ofHost host (hosts.map fun other => ofHost other lines).flatten =
      if host ∈ hosts then ofHost host lines else [] := by
  induction hosts with
  | nil => rfl
  | cons first hosts ih =>
    obtain ⟨hfirst, hhosts⟩ := List.nodup_cons.mp h
    rw [List.map_cons, List.flatten_cons, ofHost_append, ih hhosts]
    by_cases heq : host = first
    · subst heq
      rw [if_neg hfirst, if_pos List.mem_cons_self, List.append_nil, ofHost_ofHost_self]
    · rw [ofHost_ofHost_ne heq, List.nil_append]
      simp [heq]

/-- For every host, what leaves and what waits is what waited and what came. -/
theorem conserved_step (h : Buffers ui lines) (op : Op) (host : Text) :
    ofHost host (blocksBy ui op).flatten ++ ofHost host (waitingAfter ui lines op) =
      ofHost host lines ++ ofHost host (pushedBy ui op) := by
  have hidle : ∀ {op}, blocksBy ui op = [] → waitingAfter ui lines op = lines ++ pushedBy ui op →
      ofHost host (blocksBy ui op).flatten ++ ofHost host (waitingAfter ui lines op) =
        ofHost host lines ++ ofHost host (pushedBy ui op) := by
    intro op hblocks hwaiting
    rw [hblocks, hwaiting, ofHost_append]
    rfl
  have hnothing : lines = lines ++ [] := (List.append_nil lines).symm
  obtain ⟨buf, hbuf, -⟩ := id h
  cases op with
  | hostFinished other =>
    rw [blocksBy_hostFinished h, List.flatten_singleton]
    change _ ++ ofHost host (lines.filter fun l => l.host ≠ other) = ofHost host lines ++ []
    by_cases heq : host = other
    · subst heq
      rw [ofHost_without_self, ofHost_ofHost_self]
    · rw [ofHost_ofHost_ne heq, ofHost_without heq, List.nil_append, List.append_nil]
  | flushGrouped =>
    rw [blocksBy_flushGrouped h, ofHost_blocks (nodup_firstSeen lines)]
    change _ ++ [] = ofHost host lines ++ []
    by_cases hmem : host ∈ firstSeen lines
    · rw [if_pos hmem]
    · rw [if_neg hmem, ofHost_eq_nil.mpr fun hin => hmem (mem_firstSeen.mpr hin)]
  | hostLine host stream line => exact hidle (by rw [blocksBy, hbuf]) rfl
  | setSecretValues masks shorts => exact hidle (by rw [blocksBy, hbuf]) hnothing
  | extendSecretValues values shorts => exact hidle (by rw [blocksBy, hbuf]) hnothing
  | report text => exact hidle (by rw [blocksBy, hbuf]) hnothing
  | note text => exact hidle (by rw [blocksBy, hbuf]) hnothing
  | warn text => exact hidle (by rw [blocksBy, hbuf]) hnothing
  | payloadPreview title script => exact hidle (by rw [blocksBy, hbuf]) hnothing
  | fatal message => exact hidle (by rw [blocksBy, hbuf]) hnothing

theorem buffers_after (codes : Style → Text × Text) (h : Buffers ui lines) (ops : List Op) :
    Buffers (after codes ui ops) (waiting codes ui lines ops) := by
  induction ops generalizing ui lines with
  | nil => exact h
  | cons op ops ih => exact ih (buffers_step h op)

theorem conserved_run (codes : Style → Text × Text) (h : Buffers ui lines) (ops : List Op) (host : Text) :
    ofHost host (emitted codes ui ops) ++ ofHost host (waiting codes ui lines ops) =
      ofHost host lines ++ ofHost host (pushed codes ui ops) := by
  induction ops generalizing ui lines with
  | nil => exact (List.append_nil _).symm
  | cons op ops ih =>
    rw [emitted, waiting, pushed, ofHost_append, ofHost_append, List.append_assoc,
      ih (buffers_step h op), ← List.append_assoc, ← List.append_assoc, conserved_step h]

theorem waitingAfter_sublist (ui : Ui) (lines : List OutLine) (op : Op) :
    (waitingAfter ui lines op).Sublist (lines ++ pushedBy ui op) := by
  have hsame : lines.Sublist (lines ++ []) := (List.append_nil lines).symm ▸ List.Sublist.refl lines
  cases op with
  | hostLine host stream line => exact List.Sublist.refl _
  | hostFinished host => exact List.filter_sublist.trans hsame
  | flushGrouped => exact List.nil_sublist _
  | _ => exact hsame

/-- What waits stands in the order it was pushed. -/
theorem waiting_sublist (codes : Style → Text × Text) (ui : Ui) (lines : List OutLine) (ops : List Op) :
    (waiting codes ui lines ops).Sublist (lines ++ pushed codes ui ops) := by
  induction ops generalizing ui lines with
  | nil => exact (List.append_nil lines).symm ▸ List.Sublist.refl lines
  | cons op ops ih =>
    rw [waiting, pushed, ← List.append_assoc]
    exact (ih _ _).trans ((waitingAfter_sublist ui lines op).append_right _)

theorem waiting_append (ops later : List Op) :
    waiting codes ui lines (ops ++ later) =
      waiting codes (after codes ui ops) (waiting codes ui lines ops) later := by
  induction ops generalizing ui lines with
  | nil => rfl
  | cons op ops ih => rw [List.cons_append, waiting, waiting, after, ih]

/-- What a sink in grouped mode does with the lines of the hosts. -/
structure GroupedRun (codes : Style → Text × Text) (start : Ui) (ops : List Op) : Prop where
  /-- a buffered call writes the lines of its blocks -/
  written : ∀ op, op.Buffered → (step codes (after codes start ops) op).2 =
    (blocksBy (after codes start ops) op).flatten.flatMap (emitHostLine codes (after codes start ops))
  /-- after a flush every line that was pushed has been emitted, and once -/
  once : ∀ before, ops = before ++ [.flushGrouped] →
    (emitted codes start ops).Perm (pushed codes start ops)
  inOrder : ∀ host, ofHost host (emitted codes start ops) <+: ofHost host (pushed codes start ops)
  waits : (waiting codes start [] ops).Sublist (pushed codes start ops) ∧
    (emitted codes start ops ++ waiting codes start [] ops).Perm (pushed codes start ops)
  /-- a host that finishes emits all it has as one block -/
  finished : ∀ host, blocksBy (after codes start ops) (.hostFinished host) =
    [ofHost host (waiting codes start [] ops)]
  /-- a flush emits one block for each host, in the order in which the hosts are first seen -/
  flushed : blocksBy (after codes start ops) .flushGrouped =
    (firstSeen (waiting codes start [] ops)).map fun host => ofHost host (waiting codes start [] ops)
  /-- the order of the buffer lists the hosts with lines, each once -/
  inStep : ∃ buf, (after codes start ops).output = .grouped buf ∧ buf.order.Nodup ∧
    ∀ host, host ∈ buf.order ↔ ∃ lines, lines ≠ [] ∧ buf.lines host = some lines

/-- Grouped output conserves the lines of the hosts, whatever the order of the calls. -/
theorem grouped_run (codes : Style → Text × Text) (ui : Ui) (ops : List Op) :
    GroupedRun codes { ui with output := .grouped .empty } ops := by
  have hstart : Buffers { ui with output := .grouped .empty } [] := ⟨.empty, rfl, holds_empty⟩
  have hafter := buffers_after codes hstart ops
  have hconserved := conserved_run codes hstart ops
  have hperm : (emitted codes { ui with output := .grouped .empty } ops ++
      waiting codes { ui with output := .grouped .empty } [] ops).Perm
        (pushed codes { ui with output := .grouped .empty } ops) :=
    perm_of_ofHost fun host => (ofHost_append host _ _).trans (hconserved host)
  refine ⟨fun op hop => written_step hafter hop, ?_, fun host => ⟨_, hconserved host⟩,
    ⟨waiting_sublist codes _ [] ops, hperm⟩, blocksBy_hostFinished hafter,
    blocksBy_flushGrouped hafter, ?_⟩
  · rintro before rfl
    have hnone : waiting codes { ui with output := .grouped .empty } [] (before ++ [.flushGrouped]) =
        [] := waiting_append before [.flushGrouped]
    rwa [hnone, List.append_nil] at hperm
  · obtain ⟨buf, hbuf, hholds⟩ := hafter
    refine ⟨buf, hbuf, hholds.order ▸ nodup_firstSeen _, fun host => ?_⟩
    rw [hholds.order, hholds.lines]
    constructor
    · intro hmem
      refine ⟨_, fun hnil => ?_, if_pos hmem⟩
      exact ofHost_eq_nil.mp hnil (mem_firstSeen.mp hmem)
    · rintro ⟨lines, -, hlines⟩
      by_contra hmem
      rw [if_neg hmem] at hlines
      cases hlines

end Conserved

end Shellflow.Sink
