import Shellflow.Lib.Slice
import Shellflow.Lib.Str

/-! The frame-to-line assembler. Rows are abstract: the program runs it on plain strings, and
the same definitions run on rows that remember where in the terminal they came from. -/
namespace Shellflow

/-- What stands after the last carriage return. -/
def collapseCrChars (s : List Char) : List Char := s.rtakeWhile (· ≠ '\r')

def collapseCr (line : String) : String := String.ofList (collapseCrChars line.toList)

class TextRow (ρ : Type) where
  text : ρ → String
  collapse : ρ → ρ
  text_collapse : ∀ r, text (collapse r) = collapseCr (text r)

instance : TextRow String := ⟨id, collapseCr, fun _ => rfl⟩

structure Screen (ρ : Type) where
  rows : List ρ
  reset : Bool
  historyTotal : Nat

structure Push (ρ : Type) where
  lines : List ρ
  missing : Nat
  tuiRedraw : Bool
deriving DecidableEq

structure LineAssembler (ρ : Type) where
  prev : List ρ
  armed : Bool
  marker : String
  historyTotal : Nat
  initialized : Bool

/-- The largest `j ≤ k` for which the last `j` rows of `prev` are the first `j` of `cur`. -/
def overlap (prev cur : List String) : Nat → Nat
  | 0 => 0
  | k + 1 =>
    if prev.drop (prev.length - (k + 1)) = cur.take (k + 1) then k + 1 else overlap prev cur k

def departureShift (prev cur : List String) : Nat :=
  prev.length - overlap prev cur (min prev.length cur.length)

namespace LineAssembler
variable {ρ : Type} [TextRow ρ]

def new (marker : String) : LineAssembler ρ := ⟨[], false, marker, 0, false⟩

def hasMarker (asm : LineAssembler ρ) (row : ρ) : Bool :=
  Str.contains (TextRow.text row) asm.marker

def isBlank (row : ρ) : Bool := Str.trim (TextRow.text row) = ""

def noPush : Push ρ := ⟨[], 0, false⟩

def shiftTo (asm : LineAssembler ρ) (cur : List ρ) : Nat :=
  departureShift (asm.prev.map TextRow.text) (cur.map TextRow.text)

/-- An ordinary frame: rows that left the top are emitted, and the marker arms. -/
def pushScroll (asm : LineAssembler ρ) (screen : Screen ρ) : LineAssembler ρ × Push ρ :=
  let shift := asm.shiftTo screen.rows
  let missing := (screen.historyTotal - asm.historyTotal) - shift
  let lines := (asm.prev.take shift).map TextRow.collapse
  let next := { asm with prev := screen.rows, historyTotal := screen.historyTotal }
  if asm.armed then (next, ⟨lines, missing, false⟩)
  else
    match lines.findIdx? asm.hasMarker with
    | some index => ({ next with armed := true }, ⟨lines.drop (index + 1), missing, false⟩)
    | none =>
      match screen.rows.findIdx? asm.hasMarker with
      | some index =>
        -- the baseline is cut past the marker, but only until the next frame replaces it
        ({ next with armed := true, prev := screen.rows.drop (index + 1) }, ⟨[], missing, false⟩)
      | none => (next, ⟨[], missing, false⟩)

def pushReset (asm : LineAssembler ρ) (screen : Screen ρ) : LineAssembler ρ × Push ρ :=
  let delta := screen.historyTotal - asm.historyTotal
  let shift := asm.shiftTo screen.rows
  ({ asm with prev := screen.rows, historyTotal := screen.historyTotal },
    ⟨[], 0, delta = 0 ∧ 0 < shift⟩)

def push (asm : LineAssembler ρ) (screen : Screen ρ) : LineAssembler ρ × Push ρ :=
  if asm.initialized = false then
    ({ asm with prev := screen.rows, historyTotal := screen.historyTotal, initialized := true },
      noPush)
  else if screen.reset then asm.pushReset screen
  else asm.pushScroll screen

def feedGap (asm : LineAssembler ρ) (rows : List ρ) : LineAssembler ρ × List ρ :=
  if asm.armed then (asm, rows.map TextRow.collapse)
  else
    match rows.findIdx? asm.hasMarker with
    | some index => ({ asm with armed := true }, (rows.drop (index + 1)).map TextRow.collapse)
    | none => (asm, [])

/-- Trailing blank rows are popped first; the filter then drops the blank rows inside. -/
def finishTail (tail : List ρ) : List ρ :=
  (tail.rdropWhile isBlank).filter fun row => !isBlank row

def finish (asm : LineAssembler ρ) : LineAssembler ρ × List ρ :=
  let tail := asm.prev.map TextRow.collapse
  if asm.armed then (asm, finishTail tail)
  else
    match tail.findIdx? asm.hasMarker with
    | some index => ({ asm with armed := true }, finishTail (tail.drop (index + 1)))
    | none => (asm, [])

/-- One frame as `handle_frame` treats it: the push, then the rows it asks for from the
history, oldest first. -/
def feed (asm : LineAssembler ρ) (screen : Screen ρ) (history : List ρ) :
    LineAssembler ρ × List ρ :=
  let (asm', push) := asm.push screen
  if push.missing = 0 then (asm', push.lines)
  else
    let (asm'', rows) :=
      asm'.feedGap (Slice.slice (screen.historyTotal - push.missing) screen.historyTotal history)
    (asm'', push.lines ++ rows)

/-- A whole run: every frame with the history at that moment, then the end of the session. -/
def run (asm : LineAssembler ρ) : List (Screen ρ × List ρ) → List ρ
  | [] => asm.finish.2
  | (screen, history) :: rest =>
    (asm.feed screen history).2 ++ run (asm.feed screen history).1 rest

/-! What one frame does, case by case. -/

/-- The rows that left the top of the screen. -/
def departed (asm : LineAssembler ρ) (screen : Screen ρ) : List ρ :=
  (asm.prev.take (asm.shiftTo screen.rows)).map TextRow.collapse

/-- How many rows of the history the frame asks for. -/
def missingFrom (asm : LineAssembler ρ) (screen : Screen ρ) : Nat :=
  (screen.historyTotal - asm.historyTotal) - asm.shiftTo screen.rows

/-- The baseline after an ordinary frame. -/
def advance (asm : LineAssembler ρ) (screen : Screen ρ) : LineAssembler ρ :=
  { asm with prev := screen.rows, historyTotal := screen.historyTotal }

section Cases
variable {asm : LineAssembler ρ} {screen : Screen ρ}

theorem push_first (hinit : asm.initialized = false) :
    asm.push screen = ({ asm.advance screen with initialized := true }, noPush) := by
  rw [push, if_pos hinit]
  rfl

theorem push_scroll (hinit : asm.initialized = true) (hreset : screen.reset = false) :
    asm.push screen = asm.pushScroll screen := by
  rw [push, if_neg (by simp [hinit]), if_neg (by simp [hreset])]

theorem push_reset (hinit : asm.initialized = true) (hreset : screen.reset = true) :
    asm.push screen = asm.pushReset screen := by
  rw [push, if_neg (by simp [hinit]), if_pos hreset]

theorem pushScroll_armed (harmed : asm.armed = true) :
    asm.pushScroll screen =
      (asm.advance screen, ⟨asm.departed screen, asm.missingFrom screen, false⟩) := by
  rw [pushScroll, if_pos harmed]
  rfl

theorem pushScroll_departed (harmed : asm.armed = false) {i : Nat}
    (hfind : (asm.departed screen).findIdx? asm.hasMarker = some i) :
    asm.pushScroll screen = ({ asm.advance screen with armed := true },
      ⟨(asm.departed screen).drop (i + 1), asm.missingFrom screen, false⟩) := by
  rw [departed] at hfind
  rw [pushScroll, if_neg (by simp [harmed])]
  simp only [hfind]
  rfl

theorem pushScroll_onScreen (harmed : asm.armed = false) {i : Nat}
    (hlines : (asm.departed screen).findIdx? asm.hasMarker = none)
    (hfind : screen.rows.findIdx? asm.hasMarker = some i) :
    asm.pushScroll screen =
      ({ asm.advance screen with armed := true, prev := screen.rows.drop (i + 1) },
        ⟨[], asm.missingFrom screen, false⟩) := by
  rw [departed] at hlines
  rw [pushScroll, if_neg (by simp [harmed])]
  simp only [hlines, hfind]
  rfl

theorem pushScroll_unseen (harmed : asm.armed = false)
    (hlines : (asm.departed screen).findIdx? asm.hasMarker = none)
    (hfind : screen.rows.findIdx? asm.hasMarker = none) :
    asm.pushScroll screen = (asm.advance screen, ⟨[], asm.missingFrom screen, false⟩) := by
  rw [departed] at hlines
  rw [pushScroll, if_neg (by simp [harmed])]
  simp only [hlines, hfind]
  rfl

/-- The rows a push asks for, cut out of the history. -/
def gapOf (screen : Screen ρ) (history : List ρ) (missing : Nat) : List ρ :=
  Slice.slice (screen.historyTotal - missing) screen.historyTotal history

theorem feed_eq {asm' : LineAssembler ρ} {push : Push ρ} (hpush : asm.push screen = (asm', push))
    (history : List ρ) :
    asm.feed screen history = ((asm'.feedGap (gapOf screen history push.missing)).1,
      push.lines ++ (asm'.feedGap (gapOf screen history push.missing)).2) := by
  rw [feed, hpush]
  by_cases hmissing : push.missing = 0
  · have hgap : gapOf screen history push.missing = [] := by
      rw [gapOf, hmissing, Nat.sub_zero, Slice.slice_eq_nil _ (Nat.le_refl _)]
    have hnone : asm'.feedGap ([] : List ρ) = (asm', []) := by
      unfold feedGap
      split <;> rfl
    rw [hgap, hnone]
    simp [hmissing]
  · simp only [if_neg hmissing]
    rfl

theorem feedGap_armed (harmed : asm.armed = true) (rows : List ρ) :
    asm.feedGap rows = (asm, rows.map TextRow.collapse) := if_pos harmed

theorem feedGap_found (harmed : asm.armed = false) {rows : List ρ} {i : Nat}
    (hfind : rows.findIdx? asm.hasMarker = some i) :
    asm.feedGap rows =
      ({ asm with armed := true }, (rows.drop (i + 1)).map TextRow.collapse) := by
  rw [feedGap, if_neg (by simp [harmed])]
  simp only [hfind]

theorem feedGap_none (harmed : asm.armed = false) {rows : List ρ}
    (hfind : rows.findIdx? asm.hasMarker = none) : asm.feedGap rows = (asm, []) := by
  rw [feedGap, if_neg (by simp [harmed])]
  simp only [hfind]

theorem finish_armed (harmed : asm.armed = true) :
    asm.finish.2 = finishTail (asm.prev.map TextRow.collapse) := by
  rw [finish, if_pos harmed]

theorem finish_found (harmed : asm.armed = false) {i : Nat}
    (hfind : (asm.prev.map TextRow.collapse).findIdx? asm.hasMarker = some i) :
    asm.finish.2 = finishTail ((asm.prev.map TextRow.collapse).drop (i + 1)) := by
  rw [finish, if_neg (by simp [harmed])]
  simp only [hfind]

theorem finish_none (harmed : asm.armed = false)
    (hfind : (asm.prev.map TextRow.collapse).findIdx? asm.hasMarker = none) :
    asm.finish.2 = [] := by
  rw [finish, if_neg (by simp [harmed])]
  simp only [hfind]

end Cases

/-- Popping the trailing blank rows first makes no difference. -/
theorem finishTail_eq (tail : List ρ) : finishTail tail = tail.filter fun row => !isBlank row := by
  induction tail using List.reverseRecOn with
  | nil => rfl
  | append_singleton tail row ih =>
    by_cases hblank : isBlank row = true
    · rw [finishTail, List.rdropWhile_concat_pos _ _ _ hblank, List.filter_append]
      rw [finishTail] at ih
      simp [ih, hblank]
    · rw [finishTail, List.rdropWhile_concat_neg _ _ _ hblank]

/-! Rows that carry more than their text behave like their text. -/

section MapRows
variable {σ : Type} [TextRow σ]

def mapRows (f : ρ → σ) (asm : LineAssembler ρ) : LineAssembler σ :=
  { asm with prev := asm.prev.map f }

def mapScreen (f : ρ → σ) (screen : Screen ρ) : Screen σ :=
  { screen with rows := screen.rows.map f }

def mapPush (f : ρ → σ) (push : Push ρ) : Push σ := { push with lines := push.lines.map f }

/-- A function on rows that keeps the text, also the collapsed one. -/
structure KeepsText (f : ρ → σ) : Prop where
  text : ∀ r, TextRow.text (f r) = TextRow.text r
  collapse : ∀ r, TextRow.collapse (f r) = f (TextRow.collapse r)

variable {f : ρ → σ} (hf : KeepsText f) (asm : LineAssembler ρ)
include hf

theorem map_text (rows : List ρ) : (rows.map f).map TextRow.text = rows.map TextRow.text := by
  rw [List.map_map]
  exact List.map_congr_left fun r _ => hf.text r

theorem map_collapse (rows : List ρ) :
    (rows.map f).map TextRow.collapse = (rows.map TextRow.collapse).map f := by
  rw [List.map_map, List.map_map]
  exact List.map_congr_left fun r _ => hf.collapse r

theorem shiftTo_mapRows (rows : List ρ) : (asm.mapRows f).shiftTo (rows.map f) = asm.shiftTo rows := by
  rw [shiftTo, mapRows, map_text hf, map_text hf, ← shiftTo]

theorem findIdx?_mapRows (rows : List ρ) :
    (rows.map f).findIdx? (asm.mapRows f).hasMarker = rows.findIdx? asm.hasMarker := by
  rw [List.findIdx?_map]
  refine congrArg (fun p => rows.findIdx? p) (funext fun r => ?_)
  rw [Function.comp_apply, hasMarker, hf.text]
  rfl

theorem departed_mapRows (screen : Screen ρ) :
    (asm.mapRows f).departed (mapScreen f screen) = (asm.departed screen).map f := by
  have hshift : (asm.mapRows f).shiftTo (mapScreen f screen).rows = asm.shiftTo screen.rows :=
    shiftTo_mapRows hf asm screen.rows
  have hprev : (asm.mapRows f).prev = asm.prev.map f := rfl
  rw [departed, hshift, hprev, departed, ← map_collapse hf]
  simp only [List.map_take]

theorem missingFrom_mapRows (screen : Screen ρ) :
    (asm.mapRows f).missingFrom (mapScreen f screen) = asm.missingFrom screen := by
  have hshift : (asm.mapRows f).shiftTo (mapScreen f screen).rows = asm.shiftTo screen.rows :=
    shiftTo_mapRows hf asm screen.rows
  rw [missingFrom, hshift]
  rfl

theorem pushScroll_mapRows (screen : Screen ρ) :
    (asm.mapRows f).pushScroll (mapScreen f screen) =
      ((asm.pushScroll screen).1.mapRows f, mapPush f (asm.pushScroll screen).2) := by
  have hdeparted := departed_mapRows hf asm screen
  have hmissing := missingFrom_mapRows hf asm screen
  cases harmed : asm.armed with
  | true =>
    have harmed' : (asm.mapRows f).armed = true := harmed
    rw [pushScroll_armed harmed, pushScroll_armed harmed', hdeparted, hmissing]
    rfl
  | false =>
    have harmed' : (asm.mapRows f).armed = false := harmed
    have hlines := findIdx?_mapRows hf asm (asm.departed screen)
    rw [← hdeparted] at hlines
    cases hfind : (asm.departed screen).findIdx? asm.hasMarker with
    | some i =>
      rw [pushScroll_departed harmed hfind,
        pushScroll_departed harmed' (hlines.trans hfind), hdeparted, hmissing, ← List.map_drop]
      rfl
    | none =>
      have hscreen := findIdx?_mapRows hf asm screen.rows
      cases hrows : screen.rows.findIdx? asm.hasMarker with
      | some i =>
        rw [pushScroll_onScreen harmed hfind hrows,
          pushScroll_onScreen harmed' (hlines.trans hfind) (hscreen.trans hrows), hmissing]
        simp only [mapRows, mapScreen, mapPush, advance, List.map_drop, List.map_nil]
      | none =>
        rw [pushScroll_unseen harmed hfind hrows,
          pushScroll_unseen harmed' (hlines.trans hfind) (hscreen.trans hrows), hmissing]
        rfl

theorem push_mapRows (screen : Screen ρ) :
    (asm.mapRows f).push (mapScreen f screen) =
      ((asm.push screen).1.mapRows f, mapPush f (asm.push screen).2) := by
  cases hinit : asm.initialized with
  | false =>
    have hinit' : (asm.mapRows f).initialized = false := hinit
    rw [push_first hinit, push_first hinit']
    rfl
  | true =>
    cases hreset : screen.reset with
    | false =>
      have hinit' : (asm.mapRows f).initialized = true := hinit
      have hreset' : (mapScreen f screen).reset = false := hreset
      rw [push_scroll hinit hreset, push_scroll hinit' hreset']
      exact pushScroll_mapRows hf asm screen
    | true =>
      have hshift : (asm.mapRows f).shiftTo (mapScreen f screen).rows = asm.shiftTo screen.rows :=
        shiftTo_mapRows hf asm screen.rows
      have hinit' : (asm.mapRows f).initialized = true := hinit
      have hreset' : (mapScreen f screen).reset = true := hreset
      rw [push_reset hinit hreset, push_reset hinit' hreset', pushReset, pushReset, hshift]
      rfl

theorem feedGap_mapRows (rows : List ρ) :
    (asm.mapRows f).feedGap (rows.map f) =
      ((asm.feedGap rows).1.mapRows f, (asm.feedGap rows).2.map f) := by
  cases harmed : asm.armed with
  | true =>
    have harmed' : (asm.mapRows f).armed = true := harmed
    rw [feedGap_armed harmed, feedGap_armed harmed', map_collapse hf]
  | false =>
    have harmed' : (asm.mapRows f).armed = false := harmed
    have hrows := findIdx?_mapRows hf asm rows
    cases hfind : rows.findIdx? asm.hasMarker with
    | some i =>
      rw [feedGap_found harmed hfind, feedGap_found harmed' (hrows.trans hfind), ← List.map_drop,
        map_collapse hf]
      rfl
    | none =>
      rw [feedGap_none harmed hfind, feedGap_none harmed' (hrows.trans hfind)]
      rfl

theorem finishTail_map (tail : List ρ) : finishTail (tail.map f) = (finishTail tail).map f := by
  rw [finishTail_eq, finishTail_eq, List.filter_map]
  refine congrArg (List.map f) (congrArg (fun p => tail.filter p) (funext fun r => ?_))
  rw [Function.comp_apply, isBlank, hf.text]
  rfl

theorem finish_mapRows : (asm.mapRows f).finish.2 = asm.finish.2.map f := by
  have htail : (asm.mapRows f).prev.map TextRow.collapse = (asm.prev.map TextRow.collapse).map f :=
    map_collapse hf asm.prev
  cases harmed : asm.armed with
  | true =>
    have harmed' : (asm.mapRows f).armed = true := harmed
    rw [finish_armed harmed, finish_armed harmed', htail, finishTail_map hf]
  | false =>
    have harmed' : (asm.mapRows f).armed = false := harmed
    have hrows := findIdx?_mapRows hf asm (asm.prev.map TextRow.collapse)
    rw [← htail] at hrows
    cases hfind : (asm.prev.map TextRow.collapse).findIdx? asm.hasMarker with
    | some i =>
      rw [finish_found harmed hfind, finish_found harmed' (hrows.trans hfind), htail,
        ← List.map_drop, finishTail_map hf]
    | none =>
      rw [finish_none harmed hfind, finish_none harmed' (hrows.trans hfind)]
      rfl

theorem feed_mapRows (screen : Screen ρ) (history : List ρ) :
    (asm.mapRows f).feed (mapScreen f screen) (history.map f) =
      ((asm.feed screen history).1.mapRows f, (asm.feed screen history).2.map f) := by
  rw [feed_eq (push_mapRows hf asm screen) (history.map f),
    feed_eq (Prod.eta (asm.push screen)).symm history]
  have hgap : gapOf (mapScreen f screen) (history.map f) (asm.push screen).2.missing =
      (gapOf screen history (asm.push screen).2.missing).map f := Slice.slice_map f _ _ _
  simp only [mapPush, hgap, feedGap_mapRows hf, List.map_append]

/-- A run on tagged rows is the run on their texts, with the tags carried along. -/
theorem run_mapRows (frames : List (Screen ρ × List ρ)) :
    (asm.mapRows f).run (frames.map fun p => (mapScreen f p.1, p.2.map f)) =
      (asm.run frames).map f := by
  induction frames generalizing asm with
  | nil => exact finish_mapRows hf asm
  | cons frame rest ih =>
    obtain ⟨screen, history⟩ := frame
    rw [List.map_cons, run, run, feed_mapRows hf, ih, List.map_append]

end MapRows

end LineAssembler

/-- A marker found after collapsing was there before. -/
theorem contains_of_contains_collapseCr {line marker : String}
    (h : Str.contains (collapseCr line) marker = true) : Str.contains line marker = true := by
  unfold Str.contains at h ⊢
  rw [decide_eq_true_eq] at h ⊢
  rw [collapseCr, String.toList_ofList] at h
  exact h.trans (List.rtakeWhile_suffix _ _).isInfix

end Shellflow
