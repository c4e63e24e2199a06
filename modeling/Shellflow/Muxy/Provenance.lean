import Shellflow.Muxy.Terminal

/-! Where the emitted rows come from: on a terminal that only grows, the assembler runs on rows
that remember their index, so "a row up to the marker got out" can be said of the row itself and
not of its text. -/
namespace Shellflow
open Slice LineAssembler

/-- A row of a screen; padding has no origin. -/
structure Cell where
  origin : Option Nat
  text : String
deriving DecidableEq, Repr

namespace Cell

def collapse (c : Cell) : Cell := ⟨c.origin, collapseCr c.text⟩

instance : TextRow Cell := ⟨Cell.text, Cell.collapse, fun _ => rfl⟩

def blank : Cell := ⟨none, ""⟩

/-- The row comes after the row with index `m`, or is padding. -/
def After (m : Nat) (c : Cell) : Prop := ∀ i, c.origin = some i → m < i

instance (m : Nat) (c : Cell) : Decidable (c.After m) :=
  match h : c.origin with
  | none => isTrue fun i hi => by simp [h] at hi
  | some i =>
    if hlt : m < i then isTrue fun j hj => by
      rw [h] at hj
      exact Option.some.inj hj ▸ hlt
    else isFalse fun hall => hlt (hall i h)

theorem after_collapse {m : Nat} {c : Cell} : c.collapse.After m ↔ c.After m := Iff.rfl

theorem after_blank (m : Nat) : blank.After m := fun _ h => by cases h

end Cell

def cells (rows : List String) : List Cell := rows.zipIdx.map fun p => ⟨some p.2, p.1⟩

theorem getElem?_cells (rows : List String) (i : Nat) :
    (cells rows)[i]? = rows[i]?.map fun text => ⟨some i, text⟩ := by
  rw [cells, List.getElem?_map, List.getElem?_zipIdx]
  cases rows[i]? <;> simp

theorem length_cells (rows : List String) : (cells rows).length = rows.length := by
  simp [cells]

/-- A terminal of which exactly one row contains the begin marker. -/
structure MarkedTerminal where
  rows : List String
  marker : String
  markerIndex : Nat
  marker_ne : marker ≠ ""
  markerIndex_lt : markerIndex < rows.length
  unique : ∀ i row, rows[i]? = some row → (Str.contains row marker = true ↔ i = markerIndex)

/-- May the assembler read this frame without letting a row up to the marker out? A baseline that
was cut at the marker is shorter than the screen; it survives one frame only. -/
def FrameSafe {ρ : Type} [TextRow ρ] (asm : LineAssembler ρ) (screen : Screen ρ) : Prop :=
  asm.initialized = true →
    if asm.armed = true then
      asm.prev.length = screen.rows.length ∨
        (screen.rows.any asm.hasMarker = false ∧
          screen.rows.length - 1 - asm.prev.length < asm.shiftTo screen.rows)
    else if (asm.departed screen).any asm.hasMarker = true then
      screen.rows.any asm.hasMarker = false
    else screen.rows.any asm.hasMarker = true → asm.missingFrom screen = 0

instance {ρ : Type} [TextRow ρ] (asm : LineAssembler ρ) (screen : Screen ρ) :
    Decidable (FrameSafe asm screen) :=
  inferInstanceAs (Decidable (asm.initialized = true →
    if asm.armed = true then
      asm.prev.length = screen.rows.length ∨
        (screen.rows.any asm.hasMarker = false ∧
          screen.rows.length - 1 - asm.prev.length < asm.shiftTo screen.rows)
    else if (asm.departed screen).any asm.hasMarker = true then
      screen.rows.any asm.hasMarker = false
    else screen.rows.any asm.hasMarker = true → asm.missingFrom screen = 0))

/-- Every frame of the run is read safely. -/
def RunSafe {ρ : Type} [TextRow ρ] (asm : LineAssembler ρ) : List (Screen ρ × List ρ) → Prop
  | [] => True
  | (screen, history) :: rest =>
    FrameSafe asm screen ∧ RunSafe (asm.feed screen history).1 rest

instance instDecidableRunSafe {ρ : Type} [TextRow ρ] : (asm : LineAssembler ρ) →
    (frames : List (Screen ρ × List ρ)) → Decidable (RunSafe asm frames)
  | _, [] => isTrue trivial
  | asm, (screen, history) :: rest =>
    have := instDecidableRunSafe (asm.feed screen history).1 rest
    inferInstanceAs (Decidable (_ ∧ _))

namespace MarkedTerminal
variable (T : MarkedTerminal) (h : Nat)

/-- The terminal after its first `n` rows. -/
def shot (n : Nat) : List Cell := cells (T.rows.take n)

def frameAt (n : Nat) : Screen Cell × List Cell := frameOf Cell.blank h (T.shot n)

def screenAt (n : Nat) : List Cell := screenRows Cell.blank h (T.shot n)

/-- The history length at `n` rows. -/
def gone (n : Nat) : Nat := scrolled h (T.shot n)

theorem length_shot (n : Nat) : (T.shot n).length = min n T.rows.length := by
  rw [shot, length_cells, List.length_take]

theorem gone_mono {n n' : Nat} (hle : n ≤ n') : T.gone h n ≤ T.gone h n' := by
  simp only [gone, scrolled, length_shot]
  omega

theorem shot_getElem? {n i : Nat} {c : Cell} (hc : (T.shot n)[i]? = some c) :
    c.origin = some i ∧ i < n ∧ (Str.contains c.text T.marker = true ↔ i = T.markerIndex) := by
  rw [shot, getElem?_cells, List.getElem?_take] at hc
  by_cases hi : i < n
  · rw [if_pos hi] at hc
    obtain ⟨row, hrow, rfl⟩ := Option.map_eq_some_iff.mp hc
    exact ⟨rfl, hi, T.unique i row hrow⟩
  · rw [if_neg hi] at hc
    cases hc

theorem screenAt_getElem? {n j : Nat} {c : Cell} (hc : (T.screenAt h n)[j]? = some c) :
    c = Cell.blank ∨ (c.origin = some (T.gone h n + j) ∧ T.gone h n + j < n ∧
      (Str.contains c.text T.marker = true ↔ T.gone h n + j = T.markerIndex)) := by
  rw [screenAt, getElem?_screenRows] at hc
  split at hc
  · exact Or.inr (T.shot_getElem? hc)
  · split at hc
    · exact Or.inl (Option.some.inj hc).symm
    · cases hc

/-- A cell of the screen that holds the marker tells the cell's position. -/
theorem index_of_contains {n j : Nat} {c : Cell} (hc : (T.screenAt h n)[j]? = some c)
    (hmark : Str.contains c.text T.marker = true) :
    T.gone h n + j = T.markerIndex ∧ T.markerIndex < n := by
  rcases T.screenAt_getElem? h hc with rfl | ⟨-, hlt, hiff⟩
  · rw [Cell.blank, not_contains_empty T.marker_ne] at hmark
    cases hmark
  · exact ⟨hiff.mp hmark, hiff.mp hmark ▸ hlt⟩

theorem after_of_index {n j : Nat} {c : Cell} (hc : (T.screenAt h n)[j]? = some c)
    (hj : T.markerIndex < T.gone h n + j) : c.After T.markerIndex := by
  rcases T.screenAt_getElem? h hc with rfl | ⟨horigin, -⟩
  · exact Cell.after_blank _
  · intro i hi
    rw [horigin] at hi
    cases hi
    exact hj

theorem after_of_mem_drop {n k : Nat} {c : Cell} (hc : c ∈ (T.screenAt h n).drop k)
    (hk : T.markerIndex < T.gone h n + k) : c.After T.markerIndex := by
  obtain ⟨j, hj⟩ := List.mem_iff_getElem?.mp hc
  rw [List.getElem?_drop] at hj
  exact T.after_of_index h hj (by omega)

/-- The screen shows the marker row as soon as it is printed and until it scrolls off. -/
theorem markerIndex_lt_gone {n : Nat} (hn : T.markerIndex < n)
    (hnone : ∀ c ∈ T.screenAt h n, Str.contains c.text T.marker = false) :
    T.markerIndex < T.gone h n := by
  by_contra hge
  have hlen := T.length_shot n
  have hlt := T.markerIndex_lt
  have hgone : T.gone h n = (T.shot n).length - h := rfl
  have hreal : T.markerIndex < (T.shot n).length := by omega
  have hget : (T.screenAt h n)[T.markerIndex - T.gone h n]? = some (T.shot n)[T.markerIndex] := by
    have hsum : T.gone h n + (T.markerIndex - T.gone h n) = T.markerIndex := by omega
    rw [screenAt, getElem?_screenRows, ← gone, hsum, if_pos hreal, List.getElem?_eq_getElem hreal]
  have hmark := (T.shot_getElem? (List.getElem?_eq_getElem hreal)).2.2.mpr rfl
  rw [hnone _ (List.mem_of_getElem? hget)] at hmark
  cases hmark

/-- What the assembler knows after reading the frame at `n` rows. -/
inductive Reading : Nat → LineAssembler Cell → Prop
  | fresh (n : Nat) : Reading n (LineAssembler.new T.marker)
  /-- The marker was not found yet; the baseline is the whole screen. -/
  | waiting (n : Nat) :
      Reading n ⟨T.screenAt h n, false, T.marker, T.gone h n, true⟩
  /-- The marker is on the screen; the baseline starts after it. -/
  | cut (n : Nat) (hgone : T.gone h n ≤ T.markerIndex) (hn : T.markerIndex < n) :
      Reading n ⟨(T.screenAt h n).drop (T.markerIndex - T.gone h n + 1), true, T.marker,
        T.gone h n, true⟩
  /-- The marker is in the history. -/
  | streaming (n : Nat) (hgone : T.markerIndex < T.gone h n) :
      Reading n ⟨T.screenAt h n, true, T.marker, T.gone h n, true⟩

theorem after_gap {n missing : Nat} (hstart : missing ≠ 0 → T.markerIndex < T.gone h n - missing)
    {c : Cell} (hc : c ∈ gapOf (T.frameAt h n).1 (T.frameAt h n).2 missing) :
    c.After T.markerIndex := by
  have hslice : c ∈ slice (T.gone h n - missing) (T.gone h n) ((T.shot n).take (T.gone h n)) := hc
  obtain ⟨i, hi, hlt, hget⟩ := mem_slice.mp hslice
  rw [List.getElem?_take_of_lt hlt] at hget
  have hmissing : missing ≠ 0 := by
    rintro rfl
    omega
  have hbelow := hstart hmissing
  intro j hj
  rw [(T.shot_getElem? hget).1] at hj
  cases hj
  omega

/-- The rows of the old screen that a frame pushes out, past the position `k`. -/
theorem after_departed {n k : Nat} {screen : Screen Cell} {asm : LineAssembler Cell}
    (hprev : asm.prev = T.screenAt h n) (hk : T.markerIndex < T.gone h n + k) {c : Cell}
    (hc : c ∈ (asm.departed screen).drop k) : c.After T.markerIndex := by
  unfold departed at hc
  rw [← List.map_drop, hprev] at hc
  obtain ⟨c₀, hc₀, rfl⟩ := List.mem_map.mp hc
  rw [List.drop_take] at hc₀
  exact Cell.after_collapse.mpr (T.after_of_mem_drop h (List.mem_of_mem_take hc₀) hk)

/-- A marker found among collapsed rows was on the row itself. -/
theorem marker_of_findIdx? {i : Nat} {asm : LineAssembler Cell} {rows : List Cell}
    (hmarker : asm.marker = T.marker)
    (hfind : (rows.map TextRow.collapse).findIdx? asm.hasMarker = some i) :
    ∃ c, rows[i]? = some c ∧ Str.contains c.text T.marker = true := by
  obtain ⟨hi, hmark, -⟩ := List.findIdx?_eq_some_iff_getElem.mp hfind
  rw [List.length_map] at hi
  refine ⟨rows[i], List.getElem?_eq_getElem hi, ?_⟩
  rw [List.getElem_map, hasMarker, hmarker] at hmark
  exact contains_of_contains_collapseCr hmark

/-- Where the marker stands among the rows that were pushed out. -/
theorem index_of_departed {n i : Nat} {screen : Screen Cell} {asm : LineAssembler Cell}
    (hprev : asm.prev = T.screenAt h n) (hmarker : asm.marker = T.marker)
    (hfind : (asm.departed screen).findIdx? asm.hasMarker = some i) :
    T.gone h n + i = T.markerIndex ∧ T.markerIndex < n ∧ i < asm.shiftTo screen.rows := by
  obtain ⟨c, hc, hmark⟩ := T.marker_of_findIdx? hmarker hfind
  rw [List.getElem?_take, hprev] at hc
  split at hc
  · next hshift =>
    obtain ⟨hindex, hn⟩ := T.index_of_contains h hc hmark
    exact ⟨hindex, hn, hshift⟩
  · cases hc

theorem any_hasMarker_eq_false {asm : LineAssembler Cell} (hmarker : asm.marker = T.marker)
    {rows : List Cell} (hany : rows.any asm.hasMarker = false) :
    ∀ c ∈ rows, Str.contains c.text T.marker = false := by
  intro c hc
  have hc' := List.any_eq_false.mp hany c hc
  rw [hasMarker, hmarker] at hc'
  exact eq_false_of_ne_true hc'

theorem mem_gapOf_of_getElem? {n missing i : Nat} {c : Cell}
    (hc : (gapOf (T.frameAt h n).1 (T.frameAt h n).2 missing)[i]? = some c) :
    c.origin = some (T.gone h n - missing + i) ∧ T.gone h n - missing + i < T.gone h n ∧
      (Str.contains c.text T.marker = true ↔ T.gone h n - missing + i = T.markerIndex) := by
  have hslice : (slice (T.gone h n - missing) (T.gone h n)
      ((T.shot n).take (T.gone h n)))[i]? = some c := hc
  rw [getElem?_slice] at hslice
  split at hslice
  · next hlt =>
    rw [List.getElem?_take_of_lt hlt] at hslice
    obtain ⟨horigin, -, hmark⟩ := T.shot_getElem? hslice
    exact ⟨horigin, hlt, hmark⟩
  · cases hslice

/-- The frame on which nothing was seen: only the history may hold the marker. -/
theorem reading_gap (n missing : Nat) :
    let asm : LineAssembler Cell := ⟨T.screenAt h n, false, T.marker, T.gone h n, true⟩
    let fed := asm.feedGap (gapOf (T.frameAt h n).1 (T.frameAt h n).2 missing)
    (∀ c ∈ fed.2, c.After T.markerIndex) ∧ T.Reading h n fed.1 := by
  intro asm fed
  cases hfind : (gapOf (T.frameAt h n).1 (T.frameAt h n).2 missing).findIdx? asm.hasMarker with
  | none =>
    have hfed : fed = (asm, []) := feedGap_none rfl hfind
    rw [hfed]
    exact ⟨fun c hc => absurd hc List.not_mem_nil, .waiting n⟩
  | some i =>
    have hfed : fed = _ := feedGap_found rfl hfind
    obtain ⟨hi, hmark, -⟩ := List.findIdx?_eq_some_iff_getElem.mp hfind
    obtain ⟨-, hlt, hiff⟩ := T.mem_gapOf_of_getElem? h (List.getElem?_eq_getElem hi)
    have hindex := hiff.mp hmark
    rw [hfed]
    refine ⟨fun c hc => ?_, .streaming n (by omega)⟩
    obtain ⟨c₀, hc₀, rfl⟩ := List.mem_map.mp hc
    obtain ⟨j, hj⟩ := List.mem_iff_getElem?.mp hc₀
    rw [List.getElem?_drop] at hj
    refine Cell.after_collapse.mpr fun k hk => ?_
    rw [(T.mem_gapOf_of_getElem? h hj).1] at hk
    cases hk
    omega

theorem Reading.step_streaming {n n' : Nat} (hle : n ≤ n') (hgone : T.markerIndex < T.gone h n) :
    let asm : LineAssembler Cell := ⟨T.screenAt h n, true, T.marker, T.gone h n, true⟩
    (∀ c ∈ (asm.feed (T.frameAt h n').1 (T.frameAt h n').2).2, c.After T.markerIndex) ∧
      T.Reading h n' (asm.feed (T.frameAt h n').1 (T.frameAt h n').2).1 := by
  intro asm
  have hmono := T.gone_mono h hle
  have hpush : asm.push (T.frameAt h n').1 = _ := (push_scroll rfl rfl).trans (pushScroll_armed rfl)
  have hmissing : asm.missingFrom (T.frameAt h n').1 =
      (T.gone h n' - T.gone h n) - asm.shiftTo (T.frameAt h n').1.rows := rfl
  rw [feed_eq hpush, feedGap_armed rfl]
  refine ⟨fun c hc => ?_, .streaming n' (by omega)⟩
  rcases List.mem_append.mp hc with hc | hc
  · exact T.after_departed h (k := 0) rfl hgone hc
  · obtain ⟨c₀, hc₀, rfl⟩ := List.mem_map.mp hc
    refine Cell.after_collapse.mpr (T.after_gap h (fun _ => ?_) hc₀)
    simp only [hmissing]
    omega

theorem Reading.step_cut {n n' : Nat} (hle : n ≤ n') (hgone : T.gone h n ≤ T.markerIndex)
    (hn : T.markerIndex < n) :
    let asm : LineAssembler Cell := ⟨(T.screenAt h n).drop (T.markerIndex - T.gone h n + 1), true,
      T.marker, T.gone h n, true⟩
    FrameSafe asm (T.frameAt h n').1 →
    (∀ c ∈ (asm.feed (T.frameAt h n').1 (T.frameAt h n').2).2, c.After T.markerIndex) ∧
      T.Reading h n' (asm.feed (T.frameAt h n').1 (T.frameAt h n').2).1 := by
  intro asm hsafe
  have hmono := T.gone_mono h hle
  have hlen : asm.prev.length = h - (T.markerIndex - T.gone h n + 1) := by
    rw [List.length_drop, screenAt, length_screenRows]
  have hlen' : (T.frameAt h n').1.rows.length = h := length_screenRows _ _ _
  have hroom : T.markerIndex - T.gone h n < h := by
    have hshot := T.length_shot n
    have hlt := T.markerIndex_lt
    have hdef : T.gone h n = (T.shot n).length - h := rfl
    omega
  have hcut := hsafe rfl
  rw [if_pos rfl] at hcut
  obtain ⟨hclear, hshift⟩ := hcut.resolve_left (by omega)
  have hgone' : T.markerIndex < T.gone h n' :=
    T.markerIndex_lt_gone h (by omega) (T.any_hasMarker_eq_false rfl hclear)
  have hpush : asm.push (T.frameAt h n').1 = _ := (push_scroll rfl rfl).trans (pushScroll_armed rfl)
  have hmissing : asm.missingFrom (T.frameAt h n').1 =
      (T.gone h n' - T.gone h n) - asm.shiftTo (T.frameAt h n').1.rows := rfl
  rw [feed_eq hpush, feedGap_armed rfl]
  refine ⟨fun c hc => ?_, .streaming n' hgone'⟩
  rcases List.mem_append.mp hc with hc | hc
  · obtain ⟨c₀, hc₀, rfl⟩ := List.mem_map.mp hc
    exact Cell.after_collapse.mpr
      (T.after_of_mem_drop h (List.mem_of_mem_take hc₀) (by omega))
  · obtain ⟨c₀, hc₀, rfl⟩ := List.mem_map.mp hc
    refine Cell.after_collapse.mpr (T.after_gap h (fun hne => ?_) hc₀)
    simp only [hmissing] at hne ⊢
    omega

theorem Reading.step_waiting {n n' : Nat} (hle : n ≤ n') :
    let asm : LineAssembler Cell := ⟨T.screenAt h n, false, T.marker, T.gone h n, true⟩
    FrameSafe asm (T.frameAt h n').1 →
    (∀ c ∈ (asm.feed (T.frameAt h n').1 (T.frameAt h n').2).2, c.After T.markerIndex) ∧
      T.Reading h n' (asm.feed (T.frameAt h n').1 (T.frameAt h n').2).1 := by
  intro asm hsafe
  have hmono := T.gone_mono h hle
  have hmissing : asm.missingFrom (T.frameAt h n').1 =
      (T.gone h n' - T.gone h n) - asm.shiftTo (T.frameAt h n').1.rows := rfl
  have hscroll : asm.push (T.frameAt h n').1 = asm.pushScroll (T.frameAt h n').1 :=
    push_scroll rfl rfl
  have hcase := hsafe rfl
  rw [if_neg Bool.false_ne_true] at hcase
  cases hlines : (asm.departed (T.frameAt h n').1).findIdx? asm.hasMarker with
  | some i =>
    -- the marker left the screen with this frame
    obtain ⟨hindex, hn, hshift⟩ := T.index_of_departed h rfl rfl hlines
    have hany : (asm.departed (T.frameAt h n').1).any asm.hasMarker = true := by
      rw [← List.findIdx?_isSome, hlines]
      rfl
    rw [if_pos hany] at hcase
    have hgone' : T.markerIndex < T.gone h n' :=
      T.markerIndex_lt_gone h (by omega) (T.any_hasMarker_eq_false rfl hcase)
    rw [feed_eq (hscroll.trans (pushScroll_departed rfl hlines)), feedGap_armed rfl]
    refine ⟨fun c hc => ?_, .streaming n' hgone'⟩
    rcases List.mem_append.mp hc with hc | hc
    · exact T.after_departed h rfl (by omega) hc
    · obtain ⟨c₀, hc₀, rfl⟩ := List.mem_map.mp hc
      refine Cell.after_collapse.mpr (T.after_gap h (fun _ => ?_) hc₀)
      simp only [hmissing]
      omega
  | none =>
    have hnone : ¬(asm.departed (T.frameAt h n').1).any asm.hasMarker = true := by
      rw [← List.findIdx?_isSome, hlines]
      exact Bool.false_ne_true
    rw [if_neg hnone] at hcase
    cases hscreen : (T.frameAt h n').1.rows.findIdx? asm.hasMarker with
    | some i =>
      -- the marker is on the new screen: the baseline is cut after it
      have hany : (T.frameAt h n').1.rows.any asm.hasMarker = true := by
        rw [← List.findIdx?_isSome, hscreen]
        rfl
      obtain ⟨hi, hmark, -⟩ := List.findIdx?_eq_some_iff_getElem.mp hscreen
      obtain ⟨hindex, hn⟩ := T.index_of_contains h (List.getElem?_eq_getElem hi) hmark
      have hcut : i + 1 = T.markerIndex - T.gone h n' + 1 := by omega
      rw [feed_eq (hscroll.trans (pushScroll_onScreen rfl hlines hscreen)), feedGap_armed rfl,
        hcase hany]
      refine ⟨fun c hc => ?_, ?_⟩
      · rw [List.nil_append] at hc
        obtain ⟨c₀, hc₀, -⟩ := List.mem_map.mp hc
        rw [gapOf, Nat.sub_zero, slice_eq_nil _ (Nat.le_refl _)] at hc₀
        cases hc₀
      · have hreading := Reading.cut (T := T) (h := h) n' (by omega) hn
        rw [← hcut] at hreading
        exact hreading
    | none =>
      have hpush : asm.push (T.frameAt h n').1 =
          (⟨T.screenAt h n', false, T.marker, T.gone h n', true⟩,
            ⟨[], asm.missingFrom (T.frameAt h n').1, false⟩) :=
        hscroll.trans (pushScroll_unseen rfl hlines hscreen)
      rw [feed_eq hpush]
      exact T.reading_gap h n' (asm.missingFrom (T.frameAt h n').1)

/-- One safe frame: nothing up to the marker gets out, and the assembler stays in phase. -/
theorem Reading.step {n n' : Nat} {asm : LineAssembler Cell} (hr : T.Reading h n asm)
    (hle : n ≤ n') (hsafe : FrameSafe asm (T.frameAt h n').1) :
    (∀ c ∈ (asm.feed (T.frameAt h n').1 (T.frameAt h n').2).2, c.After T.markerIndex) ∧
      T.Reading h n' (asm.feed (T.frameAt h n').1 (T.frameAt h n').2).1 := by
  cases hr with
  | fresh =>
    have hpush : (LineAssembler.new T.marker : LineAssembler Cell).push (T.frameAt h n').1 =
        (⟨T.screenAt h n', false, T.marker, T.gone h n', true⟩, noPush) := push_first rfl
    rw [feed_eq hpush]
    exact T.reading_gap h n' 0
  | waiting => exact Reading.step_waiting T h hle hsafe
  | cut hgone hn => exact Reading.step_cut T h hle hgone hn hsafe
  | streaming hgone => exact Reading.step_streaming T h hle hgone

/-- The end of the session flushes only rows after the marker. -/
theorem Reading.finish {n : Nat} {asm : LineAssembler Cell} (hr : T.Reading h n asm) :
    ∀ c ∈ asm.finish.2, c.After T.markerIndex := by
  have hclean : ∀ k, T.markerIndex < T.gone h n + k →
      ∀ c ∈ finishTail (((T.screenAt h n).drop k).map TextRow.collapse), c.After T.markerIndex := by
    intro k hk c hc
    rw [finishTail_eq] at hc
    obtain ⟨c₀, hc₀, rfl⟩ := List.mem_map.mp (List.mem_filter.mp hc).1
    exact Cell.after_collapse.mpr (T.after_of_mem_drop h hc₀ hk)
  cases hr with
  | fresh =>
    intro c hc
    cases hc
  | waiting =>
    let asm : LineAssembler Cell := ⟨T.screenAt h n, false, T.marker, T.gone h n, true⟩
    cases hfind : (asm.prev.map TextRow.collapse).findIdx? asm.hasMarker with
    | none =>
      rw [finish_none rfl hfind]
      exact fun c hc => absurd hc List.not_mem_nil
    | some i =>
      obtain ⟨c, hc, hmark⟩ := T.marker_of_findIdx? rfl hfind
      obtain ⟨hindex, -⟩ := T.index_of_contains h hc hmark
      rw [finish_found rfl hfind, ← List.map_drop]
      exact hclean (i + 1) (by omega)
  | cut hgone hn =>
    rw [finish_armed rfl]
    exact hclean _ (by omega)
  | streaming hgone =>
    rw [finish_armed rfl]
    exact hclean 0 hgone

theorem Reading.run {counts : List Nat} {n : Nat} {asm : LineAssembler Cell}
    (hr : T.Reading h n asm) (hsorted : (n :: counts).Pairwise (· ≤ ·))
    (hsafe : RunSafe asm (counts.map (T.frameAt h))) :
    ∀ c ∈ asm.run (counts.map (T.frameAt h)), c.After T.markerIndex := by
  induction counts generalizing n asm with
  | nil => exact hr.finish
  | cons n' counts ih =>
    obtain ⟨hfirst, hrest⟩ := hsafe
    obtain ⟨hn, hsorted'⟩ := List.pairwise_cons.mp hsorted
    obtain ⟨hlines, hnext⟩ := hr.step T h (hn n' List.mem_cons_self) hfirst
    intro c hc
    rcases List.mem_append.mp hc with hc | hc
    · exact hlines c hc
    · exact ih hnext hsorted' hrest c hc

end MarkedTerminal

/-- The tagged run is the program's own run on plain rows. -/
theorem run_text (T : MarkedTerminal) (h : Nat) (counts : List Nat) :
    ((LineAssembler.new T.marker : LineAssembler Cell).run (counts.map (T.frameAt h))).map
        Cell.text =
      (LineAssembler.new T.marker : LineAssembler String).run
        (counts.map fun n => frameOf "" h (T.rows.take n)) := by
  have hf : KeepsText Cell.text := ⟨fun _ => rfl, fun _ => rfl⟩
  have hcells : ∀ rows : List String, (cells rows).map Cell.text = rows := by
    intro rows
    refine List.ext_getElem? fun i => ?_
    rw [List.getElem?_map, getElem?_cells]
    cases rows[i]? <;> rfl
  have hframe : ∀ n, frameOf "" h (T.rows.take n) =
      (mapScreen Cell.text (T.frameAt h n).1, (T.frameAt h n).2.map Cell.text) := by
    intro n
    have hgone : scrolled h (T.rows.take n) = T.gone h n := by
      rw [MarkedTerminal.gone, scrolled, scrolled, MarkedTerminal.shot, length_cells]
    have hlen : (T.rows.take n).length = (T.shot n).length := (length_cells _).symm
    have hshot : T.rows.take n = (T.shot n).map Cell.text := (hcells _).symm
    simp only [frameOf, MarkedTerminal.frameAt, mapScreen, screenRows, hgone, List.map_append,
      List.map_drop, List.map_take, List.map_replicate, hlen]
    rw [hshot]
    rfl
  rw [← run_mapRows hf, List.map_map]
  exact congrArg _ (List.map_congr_left fun n _ => (hframe n).symm)

/-- In a run whose frames are all read safely, no row up to the marker gets out. -/
theorem run_after_marker (T : MarkedTerminal) (h : Nat) (counts : List Nat)
    (hsorted : counts.Pairwise (· ≤ ·))
    (hsafe : RunSafe (LineAssembler.new T.marker) (counts.map (T.frameAt h))) :
    ∀ c ∈ (LineAssembler.new T.marker : LineAssembler Cell).run (counts.map (T.frameAt h)),
      c.After T.markerIndex :=
  (MarkedTerminal.Reading.fresh 0).run T h
    (List.pairwise_cons.mpr ⟨fun _ _ => Nat.zero_le _, hsorted⟩) hsafe

/-- A marker that scrolls off between the first two frames. -/
def scrolledMarker : MarkedTerminal where
  rows := ["$", "@@shellflow:begin:r/s@@", "a", "b", "c"]
  marker := "@@shellflow:begin:r/s@@"
  markerIndex := 1
  marker_ne := by decide
  markerIndex_lt := by decide
  unique i row hrow := by
    match i with
    | 0 | 1 | 2 | 3 | 4 =>
      cases hrow
      decide
    | i + 5 => simp at hrow

theorem run_after_marker_scrolled :
    ((LineAssembler.new scrolledMarker.marker : LineAssembler Cell).run
      ([2, 4, 5].map (scrolledMarker.frameAt 2))).Forall fun c =>
        c.After scrolledMarker.markerIndex :=
  List.forall_iff_forall_mem.mpr
    (run_after_marker scrolledMarker 2 [2, 4, 5] (by decide) (by decide +kernel))

/-- A marker that is printed while the screen still has room. -/
def shownMarker : MarkedTerminal where
  rows := ["bootstrap", "prompt", "@@shellflow:begin:r/s@@", "real"]
  marker := "@@shellflow:begin:r/s@@"
  markerIndex := 2
  marker_ne := by decide
  markerIndex_lt := by decide
  unique i row hrow := by
    match i with
    | 0 | 1 | 2 | 3 =>
      cases hrow
      decide
    | i + 4 => simp at hrow

/-- The frame after the one that shows the marker asks for the row above it, and replaces the
baseline that was cut: bootstrap, prompt and marker all get out. -/
theorem run_emits_the_bootstrap :
    (LineAssembler.new shownMarker.marker : LineAssembler Cell).run
        ([2, 3, 4].map (shownMarker.frameAt 3)) =
      [⟨some 0, "bootstrap"⟩, ⟨some 1, "prompt"⟩, ⟨some 2, "@@shellflow:begin:r/s@@"⟩,
        ⟨some 3, "real"⟩] ∧
    ¬∀ c ∈ (LineAssembler.new shownMarker.marker : LineAssembler Cell).run
        ([2, 3, 4].map (shownMarker.frameAt 3)), c.After shownMarker.markerIndex := by
  constructor <;> decide +kernel

end Shellflow
