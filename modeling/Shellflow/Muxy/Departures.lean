import Shellflow.Muxy.Terminal

/-! What one push says about the rows that left the screen: the oldest of them are returned, and the
others are counted. Rows may repeat, so the overlap that is found can be larger than the true one. -/
namespace Shellflow
open Slice

theorem le_overlap {prev cur : List String} {j k : Nat} (hj : j ≤ k)
    (h : prev.drop (prev.length - j) = cur.take j) : j ≤ overlap prev cur k := by
  induction k with
  | zero => exact hj.trans (Nat.zero_le _)
  | succ k ih =>
    rw [overlap]
    split
    · exact hj
    next hne =>
      have hlt : j ≠ k + 1 := fun heq => hne (heq ▸ h)
      exact ih (by omega)

theorem departureShift_le_length (prev cur : List String) :
    departureShift prev cur ≤ prev.length := Nat.sub_le _ _

/-- A shift by which the two screens agree is never smaller than the one that is found. -/
theorem departureShift_le {prev cur : List String} {delta : Nat}
    (h : prev.drop delta = cur.take (prev.length - delta)) : departureShift prev cur ≤ delta := by
  by_cases hdelta : prev.length ≤ delta
  · exact (departureShift_le_length prev cur).trans hdelta
  · have hlen := congrArg List.length h
    rw [List.length_drop, List.length_take] at hlen
    have hback : prev.length - (prev.length - delta) = delta := by omega
    have hoverlap : prev.length - delta ≤ overlap prev cur (min prev.length cur.length) :=
      le_overlap (by omega) (by rw [hback, h])
    rw [departureShift]
    omega

section Terminal
variable {ρ : Type} (h : Nat) (rows more : List ρ)

/-- A frame: the last `h` rows, or all of them while there are fewer. -/
def lastRows : List ρ := rows.drop (scrolled h rows)

/-- The rows that leave the screen when `more` rows are appended. -/
def leaving : List ρ := slice (scrolled h rows) (scrolled h (rows ++ more)) (rows ++ more)

/-- A screen that is full shows nothing else. -/
theorem screenRows_of_full (blank : ρ) (hfull : h ≤ rows.length) :
    screenRows blank h rows = lastRows h rows := by
  rw [screenRows, Nat.sub_eq_zero_of_le hfull, List.replicate_zero, List.append_nil, lastRows]

theorem scrolled_mono : scrolled h rows ≤ scrolled h (rows ++ more) := by
  rw [scrolled, scrolled, List.length_append]
  omega

theorem length_leaving :
    (leaving h rows more).length = scrolled h (rows ++ more) - scrolled h rows := by
  have hle : scrolled h (rows ++ more) ≤ (rows ++ more).length := Nat.sub_le _ _
  rw [leaving, length_slice, Nat.min_eq_left hle]

theorem map_lastRows {σ : Type} (f : ρ → σ) : (lastRows h rows).map f = lastRows h (rows.map f) := by
  rw [lastRows, lastRows, List.map_drop, scrolled, scrolled, List.length_map]

/-- The later frame begins with what the earlier one has left. -/
theorem lastRows_overlap : (lastRows h rows).drop (leaving h rows more).length =
    (lastRows h (rows ++ more)).take ((lastRows h rows).length - (leaving h rows more).length) := by
  have hle := scrolled_mono h rows more
  have hlen : (lastRows h rows).length - (leaving h rows more).length =
      (rows.drop (scrolled h (rows ++ more))).length := by
    rw [length_leaving, lastRows, List.length_drop, List.length_drop]
    omega
  rw [hlen, length_leaving, lastRows, lastRows, List.drop_drop, Nat.add_sub_cancel' hle,
    List.drop_append, List.take_left']
  rfl

/-- The oldest rows that leave are those at the top of the earlier frame. -/
theorem take_lastRows {shift : Nat} (hlen : shift ≤ (lastRows h rows).length)
    (hshift : shift ≤ (leaving h rows more).length) :
    (lastRows h rows).take shift = (leaving h rows more).take shift := by
  have hle : scrolled h rows ≤ rows.length := Nat.sub_le _ _
  rw [length_leaving] at hshift
  rw [leaving, slice, List.drop_take, List.take_take, Nat.min_eq_left hshift,
    List.drop_append_of_le_length hle]
  exact (List.take_append_of_le_length hlen).symm

end Terminal

namespace LineAssembler
variable {ρ : Type} [TextRow ρ] {asm : LineAssembler ρ} {screen : Screen ρ} {h : Nat}
  {rows more : List ρ}

/-- Until the marker is seen only what stands after it is returned. -/
def pastMarker (asm : LineAssembler ρ) (lines : List ρ) : List ρ :=
  if asm.armed then lines
  else
    match lines.findIdx? asm.hasMarker with
    | some index => lines.drop (index + 1)
    | none => []

theorem push_scroll_eq (hinit : asm.initialized = true) (hreset : screen.reset = false) :
    (asm.push screen).2 =
      ⟨asm.pastMarker (asm.departed screen), asm.missingFrom screen, false⟩ := by
  rw [push_scroll hinit hreset, pastMarker]
  cases harmed : asm.armed with
  | true => rw [pushScroll_armed harmed, if_pos rfl]
  | false =>
    rw [if_neg Bool.false_ne_true]
    cases hlines : (asm.departed screen).findIdx? asm.hasMarker with
    | some index => rw [pushScroll_departed harmed hlines]
    | none =>
      cases hrows : screen.rows.findIdx? asm.hasMarker with
      | some index => rw [pushScroll_onScreen harmed hlines hrows]
      | none => rw [pushScroll_unseen harmed hlines hrows]

/-- The screen before and after: `rows` were written first, then `more`. -/
structure Follows (asm : LineAssembler ρ) (screen : Screen ρ) (h : Nat) (rows more : List ρ) :
    Prop where
  initialized : asm.initialized = true
  prev : asm.prev = lastRows h rows
  cur : screen.rows = lastRows h (rows ++ more)
  delta : screen.historyTotal - asm.historyTotal = (leaving h rows more).length

theorem Follows.shiftTo_le (hf : Follows asm screen h rows more) :
    asm.shiftTo screen.rows ≤ (leaving h rows more).length := by
  have hoverlap := lastRows_overlap h (rows.map TextRow.text) (more.map TextRow.text)
  have hlen : (leaving h (rows.map TextRow.text) (more.map TextRow.text)).length =
      (leaving h rows more).length := by
    rw [length_leaving, length_leaving, scrolled, scrolled, scrolled, scrolled, ← List.map_append,
      List.length_map, List.length_map]
  rw [shiftTo, hf.prev, hf.cur, map_lastRows, map_lastRows, List.map_append, ← hlen]
  exact departureShift_le hoverlap

theorem Follows.departed_eq (hf : Follows asm screen h rows more) :
    asm.departed screen =
      ((leaving h rows more).take (asm.shiftTo screen.rows)).map TextRow.collapse := by
  have hlen : asm.shiftTo screen.rows ≤ (lastRows h rows).length := by
    have hle : asm.shiftTo screen.rows ≤ asm.prev.length :=
      (departureShift_le_length _ _).trans_eq (List.length_map _)
    exact hf.prev ▸ hle
  rw [departed, hf.prev, take_lastRows h rows more hlen hf.shiftTo_le]

/-- The shift is never larger than the truth; the rows at the top that it counts are the oldest that
left, and they are returned; the others are counted as missing. -/
theorem push_departures (hf : Follows asm screen h rows more) :
    asm.shiftTo screen.rows ≤ (leaving h rows more).length ∧
    (screen.reset = false → ∃ oldest gap, leaving h rows more = oldest ++ gap ∧
      oldest.length = asm.shiftTo screen.rows ∧
      (asm.push screen).2.lines = asm.pastMarker (oldest.map TextRow.collapse) ∧
      (asm.push screen).2.missing = gap.length) ∧
    (screen.reset = true → (asm.push screen).2.lines = [] ∧ (asm.push screen).2.missing = 0) := by
  refine ⟨hf.shiftTo_le, fun hreset => ?_, fun hreset => ?_⟩
  · refine ⟨_, _, (List.take_append_drop (asm.shiftTo screen.rows) _).symm, ?_, ?_, ?_⟩
    · rw [List.length_take, Nat.min_eq_left hf.shiftTo_le]
    · rw [push_scroll_eq hf.initialized hreset, hf.departed_eq]
    · rw [push_scroll_eq hf.initialized hreset, List.length_drop]
      dsimp only
      rw [missingFrom, hf.delta]
  · rw [push_reset hf.initialized hreset]
    exact ⟨rfl, rfl⟩

/-- An assembler that shows the row `a`, before the marker is seen or after. -/
def showing (armed : Bool) : LineAssembler String := ⟨["a"], armed, "M", 0, true⟩

/-- The row scrolls off. -/
def scrolledFrame : Screen String := ⟨["b"], false, 1⟩

theorem follows_showing (armed : Bool) : Follows (showing armed) scrolledFrame 1 ["a"] ["b"] where
  initialized := rfl
  prev := rfl
  cur := rfl
  delta := rfl

theorem push_departures_showing :
    (showing true).shiftTo scrolledFrame.rows ≤ (leaving 1 ["a"] ["b"]).length ∧
    ∃ oldest gap, leaving 1 ["a"] ["b"] = oldest ++ gap ∧
      oldest.length = (showing true).shiftTo scrolledFrame.rows ∧
      ((showing true).push scrolledFrame).2.lines =
        (showing true).pastMarker (oldest.map TextRow.collapse) ∧
      ((showing true).push scrolledFrame).2.missing = gap.length :=
  ⟨(push_departures (follows_showing true)).1, (push_departures (follows_showing true)).2.1 rfl⟩

/-- Before the marker is seen a row leaves and is neither returned nor counted. -/
theorem unarmed_push_drops_a_row :
    ¬ ∀ (asm : LineAssembler String) (screen : Screen String) (h : Nat) (rows more : List String),
      Follows asm screen h rows more → screen.reset = false →
        ∃ oldest gap, leaving h rows more = oldest ++ gap ∧
          (asm.push screen).2.lines = oldest.map TextRow.collapse ∧
          (asm.push screen).2.missing = gap.length := by
  intro hall
  obtain ⟨oldest, gap, hleaving, hlines, hmissing⟩ := hall _ _ _ _ _ (follows_showing false) rfl
  have hpush : ((showing false).push scrolledFrame).2 = ⟨[], 0, false⟩ := by decide +kernel
  rw [hpush] at hlines hmissing
  have holdest : oldest = [] := List.map_eq_nil_iff.mp hlines.symm
  have hgap : gap = [] := List.length_eq_zero_iff.mp hmissing.symm
  rw [holdest, hgap] at hleaving
  cases hleaving

end LineAssembler
end Shellflow
