import Shellflow.Muxy.Lines

/-! Frames of a terminal: a screen shows the last rows, and the rows above are the history. -/
namespace Shellflow
variable {ρ : Type}

/-- How many rows have left a screen of height `h`. -/
def scrolled (h : Nat) (rows : List ρ) : Nat := rows.length - h

/-- The last `h` rows; a screen that is not full yet is padded with blank rows. -/
def screenRows (blank : ρ) (h : Nat) (rows : List ρ) : List ρ :=
  rows.drop (scrolled h rows) ++ List.replicate (h - rows.length) blank

/-- A frame of the terminal and the history behind it. -/
def frameOf (blank : ρ) (h : Nat) (rows : List ρ) : Screen ρ × List ρ :=
  (⟨screenRows blank h rows, false, scrolled h rows⟩, rows.take (scrolled h rows))

theorem length_screenRows (blank : ρ) (h : Nat) (rows : List ρ) :
    (screenRows blank h rows).length = h := by
  simp only [screenRows, scrolled, List.length_append, List.length_drop, List.length_replicate]
  omega

theorem getElem?_screenRows (blank : ρ) (h : Nat) (rows : List ρ) (j : Nat) :
    (screenRows blank h rows)[j]? =
      if scrolled h rows + j < rows.length then rows[scrolled h rows + j]?
      else if j < h then some blank else none := by
  rw [screenRows, List.getElem?_append, List.length_drop, List.getElem?_drop,
    List.getElem?_replicate, scrolled]
  by_cases hj : rows.length - h + j < rows.length
  · rw [if_pos hj, if_pos (by omega)]
  · rw [if_neg hj, if_neg (by omega)]
    by_cases hh : j < h
    · rw [if_pos hh, if_pos (by omega)]
    · rw [if_neg hh, if_neg (by omega)]

theorem not_contains_empty {marker : String} (h : marker ≠ "") : Str.contains "" marker = false := by
  have hchars : marker.toList ≠ [] := by simpa using h
  simp [Str.contains, hchars]

end Shellflow
