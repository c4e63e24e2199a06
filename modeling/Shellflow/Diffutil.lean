import Mathlib.Algebra.GroupWithZero.Nat
import Mathlib.Data.List.GetD
import Shellflow.Lib.Lcs
import Shellflow.Text

/-! A unified diff of two texts: the operations come out of a table of common subsequences, and the
changes are shown in hunks with the lines around them. -/
namespace Shellflow.Diffutil
open Lcs

/-- The largest table that is built. -/
def maxCells : Nat := 1000000

/-- How many unchanged lines are shown around each change. -/
def context : Nat := 3

inductive Op where
  | equal (text : String)
  | delete (text : String)
  | insert (text : String)
deriving DecidableEq, Repr

def Op.isEqual : Op → Bool
  | .equal _ => true
  | _ => false

/-- The product, or the largest machine word. -/
def saturatingMul (a b : Nat) : Nat := min (a * b) (2 ^ 64 - 1)

section Table
variable (old new : List String)

def width : Nat := new.length + 1

/-- One cell, from the cells below it and to its right. -/
def fillCell (i : Nat) (table : List Nat) (j : Nat) : List Nat :=
  table.set (i * width new + j)
    (if old[i]? = new[j]? then table.getD ((i + 1) * width new + j + 1) 0 + 1
    else max (table.getD ((i + 1) * width new + j) 0) (table.getD (i * width new + j + 1) 0))

def fillRow (table : List Nat) (i : Nat) : List Nat :=
  (List.range new.length).reverse.foldl (fillCell old new i) table

/-- The lengths of the longest common subsequences of all pairs of suffixes, row by row; none for a
table that is too large. -/
def lcsTable : Option (List Nat) :=
  if maxCells < saturatingMul old.length (width new) then none
  else
    some ((List.range old.length).reverse.foldl (fillRow old new)
      (List.replicate ((old.length + 1) * width new) 0))

/-- The operations for the lines from `i` and from `j` on. -/
def diffFrom (table : List Nat) (i j : Nat) : List Op :=
  if hi : i < old.length then
    if hj : j < new.length then
      if old[i] = new[j] then .equal old[i] :: diffFrom table (i + 1) (j + 1)
      else if table.getD ((i + 1) * width new + j) 0 ≥ table.getD (i * width new + j + 1) 0 then
        .delete old[i] :: diffFrom table (i + 1) j
      else .insert new[j] :: diffFrom table i (j + 1)
    else .delete old[i] :: diffFrom table (i + 1) j
  else if hj : j < new.length then .insert new[j] :: diffFrom table i (j + 1)
  else []
termination_by (old.length - i) + (new.length - j)

def diffOps : List Op :=
  match lcsTable old new with
  | some table => diffFrom old new table 0 0
  -- the whole text is reported as changed
  | none => old.map .delete ++ new.map .insert

end Table

structure Hunk where
  header : String
  lines : List String
deriving DecidableEq, Repr

/-- Where the changes are. -/
def changed (ops : List Op) : List Nat :=
  (ops.zipIdx.filter fun op => !op.1.isEqual).map Prod.snd

/-- A change joins the last range that its context touches. -/
def addRange (len : Nat) (ranges : List (Nat × Nat)) (idx : Nat) : List (Nat × Nat) :=
  let start := idx - context
  let stop := min (idx + context) (len - 1)
  match ranges.getLast? with
  | some last =>
    if start ≤ last.2 + 1 then ranges.dropLast ++ [(last.1, max last.2 stop)]
    else ranges ++ [(start, stop)]
  | none => ranges ++ [(start, stop)]

def ranges (ops : List Op) : List (Nat × Nat) := (changed ops).foldl (addRange ops.length) []

def Op.oldCount : Op → Nat
  | .insert _ => 0
  | _ => 1

def Op.newCount : Op → Nat
  | .delete _ => 0
  | _ => 1

def oldCount (ops : List Op) : Nat := (ops.map Op.oldCount).sum

def newCount (ops : List Op) : Nat := (ops.map Op.newCount).sum

def Op.line : Op → String
  | .equal text => " " ++ text
  | .delete text => "-" ++ text
  | .insert text => "+" ++ text

/-- The `@@ -a,b +c,d @@` line. -/
def header (oldStart oldLines newStart newLines : Nat) : String :=
  s!"@@ -{oldStart},{oldLines} +{newStart},{newLines} @@"

/-- The hunks of the ranges, with the numbers of the next lines and the next operation. -/
def hunksFrom (ops : List Op) (oldLine newLine cursor : Nat) : List (Nat × Nat) → List Hunk
  | [] => []
  | (start, stop) :: rest =>
    let gap := (ops.drop cursor).take (start - cursor)
    let body := (ops.drop start).take (stop + 1 - start)
    let oldStart := oldLine + oldCount gap
    let newStart := newLine + newCount gap
    ⟨header oldStart (oldCount body) newStart (newCount body), body.map Op.line⟩ ::
      hunksFrom ops (oldStart + oldCount body) (newStart + newCount body) (stop + 1) rest

def hunks (ops : List Op) : List Hunk := hunksFrom ops 1 1 0 (ranges ops)

/-- The lines of the hunks, as they are printed. -/
def Hunk.printed (hunk : Hunk) : List String := hunk.header :: hunk.lines

def unifiedDiff (old new oldName newName : String) : String :=
  if old = new then ""
  else
    let found := hunks (diffOps (Str.lines old) (Str.lines new))
    let title := "--- " ++ oldName ++ "\n+++ " ++ newName ++ "\n"
    if found.isEmpty then title ++ "@@ files differ @@\n"
    else title ++ String.join ((found.flatMap Hunk.printed).map (· ++ "\n"))

/-- The lines of the old text. -/
def oldSide (ops : List Op) : List String :=
  ops.filterMap fun
    | .insert _ => none
    | .equal text => some text
    | .delete text => some text

/-- The lines of the new text. -/
def newSide (ops : List Op) : List String :=
  ops.filterMap fun
    | .delete _ => none
    | .equal text => some text
    | .insert text => some text

def equalCount (ops : List Op) : Nat := (ops.filter Op.isEqual).length

section Table
variable {old new : List String}

/-- The cells behind `(i, j)` in the order of the loops are filled, the others are still zero. -/
structure Filled (old new : List String) (i j : Nat) (table : List Nat) : Prop where
  length : table.length = (old.length + 1) * width new
  cells : ∀ r ≤ old.length, ∀ c ≤ new.length, table.getD (r * width new + c) 0 =
    if i < r ∨ (r = i ∧ j ≤ c) then lcs (old.drop r) (new.drop c) else 0

theorem index_lt {r c : Nat} (hr : r ≤ old.length) (hc : c ≤ new.length) :
    r * width new + c < (old.length + 1) * width new := by
  have hmul : r * width new ≤ old.length * width new := Nat.mul_le_mul_right _ hr
  rw [Nat.add_mul, Nat.one_mul]
  have hwidth : width new = new.length + 1 := rfl
  omega

/-- Two cells are one only when they stand in one row and one column. -/
theorem index_inj {r c i j : Nat} (hc : c ≤ new.length) (hj : j ≤ new.length)
    (h : r * width new + c = i * width new + j) : r = i ∧ c = j := by
  have hcw : c < width new := Nat.lt_succ_of_le hc
  have hjw : j < width new := Nat.lt_succ_of_le hj
  have hpos : 0 < width new := Nat.succ_pos _
  have hdiv := congrArg (· / width new) h
  simp only [Nat.mul_comm _ (width new), Nat.mul_add_div hpos, Nat.div_eq_of_lt hcw,
    Nat.div_eq_of_lt hjw, Nat.add_zero] at hdiv
  subst hdiv
  exact ⟨rfl, Nat.add_left_cancel h⟩

theorem filled_start : Filled old new old.length 0
    (List.replicate ((old.length + 1) * width new) 0) := by
  refine ⟨List.length_replicate, fun r hr c hc => ?_⟩
  have hzero : (List.replicate ((old.length + 1) * width new) 0).getD (r * width new + c) 0 =
      0 := by
    rw [List.getD_eq_getElem _ _ (by rw [List.length_replicate]; exact index_lt hr hc),
      List.getElem_replicate]
  rw [hzero]
  split
  next h =>
    have hlast : r = old.length := by omega
    rw [hlast, List.drop_length, lcs_nil_left]
  next => rfl

/-- The last column of a row is zero from the start. -/
theorem Filled.next {i : Nat} {table : List Nat} (h : Filled old new (i + 1) 0 table) :
    Filled old new i new.length table := by
  refine ⟨h.length, fun r hr c hc => ?_⟩
  rw [h.cells r hr c hc]
  by_cases hr' : i < r
  · rw [if_pos (by omega), if_pos (by omega)]
  · rw [if_neg (by omega)]
    split
    next hcell =>
      have hlast : c = new.length := by omega
      rw [hlast, List.drop_length, lcs_nil_right]
    next => rfl

theorem lcs_drop {i j : Nat} (hi : i < old.length) (hj : j < new.length) :
    lcs (old.drop i) (new.drop j) =
      if old[i]? = new[j]? then lcs (old.drop (i + 1)) (new.drop (j + 1)) + 1
      else max (lcs (old.drop (i + 1)) (new.drop j)) (lcs (old.drop i) (new.drop (j + 1))) := by
  rw [List.getElem?_eq_getElem hi, List.getElem?_eq_getElem hj]
  conv_lhs => rw [List.drop_eq_getElem_cons hi, List.drop_eq_getElem_cons hj]
  by_cases heq : old[i] = new[j]
  · rw [heq, lcs_cons_self, if_pos rfl]
  · rw [lcs_cons_of_ne heq, if_neg (by simpa using heq), ← List.drop_eq_getElem_cons hi,
      ← List.drop_eq_getElem_cons hj]

theorem Filled.fillCell {i j : Nat} {table : List Nat} (h : Filled old new i (j + 1) table)
    (hi : i < old.length) (hj : j < new.length) :
    Filled old new i j (fillCell old new i table j) := by
  have hbelow := h.cells (i + 1) hi (j + 1) hj
  have hdown := h.cells (i + 1) hi j hj.le
  have hright := h.cells i hi.le (j + 1) hj
  rw [if_pos (by omega)] at hbelow hdown hright
  rw [← Nat.add_assoc] at hbelow hright
  refine ⟨by rw [Diffutil.fillCell, List.length_set, h.length], fun r hr c hc => ?_⟩
  rw [Diffutil.fillCell, hbelow, hdown, hright, ← lcs_drop hi hj, List.getD_eq_getElem?_getD,
    List.getElem?_set]
  by_cases hcell : i * width new + j = r * width new + c
  · obtain ⟨rfl, rfl⟩ := index_inj hj.le hc hcell
    rw [if_pos rfl, if_pos (by rw [h.length]; exact index_lt hi.le hj.le), Option.getD_some,
      if_pos (by omega)]
  · rw [if_neg hcell, ← List.getD_eq_getElem?_getD, h.cells r hr c hc]
    have hne : ¬ (r = i ∧ c = j) := by
      rintro ⟨rfl, rfl⟩
      exact hcell rfl
    by_cases hfilled : i < r ∨ (r = i ∧ j + 1 ≤ c)
    · rw [if_pos hfilled, if_pos (by omega)]
    · rw [if_neg hfilled, if_neg (by omega)]

theorem Filled.fillRow {i : Nat} {table : List Nat} (h : Filled old new (i + 1) 0 table)
    (hi : i < old.length) : Filled old new i 0 (fillRow old new table i) := by
  have hloop : ∀ k ≤ new.length, ∀ t, Filled old new i k t →
      Filled old new i 0 ((List.range k).reverse.foldl (Diffutil.fillCell old new i) t) := by
    intro k
    induction k with
    | zero => exact fun _ t ht => ht
    | succ k ih =>
      intro hk t ht
      rw [List.range_succ, List.reverse_append, List.reverse_singleton, List.singleton_append,
        List.foldl_cons]
      exact ih (by omega) _ (ht.fillCell hi hk)
  exact hloop new.length le_rfl table h.next

theorem filled_lcsTable {table : List Nat} (h : lcsTable old new = some table) :
    Filled old new 0 0 table := by
  have hloop : ∀ k ≤ old.length, ∀ t, Filled old new k 0 t →
      Filled old new 0 0 ((List.range k).reverse.foldl (fillRow old new) t) := by
    intro k
    induction k with
    | zero => exact fun _ t ht => ht
    | succ k ih =>
      intro hk t ht
      rw [List.range_succ, List.reverse_append, List.reverse_singleton, List.singleton_append,
        List.foldl_cons]
      exact ih (by omega) _ (ht.fillRow hk)
  unfold lcsTable at h
  split at h
  · cases h
  · cases h
    exact hloop old.length le_rfl _ filled_start

/-- `table[i * width + j]` is the length of the longest common subsequence of the suffixes. -/
theorem getD_lcsTable {table : List Nat} (h : lcsTable old new = some table) {i j : Nat}
    (hi : i ≤ old.length) (hj : j ≤ new.length) :
    table.getD (i * width new + j) 0 = lcs (old.drop i) (new.drop j) := by
  rw [(filled_lcsTable h).cells i hi j hj, if_pos (by omega)]

end Table

section Operations
variable {old new : List String} {table : List Nat}

attribute [local simp] diffFrom hunksFrom

theorem oldSide_diffFrom (i j : Nat) :
    oldSide (diffFrom old new table i j) = old.drop i := by
  induction i, j using diffFrom.induct old new table with
  | case1 i j hi hj heq ih =>
    rw [diffFrom, dif_pos hi, dif_pos hj, if_pos heq, List.drop_eq_getElem_cons hi, ← ih]
    rfl
  | case2 i j hi hj hne hge ih =>
    rw [diffFrom, dif_pos hi, dif_pos hj, if_neg hne, if_pos hge, List.drop_eq_getElem_cons hi,
      ← ih]
    rfl
  | case3 i j hi hj hne hge ih =>
    rw [diffFrom, dif_pos hi, dif_pos hj, if_neg hne, if_neg hge, ← ih]
    rfl
  | case4 i j hi hj ih =>
    rw [diffFrom, dif_pos hi, dif_neg hj, List.drop_eq_getElem_cons hi, ← ih]
    rfl
  | case5 i j hi hj ih =>
    rw [diffFrom, dif_neg hi, dif_pos hj, ← ih]
    rfl
  | case6 i j hi hj =>
    rw [diffFrom, dif_neg hi, dif_neg hj, List.drop_eq_nil_of_le (Nat.le_of_not_lt hi)]
    rfl

theorem newSide_diffFrom (i j : Nat) :
    newSide (diffFrom old new table i j) = new.drop j := by
  induction i, j using diffFrom.induct old new table with
  | case1 i j hi hj heq ih =>
    rw [diffFrom, dif_pos hi, dif_pos hj, if_pos heq, List.drop_eq_getElem_cons hj, ← ih, heq]
    rfl
  | case2 i j hi hj hne hge ih =>
    rw [diffFrom, dif_pos hi, dif_pos hj, if_neg hne, if_pos hge, ← ih]
    rfl
  | case3 i j hi hj hne hge ih =>
    rw [diffFrom, dif_pos hi, dif_pos hj, if_neg hne, if_neg hge, List.drop_eq_getElem_cons hj,
      ← ih]
    rfl
  | case4 i j hi hj ih =>
    rw [diffFrom, dif_pos hi, dif_neg hj, ← ih]
    rfl
  | case5 i j hi hj ih =>
    rw [diffFrom, dif_neg hi, dif_pos hj, List.drop_eq_getElem_cons hj, ← ih]
    rfl
  | case6 i j hi hj =>
    rw [diffFrom, dif_neg hi, dif_neg hj, List.drop_eq_nil_of_le (Nat.le_of_not_lt hj)]
    rfl

/-- The walk through the table keeps as many lines as any common subsequence has. -/
theorem equalCount_diffFrom (h : lcsTable old new = some table) (i j : Nat) :
    equalCount (diffFrom old new table i j) = lcs (old.drop i) (new.drop j) := by
  induction i, j using diffFrom.induct old new table with
  | case1 i j hi hj heq ih =>
    rw [diffFrom, dif_pos hi, dif_pos hj, if_pos heq, List.drop_eq_getElem_cons hi,
      List.drop_eq_getElem_cons hj, heq, lcs_cons_self, ← ih]
    rfl
  | case2 i j hi hj hne hge ih =>
    have hge' := hge
    rw [getD_lcsTable h hi hj.le, Nat.add_assoc, getD_lcsTable h hi.le hj] at hge'
    rw [diffFrom, dif_pos hi, dif_pos hj, if_neg hne, if_pos hge, lcs_drop hi hj,
      if_neg (by simpa [hi, hj] using hne), Nat.max_eq_left hge', ← ih]
    rfl
  | case3 i j hi hj hne hge ih =>
    have hge' := hge
    rw [getD_lcsTable h hi hj.le, Nat.add_assoc, getD_lcsTable h hi.le hj] at hge'
    rw [diffFrom, dif_pos hi, dif_pos hj, if_neg hne, if_neg hge, lcs_drop hi hj,
      if_neg (by simpa [hi, hj] using hne), Nat.max_eq_right (Nat.le_of_not_ge hge'), ← ih]
    rfl
  | case4 i j hi hj ih =>
    have hlast : new.drop j = [] := List.drop_eq_nil_of_le (Nat.le_of_not_lt hj)
    rw [hlast, lcs_nil_right] at ih
    rw [diffFrom, dif_pos hi, dif_neg hj, hlast, lcs_nil_right, ← ih]
    rfl
  | case5 i j hi hj ih =>
    have hlast : old.drop i = [] := List.drop_eq_nil_of_le (Nat.le_of_not_lt hi)
    rw [hlast, lcs_nil_left] at ih
    rw [diffFrom, dif_neg hi, dif_pos hj, hlast, lcs_nil_left, ← ih]
    rfl
  | case6 i j hi hj =>
    rw [diffFrom, dif_neg hi, dif_neg hj, List.drop_eq_nil_of_le (Nat.le_of_not_lt hi),
      lcs_nil_left]
    rfl

theorem oldSide_diffOps (old new : List String) : oldSide (diffOps old new) = old := by
  unfold diffOps
  split
  next table _ => exact oldSide_diffFrom 0 0
  next =>
    have hdeleted : oldSide (old.map .delete) = old := by
      rw [oldSide, List.filterMap_map]
      exact List.filterMap_some
    have hinserted : oldSide (new.map .insert) = [] := by simp [oldSide]
    rw [oldSide, List.filterMap_append, ← oldSide, ← oldSide, hdeleted, hinserted,
      List.append_nil]

theorem newSide_diffOps (old new : List String) : newSide (diffOps old new) = new := by
  unfold diffOps
  split
  next table _ => exact newSide_diffFrom 0 0
  next =>
    have hdeleted : newSide (old.map .delete) = [] := by simp [newSide]
    have hinserted : newSide (new.map .insert) = new := by
      rw [newSide, List.filterMap_map]
      exact List.filterMap_some
    rw [newSide, List.filterMap_append, ← newSide, ← newSide, hdeleted, hinserted,
      List.nil_append]

theorem lcsTable_of_le (h : old.length * width new ≤ maxCells) :
    ∃ table, lcsTable old new = some table := by
  have hsmall : ¬ maxCells < saturatingMul old.length (width new) :=
    Nat.not_lt.mpr ((Nat.min_le_left _ _).trans h)
  exact ⟨_, if_neg hsmall⟩

theorem equalCount_diffOps (h : old.length * width new ≤ maxCells) :
    equalCount (diffOps old new) = lcs old new := by
  obtain ⟨table, htable⟩ := lcsTable_of_le h
  rw [diffOps, htable]
  exact equalCount_diffFrom htable 0 0

end Operations

/-- Unchanged operations, and then hunks with unchanged operations between them; a header has the
number of its first line in both texts and the number of its lines. -/
inductive Grouped : Nat → Nat → List Op → List Hunk → Prop
  | rest {oldLine newLine : Nat} {ops : List Op} (h : ∀ op ∈ ops, op.isEqual = true) :
      Grouped oldLine newLine ops []
  | hunk {oldLine newLine : Nat} {gap body ops : List Op} {hunks : List Hunk}
      (hgap : ∀ op ∈ gap, op.isEqual = true)
      (h : Grouped (oldLine + oldCount gap + oldCount body)
        (newLine + newCount gap + newCount body) ops hunks) :
      Grouped oldLine newLine (gap ++ body ++ ops)
        (⟨header (oldLine + oldCount gap) (oldCount body) (newLine + newCount gap)
          (newCount body), body.map Op.line⟩ :: hunks)

/-- The number in front of a text, and the text behind it. -/
def number (s : List Char) : Option (Nat × List Char) :=
  if s.takeWhile Char.isDigit = [] then none
  else
    (Str.digitsValue 10 0 (s.takeWhile Char.isDigit)).map fun n => (n, s.dropWhile Char.isDigit)

/-- The four numbers of a `@@ -a,b +c,d @@` line. -/
def readHeader (line : String) : Option (Nat × Nat × Nat × Nat) := do
  let (oldStart, s) ← number (← ['@', '@', ' ', '-'].isPrefixOf? line.toList)
  let (oldLines, s) ← number (← [','].isPrefixOf? s)
  let (newStart, s) ← number (← [' ', '+'].isPrefixOf? s)
  let (newLines, s) ← number (← [','].isPrefixOf? s)
  if s = [' ', '@', '@'] then some (oldStart, oldLines, newStart, newLines) else none

/-- Hunks being applied to a text: the numbers of its next line and of the next line of the result,
the lines that the hunk still has to show of each, what is left of the text and what is done. -/
structure Patching where
  oldLine : Nat
  newLine : Nat
  oldLeft : Nat
  newLeft : Nat
  rest : List String
  done : List String
deriving DecidableEq, Repr

/-- A header copies the lines in front of its hunk; both texts must be at the named lines then. -/
def Patching.header (p : Patching) (line : String) : Option Patching := do
  let (oldStart, oldLines, newStart, newLines) ← readHeader line
  let skipped := oldStart - p.oldLine
  if p.oldLine ≤ oldStart ∧ skipped ≤ p.rest.length ∧ p.newLine + skipped = newStart then
    some ⟨oldStart, newStart, oldLines, newLines, p.rest.drop skipped,
      p.done ++ p.rest.take skipped⟩
  else none

/-- A line of a hunk; what it keeps or deletes must be the next line of the text, and it must be
one of the lines the header has counted. -/
def Patching.body (p : Patching) (mark : Char) (text : String) : Option Patching :=
  if mark = '+' then
    if 0 < p.newLeft then
      some { p with newLine := p.newLine + 1, newLeft := p.newLeft - 1, done := p.done ++ [text] }
    else none
  else if 0 < p.oldLeft ∧ p.rest.head? = some text then
    if mark = '-' then
      some { p with oldLine := p.oldLine + 1, oldLeft := p.oldLeft - 1, rest := p.rest.tail }
    else if mark = ' ' ∧ 0 < p.newLeft then
      some ⟨p.oldLine + 1, p.newLine + 1, p.oldLeft - 1, p.newLeft - 1, p.rest.tail,
        p.done ++ [text]⟩
    else none
  else none

/-- A hunk that has shown all its lines is followed by a header. -/
def Patching.line (p : Patching) (line : String) : Option Patching :=
  if p.oldLeft = 0 ∧ p.newLeft = 0 then p.header line
  else
    match line.toList with
    | [] => none
    | mark :: text => p.body mark (.ofList text)

/-- The text after the hunks, when they fit it line by line. -/
def patch (old lines : List String) : Option (List String) := do
  let p ← lines.foldlM Patching.line ⟨1, 1, 0, 0, old, []⟩
  if p.oldLeft = 0 ∧ p.newLeft = 0 then some (p.done ++ p.rest) else none

example : patch ["a", "b"] ["@@ -1,2 +1,2 @@", " a", "-b", "+c"] = some ["a", "c"] := by decide
example : patch ["a", "b"] ["@@ -1,2 +1,2 @@", " a", "-b"] = none := by decide

section Ranges
variable {ops : List Op} {len idx : Nat} {found : List (Nat × Nat)}

theorem mem_changed : idx ∈ changed ops ↔ ∃ op, ops[idx]? = some op ∧ op.isEqual = false := by
  simp only [changed, List.mem_map, List.mem_filter, Bool.not_eq_true', Prod.exists,
    List.mem_zipIdx_iff_getElem?]
  constructor
  · rintro ⟨op, k, ⟨hop, hne⟩, rfl⟩
    exact ⟨op, hop, hne⟩
  · rintro ⟨op, hop, hne⟩
    exact ⟨op, idx, ⟨hop, hne⟩, rfl⟩

theorem pairwise_changed (ops : List Op) : (changed ops).Pairwise (· < ·) := by
  have hall : (ops.zipIdx.map Prod.snd).Pairwise (· < ·) := by
    rw [List.zipIdx_map_snd]
    exact List.pairwise_lt_range'
  exact hall.sublist (List.filter_sublist.map Prod.snd)

/-- The ranges are in order and apart, and lie in the list. -/
structure Apart (len : Nat) (found : List (Nat × Nat)) : Prop where
  bounds : ∀ r ∈ found, r.1 ≤ r.2 ∧ r.2 < len
  order : found.Pairwise fun r r' => r.2 < r'.1

theorem addRange_eq (len : Nat) (found : List (Nat × Nat)) (idx : Nat) :
    (∃ front last, found = front ++ [last] ∧ idx - context ≤ last.2 + 1 ∧
      addRange len found idx =
        front ++ [(last.1, max last.2 (min (idx + context) (len - 1)))]) ∨
    (∀ last, found.getLast? = some last → last.2 + 1 < idx - context) ∧
      addRange len found idx = found ++ [(idx - context, min (idx + context) (len - 1))] := by
  unfold addRange
  cases hlast : found.getLast? with
  | none => exact .inr ⟨fun last h => (by cases h), rfl⟩
  | some last =>
    have hsplit : found = found.dropLast ++ [last] :=
      (List.dropLast_append_getLast? last hlast).symm
    by_cases htouch : idx - context ≤ last.2 + 1
    · exact .inl ⟨found.dropLast, last, hsplit, htouch, if_pos htouch⟩
    · refine .inr ⟨fun last' h => ?_, if_neg htouch⟩
      cases h
      omega

theorem Apart.addRange (h : Apart len found) (hidx : idx < len)
    (hbehind : ∀ r ∈ found, r.1 ≤ idx) : Apart len (addRange len found idx) := by
  cases addRange_eq len found idx with
  | inl hjoin =>
    obtain ⟨front, last, rfl, -, heq⟩ := hjoin
    have hlast := h.bounds last (by simp)
    have horder := List.pairwise_append.mp h.order
    rw [heq]
    constructor
    · intro r hr
      cases List.mem_append.mp hr with
      | inl hr => exact h.bounds r (List.mem_append_left _ hr)
      | inr hr =>
        rw [List.mem_singleton] at hr
        subst hr
        dsimp only
        omega
    · refine List.pairwise_append.mpr ⟨horder.1, List.pairwise_singleton _ _, ?_⟩
      intro r hr r' hr'
      rw [List.mem_singleton] at hr'
      subst hr'
      exact horder.2.2 r hr last (List.mem_singleton_self _)
  | inr hnew =>
    obtain ⟨happart, heq⟩ := hnew
    rw [heq]
    constructor
    · intro r hr
      cases List.mem_append.mp hr with
      | inl hr => exact h.bounds r hr
      | inr hr =>
        rw [List.mem_singleton] at hr
        subst hr
        dsimp only
        omega
    · refine List.pairwise_append.mpr ⟨h.order, List.pairwise_singleton _ _, ?_⟩
      intro r hr r' hr'
      rw [List.mem_singleton] at hr'
      subst hr'
      have hne : found ≠ [] := List.ne_nil_of_mem hr
      have hlast := happart _ (List.getLast?_eq_some_getLast hne)
      have hfound := (List.dropLast_concat_getLast hne).symm
      generalize found.getLast hne = last at hlast hfound
      generalize found.dropLast = front at hfound
      rw [hfound] at hr
      cases List.mem_append.mp hr with
      | inl hfront =>
        have hsound := h.order
        rw [hfound] at hsound
        have hbefore := (List.pairwise_append.mp hsound).2.2 r hfront last
          (List.mem_singleton_self _)
        have hbounds := h.bounds last (by simp [hfound])
        dsimp only
        omega
      | inr hself =>
        rw [List.mem_singleton] at hself
        subst hself
        dsimp only
        omega

/-- A range that holds `k` keeps holding it. -/
def CoveredBy (found : List (Nat × Nat)) (k : Nat) : Prop := ∃ r ∈ found, r.1 ≤ k ∧ k ≤ r.2

theorem CoveredBy.addRange {k : Nat} (h : CoveredBy found k) :
    CoveredBy (addRange len found idx) k := by
  obtain ⟨r, hr, hle, hge⟩ := h
  cases addRange_eq len found idx with
  | inl hjoin =>
    obtain ⟨front, last, rfl, -, heq⟩ := hjoin
    rw [heq]
    cases List.mem_append.mp hr with
    | inl hfront => exact ⟨r, List.mem_append_left _ hfront, hle, hge⟩
    | inr hself =>
      rw [List.mem_singleton] at hself
      subst hself
      exact ⟨_, List.mem_append_right _ (List.mem_singleton_self _), hle,
        hge.trans (Nat.le_max_left _ _)⟩
  | inr hnew =>
    rw [hnew.2]
    exact ⟨r, List.mem_append_left _ hr, hle, hge⟩

theorem coveredBy_addRange (hidx : idx < len) (hbehind : ∀ r ∈ found, r.1 ≤ idx) :
    CoveredBy (addRange len found idx) idx := by
  cases addRange_eq len found idx with
  | inl hjoin =>
    obtain ⟨front, last, rfl, -, heq⟩ := hjoin
    have hlast := hbehind last (by simp)
    rw [heq]
    refine ⟨_, List.mem_append_right _ (List.mem_singleton_self _), hlast, ?_⟩
    dsimp only
    omega
  | inr hnew =>
    rw [hnew.2]
    refine ⟨_, List.mem_append_right _ (List.mem_singleton_self _), ?_, ?_⟩
    · dsimp only
      omega
    · dsimp only
      omega

theorem addRange_behind {k : Nat} (hk : idx < k) (hbehind : ∀ r ∈ found, r.1 ≤ idx) :
    ∀ r ∈ addRange len found idx, r.1 ≤ k := by
  intro r hr
  cases addRange_eq len found idx with
  | inl hjoin =>
    obtain ⟨front, last, rfl, -, heq⟩ := hjoin
    rw [heq] at hr
    cases List.mem_append.mp hr with
    | inl hfront => exact (hbehind r (List.mem_append_left _ hfront)).trans hk.le
    | inr hself =>
      rw [List.mem_singleton] at hself
      subst hself
      exact (hbehind last (by simp)).trans hk.le
  | inr hnew =>
    rw [hnew.2] at hr
    cases List.mem_append.mp hr with
    | inl hold => exact (hbehind r hold).trans hk.le
    | inr hself =>
      rw [List.mem_singleton] at hself
      subst hself
      dsimp only
      omega

/-- The ranges of increasing positions are apart and cover them all. -/
theorem foldl_addRange {l : List Nat} (hl : l.Pairwise (· < ·)) (hlen : ∀ k ∈ l, k < len)
    (happart : Apart len found) (hbehind : ∀ k ∈ l, ∀ r ∈ found, r.1 ≤ k) :
    Apart len (l.foldl (addRange len) found) ∧
      ∀ k, k ∈ l ∨ CoveredBy found k → CoveredBy (l.foldl (addRange len) found) k := by
  induction l generalizing found with
  | nil => exact ⟨happart, fun k hk => hk.resolve_left List.not_mem_nil⟩
  | cons idx l ih =>
    obtain ⟨hfirst, hl⟩ := List.pairwise_cons.mp hl
    obtain ⟨hidx, hlen⟩ := List.forall_mem_cons.mp hlen
    have hback := hbehind idx List.mem_cons_self
    obtain ⟨hsound, hcover⟩ := ih hl hlen (happart.addRange hidx hback) fun k hk =>
      addRange_behind (hfirst k hk) hback
    refine ⟨hsound, fun k hk => hcover k ?_⟩
    cases hk with
    | inl hmem =>
      cases List.mem_cons.mp hmem with
      | inl heq =>
        subst heq
        exact .inr (coveredBy_addRange hidx hback)
      | inr hmem => exact .inl hmem
    | inr hold => exact .inr hold.addRange

theorem ranges_spec (ops : List Op) : Apart ops.length (ranges ops) ∧
    ∀ k op, ops[k]? = some op → op.isEqual = false → CoveredBy (ranges ops) k := by
  have hlen : ∀ k ∈ changed ops, k < ops.length := by
    intro k hk
    obtain ⟨op, hop, -⟩ := mem_changed.mp hk
    exact (List.getElem?_eq_some_iff.mp hop).1
  have hnone : Apart ops.length [] := ⟨fun r hr => (by cases hr), List.Pairwise.nil⟩
  obtain ⟨happart, hcover⟩ := foldl_addRange (pairwise_changed ops) hlen hnone
    fun k hk r hr => by cases hr
  exact ⟨happart, fun k op hop hne => hcover k (.inl (mem_changed.mpr ⟨op, hop, hne⟩))⟩

/-- What the cursor has passed is behind the ranges, and no change is. -/
theorem grouped_hunksFrom {cursor : Nat} (happart : Apart ops.length found)
    (hcursor : ∀ r ∈ found, cursor ≤ r.1)
    (hcover : ∀ k op, cursor ≤ k → ops[k]? = some op → op.isEqual = false → CoveredBy found k)
    (oldLine newLine : Nat) :
    Grouped oldLine newLine (ops.drop cursor) (hunksFrom ops oldLine newLine cursor found) := by
  induction found generalizing cursor oldLine newLine with
  | nil =>
    refine .rest fun op hop => ?_
    obtain ⟨k, hk⟩ := List.mem_iff_getElem?.mp hop
    rw [List.getElem?_drop] at hk
    by_contra hne
    obtain ⟨r, hr, -⟩ := hcover _ op (Nat.le_add_right _ _) hk (by simpa using hne)
    cases hr
  | cons r found ih =>
    obtain ⟨start, stop⟩ := r
    have hbounds := happart.bounds _ List.mem_cons_self
    have hstart := hcursor _ List.mem_cons_self
    obtain ⟨hfirst, horder⟩ := List.pairwise_cons.mp happart.order
    dsimp only at hbounds hstart hfirst
    have hsplit : ops.drop cursor = (ops.drop cursor).take (start - cursor) ++
        (ops.drop start).take (stop + 1 - start) ++ ops.drop (stop + 1) := by
      have hgap := List.take_append_drop (start - cursor) (ops.drop cursor)
      have hbody := List.take_append_drop (stop + 1 - start) (ops.drop start)
      rw [List.drop_drop, Nat.add_sub_cancel' hstart] at hgap
      rw [List.drop_drop, Nat.add_sub_cancel' (by omega)] at hbody
      rw [List.append_assoc, hbody, hgap]
    rw [hsplit]
    refine .hunk (fun op hop => ?_) (ih ⟨fun r hr => happart.bounds r (.tail _ hr), horder⟩
      hfirst (fun k op hk hop hne => ?_) _ _)
    · -- a change in front of the range would be in a later one
      obtain ⟨k, hk⟩ := List.mem_iff_getElem?.mp hop
      rw [List.getElem?_take] at hk
      split at hk
      next hlt =>
        rw [List.getElem?_drop] at hk
        by_contra hne
        obtain ⟨r, hr, hle, -⟩ := hcover _ op (Nat.le_add_right _ _) hk (by simpa using hne)
        cases List.mem_cons.mp hr with
        | inl hself =>
          rw [hself] at hle
          dsimp only at hle
          omega
        | inr hlater =>
          have hbehind := hfirst r hlater
          omega
      next => cases hk
    · obtain ⟨r, hr, hle, hge⟩ := hcover k op (by omega) hop hne
      cases List.mem_cons.mp hr with
      | inl hself =>
        rw [hself] at hge
        dsimp only at hge
        omega
      | inr hlater => exact ⟨r, hlater, hle, hge⟩

/-- Every change stands in exactly one hunk, under the numbers of its lines. -/
theorem grouped_hunks (ops : List Op) : Grouped 1 1 ops (hunks ops) := by
  obtain ⟨happart, hcover⟩ := ranges_spec ops
  exact grouped_hunksFrom happart (fun r _ => Nat.zero_le _) (fun k op _ => hcover k op) 1 1

end Ranges

section Applied
variable {oldLine newLine : Nat} {ops : List Op}

theorem number_toString (n : Nat) (s : List Char) (hs : s.head?.all (!·.isDigit) = true) :
    number ((toString n).toList ++ s) = some (n, s) := by
  have hdigit : ∀ d ∈ (toString n).toList, d.isDigit = true := fun d =>
    Str.isDigit_of_mem_toString
  have hdigits : ((toString n).toList ++ s).takeWhile Char.isDigit = (toString n).toList := by
    rw [List.takeWhile_append_of_pos hdigit]
    cases s with
    | nil => exact List.append_nil _
    | cons c s => rw [List.takeWhile_cons_of_neg (by simpa using hs), List.append_nil]
  have hrest : ((toString n).toList ++ s).dropWhile Char.isDigit = s := by
    rw [List.dropWhile_append_of_pos hdigit]
    cases s with
    | nil => rfl
    | cons c s => rw [List.dropWhile_cons_of_neg (by simpa using hs)]
  rw [number, hdigits, hrest, if_neg (Str.toString_toList_ne_nil n), Str.digitsValue_toString,
    Option.map_some]

theorem readHeader_header (oldStart oldLines newStart newLines : Nat) :
    readHeader (header oldStart oldLines newStart newLines) =
      some (oldStart, oldLines, newStart, newLines) := by
  have htext : (header oldStart oldLines newStart newLines).toList =
      ['@', '@', ' ', '-'] ++ ((toString oldStart).toList ++ ([','] ++
        ((toString oldLines).toList ++ ([' ', '+'] ++ ((toString newStart).toList ++ ([','] ++
          ((toString newLines).toList ++ [' ', '@', '@']))))))) := by
    simp only [header, String.toList_append, List.append_assoc]
    rfl
  have hafter (pat s : List Char) : pat.isPrefixOf? (pat ++ s) = some s :=
    List.isPrefixOf?_eq_some_iff_append_eq.mpr rfl
  simp only [readHeader, htext, hafter, Option.bind_eq_bind, Option.bind_some]
  rw [number_toString _ _ rfl, Option.bind_some]
  simp only [hafter, Option.bind_some]
  rw [number_toString _ _ rfl, Option.bind_some]
  simp only [hafter, Option.bind_some]
  rw [number_toString _ _ rfl, Option.bind_some]
  simp only [hafter, Option.bind_some]
  rw [number_toString _ _ rfl, Option.bind_some, if_pos rfl]

/-- Unchanged lines are the same in both texts. -/
theorem counts_of_equal {gap : List Op} (h : ∀ op ∈ gap, op.isEqual = true) :
    oldCount gap = gap.length ∧ newCount gap = gap.length ∧ newSide gap = oldSide gap ∧
      (oldSide gap).length = gap.length := by
  induction gap with
  | nil => exact ⟨rfl, rfl, rfl, rfl⟩
  | cons op gap ih =>
    obtain ⟨hfirst, hgap⟩ := List.forall_mem_cons.mp h
    obtain ⟨hold, hnew, hside, hlength⟩ := ih hgap
    cases op with
    | delete => cases hfirst
    | insert => cases hfirst
    | equal text =>
      have hcount : oldCount (.equal text :: gap) = 1 + oldCount gap := rfl
      have hcount' : newCount (.equal text :: gap) = 1 + newCount gap := rfl
      have hold' : oldSide (.equal text :: gap) = text :: oldSide gap := rfl
      have hnew' : newSide (.equal text :: gap) = text :: newSide gap := rfl
      rw [hcount, hcount', hold', hnew', hside, List.length_cons, List.length_cons, hlength,
        hold, hnew, Nat.add_comm]
      exact ⟨rfl, rfl, rfl, rfl⟩

theorem line_mark {pat : String} (mark : Char) (hpat : pat.toList = [mark]) (p : Patching)
    (text : String) (hleft : p.oldLeft ≠ 0 ∨ p.newLeft ≠ 0) :
    p.line (pat ++ text) = p.body mark text := by
  have hopen : ¬ (p.oldLeft = 0 ∧ p.newLeft = 0) := by omega
  rw [Patching.line, if_neg hopen, String.toList_append, hpat]
  change p.body mark (.ofList text.toList) = _
  rw [String.ofList_toList]

/-- The lines of a hunk take what the header has counted of the text. -/
theorem foldlM_body (body : List Op) (rest done : List String) :
    (body.map Op.line).foldlM Patching.line
        ⟨oldLine, newLine, oldCount body, newCount body, oldSide body ++ rest, done⟩ =
      some ⟨oldLine + oldCount body, newLine + newCount body, 0, 0, rest, done ++ newSide body⟩ := by
  induction body generalizing oldLine newLine done with
  | nil => rw [show newSide [] = [] from rfl, List.append_nil]; rfl
  | cons op body ih =>
    rw [List.map_cons, List.foldlM_cons]
    cases op with
    | equal text =>
      have hold : oldCount (.equal text :: body) = oldCount body + 1 := Nat.add_comm _ _
      have hnew : newCount (.equal text :: body) = newCount body + 1 := Nat.add_comm _ _
      have hrun := @ih (oldLine + 1) (newLine + 1) (done ++ [text])
      rw [Nat.add_assoc, Nat.add_comm 1, Nat.add_assoc newLine, Nat.add_comm 1,
        List.append_assoc] at hrun
      rw [Op.line, line_mark ' ' rfl _ _ (.inl (by rw [hold]; exact Nat.succ_ne_zero _)),
        hold, hnew, Patching.body, if_neg (by decide), if_pos ⟨Nat.succ_pos _, rfl⟩, if_neg (by decide),
        if_pos ⟨rfl, Nat.succ_pos _⟩]
      exact hrun
    | delete text =>
      have hold : oldCount (.delete text :: body) = oldCount body + 1 := Nat.add_comm _ _
      have hnew : newCount (.delete text :: body) = newCount body := Nat.zero_add _
      have hrun := @ih (oldLine + 1) newLine done
      rw [Nat.add_assoc, Nat.add_comm 1] at hrun
      rw [Op.line, line_mark '-' rfl _ _ (.inl (by rw [hold]; exact Nat.succ_ne_zero _)),
        hold, hnew, Patching.body, if_neg (by decide), if_pos ⟨Nat.succ_pos _, rfl⟩, if_pos rfl]
      exact hrun
    | insert text =>
      have hold : oldCount (.insert text :: body) = oldCount body := Nat.zero_add _
      have hnew : newCount (.insert text :: body) = newCount body + 1 := Nat.add_comm _ _
      have hrun := @ih oldLine (newLine + 1) (done ++ [text])
      rw [Nat.add_assoc newLine, Nat.add_comm 1, List.append_assoc] at hrun
      rw [Op.line, line_mark '+' rfl _ _ (.inr (by rw [hnew]; exact Nat.succ_ne_zero _)),
        hold, hnew, Patching.body, if_pos rfl, if_pos (Nat.succ_pos _)]
      exact hrun

theorem oldSide_append (ops ops' : List Op) : oldSide (ops ++ ops') = oldSide ops ++ oldSide ops' :=
  List.filterMap_append

theorem newSide_append (ops ops' : List Op) : newSide (ops ++ ops') = newSide ops ++ newSide ops' :=
  List.filterMap_append

/-- Hunks that group the operations turn the old lines into the new ones. -/
theorem Grouped.foldlM {hunks : List Hunk} (h : Grouped oldLine newLine ops hunks)
    (done : List String) : ∃ p, (hunks.flatMap Hunk.printed).foldlM Patching.line
      ⟨oldLine, newLine, 0, 0, oldSide ops, done⟩ = some p ∧
      (p.oldLeft = 0 ∧ p.newLeft = 0) ∧ p.done ++ p.rest = done ++ newSide ops := by
  induction h generalizing done with
  | rest h =>
    refine ⟨_, rfl, ⟨rfl, rfl⟩, ?_⟩
    rw [(counts_of_equal h).2.2.1]
  | @hunk oldLine newLine gap body ops hunks hgap _ ih =>
    obtain ⟨p, hrun, hleft, hdone⟩ := ih (done ++ newSide gap ++ newSide body)
    obtain ⟨hold, hnew, hside, hlength⟩ := counts_of_equal hgap
    refine ⟨p, ?_, hleft, ?_⟩
    · have hheader : Patching.line
          ⟨oldLine, newLine, 0, 0, oldSide (gap ++ body ++ ops), done⟩
          (Diffutil.header (oldLine + oldCount gap) (oldCount body) (newLine + newCount gap)
            (newCount body)) =
          some ⟨oldLine + oldCount gap, newLine + newCount gap, oldCount body, newCount body,
            oldSide body ++ oldSide ops, done ++ newSide gap⟩ := by
        have hskip : oldLine + gap.length - oldLine = (oldSide gap).length := by
          rw [hlength, Nat.add_sub_cancel_left]
        rw [Patching.line, if_pos ⟨rfl, rfl⟩, Patching.header, readHeader_header]
        simp only [Option.bind_eq_bind, Option.bind_some]
        rw [hold, hnew, hside, oldSide_append, oldSide_append, List.append_assoc, hskip,
          List.drop_left, List.take_left, if_pos ⟨Nat.le_add_right _ _, by simp, by rw [hlength]⟩]
      rw [List.flatMap_cons, Hunk.printed, List.cons_append, List.foldlM_cons, hheader,
        Option.bind_eq_bind, Option.bind_some, List.foldlM_append, foldlM_body]
      exact hrun
    · rw [hdone, newSide_append, newSide_append]
      simp only [List.append_assoc]

theorem patch_hunks (ops : List Op) :
    patch (oldSide ops) ((hunks ops).flatMap Hunk.printed) = some (newSide ops) := by
  obtain ⟨p, hrun, hleft, hdone⟩ := (grouped_hunks ops).foldlM []
  rw [patch, hrun, Option.bind_eq_bind, Option.bind_some, if_pos hleft, hdone, List.nil_append]

end Applied

/-- The operations are those of both texts and keep as many lines as can be kept; the hunks hold
every change once under the numbers of their lines, and applied to the old text they give the new
one. -/
theorem diff_exact (old new : List String) :
    oldSide (diffOps old new) = old ∧ newSide (diffOps old new) = new ∧
      (old.length * (new.length + 1) ≤ maxCells →
        IsGreatest (commonLengths old new) (equalCount (diffOps old new))) ∧
      Grouped 1 1 (diffOps old new) (hunks (diffOps old new)) ∧
      patch old ((hunks (diffOps old new)).flatMap Hunk.printed) = some new := by
  refine ⟨oldSide_diffOps old new, newSide_diffOps old new, fun h => ?_, grouped_hunks _, ?_⟩
  · rw [equalCount_diffOps h]
    exact isGreatest_lcs old new
  · have happlied := patch_hunks (diffOps old new)
    rw [oldSide_diffOps, newSide_diffOps] at happlied
    exact happlied

end Shellflow.Diffutil
